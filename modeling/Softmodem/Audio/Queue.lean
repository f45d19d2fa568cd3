import Softmodem.Audio.Ring

namespace Softmodem.Audio

section Positions

variable {head tail len : UInt64}

theorem fill_write (h : (head - tail).toNat + len.toNat < 2 ^ 64) :
    (head + len - tail).toNat = (head - tail).toNat + len.toNat := by
  have heq : head + len - tail = head - tail + len := by grind
  rw [heq, UInt64.toNat_add, Nat.mod_eq_of_lt h]

theorem fill_read (h : len ≤ head - tail) :
    (head - (tail + len)).toNat = (head - tail).toNat - len.toNat := by
  have heq : head - (tail + len) = head - tail - len := by grind
  rw [heq, UInt64.toNat_sub_of_le _ _ h]

theorem head_add (head tail : UInt64) (i : Nat) :
    head + .ofNat i = tail + .ofNat ((head - tail).toNat + i) := by
  rw [UInt64.ofNat_add, UInt64.ofNat_toNat]
  grind

theorem tail_add (tail len : UInt64) (i : Nat) :
    tail + len + .ofNat i = tail + .ofNat (len.toNat + i) := by
  rw [UInt64.ofNat_add, UInt64.ofNat_toNat, UInt64.add_assoc]

theorem toNat_least (a b : UInt64) : (if a > b then b else a).toNat = min a.toNat b.toNat := by
  split
  · next h => exact (Nat.min_eq_right (UInt64.le_of_lt h)).symm
  · next h => exact (Nat.min_eq_left (UInt64.not_lt.mp h)).symm

theorem toNat_mask {capacity : UInt64} (hpos : 0 < capacity.toNat) :
    (capacity - 1).toNat = capacity.toNat - 1 :=
  UInt64.toNat_sub_of_le _ _ (show (1 : UInt64) ≤ capacity from hpos)

theorem mask_le {p capacity : UInt64} (hpos : 0 < capacity.toNat) :
    (p &&& (capacity - 1)) ≤ capacity := by
  rw [UInt64.le_iff_toNat_le, UInt64.toNat_and, toNat_mask hpos]
  exact Nat.le_trans Nat.and_le_right (Nat.sub_le _ _)

end Positions

section Loops

variable {r : Ring} {slot : Nat → Nat} {n : Nat}

theorem stores_eq (data : Nat → Int16) (h : ∀ i < n, slot i < r.slots) :
    (List.range n).foldlM (fun s i => Ring.store s (slot i) (data i)) r =
      .ok { r with buf := Slots.fill slot data n r.buf } := by
  induction n with
  | zero => rfl
  | succ n ih =>
      rw [List.range_succ, List.foldlM_append, ih fun i hi => h i (Nat.lt_succ_of_lt hi),
        Slots.fill_succ]
      have hlast : Ring.store { r with buf := Slots.fill slot data n r.buf } (slot n) (data n) =
          .ok { r with buf := Function.update (Slots.fill slot data n r.buf) (slot n) (data n) } :=
        if_pos (h n (Nat.lt_succ_self n))
      change (Ring.store _ _ _ >>= fun s => pure s) = _
      rw [hlast]
      rfl

theorem stores_inside {l : List Nat} {data : Nat → Int16} {r' : Ring}
    (h : l.foldlM (fun s i => Ring.store s (slot i) (data i)) r = .ok r') :
    ∀ i ∈ l, slot i < r.slots := by
  induction l generalizing r with
  | nil => exact fun i hi => absurd hi List.not_mem_nil
  | cons i l ih =>
      rw [List.foldlM_cons] at h
      by_cases hi : slot i < r.slots
      · have hstore : r.store (slot i) (data i) =
            .ok { r with buf := Function.update r.buf (slot i) (data i) } := if_pos hi
        rw [hstore] at h
        change l.foldlM _ { r with buf := Function.update r.buf (slot i) (data i) } = _ at h
        have hrest := ih h
        exact List.forall_mem_cons.mpr ⟨hi, hrest⟩
      · have hstore : r.store (slot i) (data i) = .error .outside := if_neg hi
        rw [hstore] at h
        cases h

theorem loads_eq (h : ∀ i < n, slot i < r.slots) :
    ((List.range n).mapM fun i => r.load (slot i)) =
      .ok ((List.range n).map fun i => r.buf (slot i)) := by
  induction n with
  | zero => rfl
  | succ n ih =>
      have hlast : r.load (slot n) = .ok (r.buf (slot n)) := if_pos (h n (Nat.lt_succ_self n))
      rw [List.range_succ, List.mapM_append, ih fun i hi => h i (Nat.lt_succ_of_lt hi),
        List.mapM_cons, hlast, List.map_append]
      rfl

end Loops

def Ring.stored (r : Ring) (len : UInt64) : Nat := min len.toNat (r.capacity.toNat - r.fill)

structure Intact (r : Ring) (q : List Int16) : Prop where
  free : r.held = false
  bounded : q.length ≤ r.capacity.toNat
  inside : ∀ i < r.fill, r.slot i < r.slots
  unread : r.unread = q

section Calls

variable {r : Ring} {q : List Int16}

@[simp] theorem unread_length (r : Ring) : r.unread.length = r.fill := by simp [Ring.unread]

theorem Intact.fill_eq (h : Intact r q) : r.fill = q.length := h.unread ▸ (unread_length r).symm

theorem Intact.fill_le (h : Intact r q) : r.fill ≤ r.capacity.toNat := h.fill_eq ▸ h.bounded

theorem Intact.space (h : Intact r q) :
    (r.capacity - (r.head - r.tail)).toNat = r.capacity.toNat - r.fill :=
  UInt64.toNat_sub_of_le _ _ h.fill_le

theorem Intact.room (h : Intact r q) (len : UInt64) :
    r.fill + r.stored len ≤ r.capacity.toNat := by
  have hle : r.stored len ≤ r.capacity.toNat - r.fill := Nat.min_le_right _ _
  have hfill := h.fill_le
  omega

theorem Intact.take (h : Intact r q) (n : Nat) :
    ((List.range (min n r.fill)).map fun i => r.buf (r.slot i)) = q.take n := by
  rw [← h.unread, Ring.unread, ← List.map_take, List.take_range]

theorem smRingReadable_eq (h : Intact r q) :
    smRingReadable r = .ok (r.head - r.tail, r) := by
  have hfree := h.free
  have hle : ¬ r.head - r.tail > r.capacity := Nat.not_lt.mpr h.fill_le
  obtain ⟨buf, slots, capacity, head, tail, spsc, held⟩ := r
  subst hfree
  cases spsc
  · change Except.ok (ite _ _ _, _) = _
    exact congrArg (fun n => Except.ok (n, _)) (if_neg hle)
  · change Except.ok (ite _ _ _, _) = _
    exact congrArg (fun n => Except.ok (n, _)) (if_neg hle)

theorem smRingWritable_eq (h : Intact r q) :
    smRingWritable r = .ok (r.capacity - (r.head - r.tail), r) := by
  rw [smRingWritable, smRingReadable_eq h]
  rfl

theorem smRingWrite_loop (h : Intact r q)
    (hspsc : r.spsc = true) (data : Nat → Int16) (len : UInt64) :
    ∃ n, n.toNat = r.stored len ∧ smRingWrite r data len =
      (List.range (r.stored len)).foldlM
        (fun s i => Ring.store s (r.slot (r.fill + i)) (data i)) r >>=
      fun s => .ok (n, unlockUnlessSpsc { s with head := s.head + n }) := by
  have hn := toNat_least len (r.capacity - (r.head - r.tail))
  rw [h.space, ← Ring.stored] at hn
  refine ⟨_, hn, ?_⟩
  have hlock : lockUnlessSpsc r = .ok r := if_pos hspsc
  rw [smRingWrite, hlock]
  change (smRingReadable r >>= _) = _
  rw [smRingReadable_eq h]
  change (List.foldlM (fun s i => Ring.store s ((r.head + .ofNat i) &&& (r.capacity - 1)).toNat
    (data i)) r (List.range (ite _ _ _ : UInt64).toNat) >>= _) = _
  have hslot : (fun (s : Ring) i => s.store ((r.head + .ofNat i) &&& (r.capacity - 1)).toNat
      (data i)) = fun s i => s.store (r.slot (r.fill + i)) (data i) := by
    funext s i
    rw [Ring.slot, Ring.fill, ← head_add]
  rw [hn, hslot]
  rfl

theorem smRingWrite_eq (h : Intact r q)
    (hspsc : r.spsc = true) (data : Nat → Int16) {len : UInt64}
    (hinside : ∀ i < r.stored len, r.slot (r.fill + i) < r.slots) :
    ∃ n, n.toNat = r.stored len ∧ smRingWrite r data len = .ok (n,
      { r with
        buf := Slots.fill (fun i => r.slot (r.fill + i)) data (r.stored len) r.buf
        head := r.head + n }) := by
  obtain ⟨n, hn, hloop⟩ := smRingWrite_loop h hspsc data len
  refine ⟨n, hn, ?_⟩
  rw [hloop, stores_eq data hinside]
  change Except.ok (_, unlockUnlessSpsc _) = _
  rw [unlockUnlessSpsc, if_pos hspsc]

theorem smRingWrite_inside (h : Intact r q)
    (hspsc : r.spsc = true) {data : Nat → Int16} {len : UInt64} {result : UInt64 × Ring}
    (hwrite : smRingWrite r data len = .ok result) :
    ∀ i < r.stored len, r.slot (r.fill + i) < r.slots := by
  obtain ⟨n, -, hloop⟩ := smRingWrite_loop h hspsc data len
  rw [hloop] at hwrite
  cases hstores : (List.range (r.stored len)).foldlM
      (fun s i => Ring.store s (r.slot (r.fill + i)) (data i)) r with
  | ok s => exact fun i hi => stores_inside hstores i (List.mem_range.mpr hi)
  | error fault =>
      rw [hstores] at hwrite
      cases hwrite

theorem smRingRead_eq (h : Intact r q)
    (hspsc : r.spsc = true) (wanted : Bool) (len : UInt64) :
    ∃ n, n.toNat = min len.toNat r.fill ∧ smRingRead r wanted len = .ok
      ((n, if wanted then q.take len.toNat else []), { r with tail := r.tail + n }) := by
  have hn := toNat_least len (r.head - r.tail)
  rw [← Ring.fill] at hn
  refine ⟨_, hn, ?_⟩
  have hlock : lockUnlessSpsc r = .ok r := if_pos hspsc
  have hunlock (n : UInt64) : unlockUnlessSpsc { r with tail := r.tail + n } =
      { r with tail := r.tail + n } := if_pos hspsc
  have htaken : ∀ i < min len.toNat r.fill, r.slot i < r.slots := fun i hi =>
    h.inside i (Nat.lt_of_lt_of_le hi (Nat.min_le_right _ _))
  rw [smRingRead, hlock]
  change (smRingReadable r >>= _) = _
  rw [smRingReadable_eq h]
  cases wanted
  · change Except.ok (_, unlockUnlessSpsc _) = _
    rw [hunlock]
    rfl
  · change (List.mapM (fun i => r.load (r.slot i)) (List.range (ite _ _ _ : UInt64).toNat) >>=
      fun data => pure ((ite _ _ _, data), unlockUnlessSpsc _)) = _
    rw [hn, loads_eq htaken, hunlock, h.take]
    rfl

theorem smRingDrop_eq (h : Intact r q)
    (len : UInt64) :
    ∃ n, n.toNat = min len.toNat r.fill ∧
      smRingDrop r len = .ok (n, { r with tail := r.tail + n }) := by
  have hn := toNat_least len (r.head - r.tail)
  rw [← Ring.fill] at hn
  refine ⟨_, hn, ?_⟩
  rw [smRingDrop, smRingReadable_eq h]
  rfl

theorem smRingClear_eq (h : Intact r q) :
    smRingClear r = .ok { r with tail := r.head } := by
  have hfree := h.free
  obtain ⟨buf, slots, capacity, head, tail, spsc, held⟩ := r
  subst hfree
  cases spsc <;> rfl

theorem smRingPeek_eq (h : Intact r q) :
    ∃ off avail, off.toNat = r.slot 0 ∧
      avail.toNat = min (r.capacity.toNat - r.slot 0) r.fill ∧
      smRingPeek r = .ok ((off, avail), r) := by
  have hoff : (r.tail &&& (r.capacity - 1)).toNat = r.slot 0 :=
    congrArg (fun p => (p &&& (r.capacity - 1)).toNat) (UInt64.add_zero r.tail).symm
  have havail := toNat_least (r.head - r.tail) (r.capacity - (r.tail &&& (r.capacity - 1)))
  have hmin : min (r.head - r.tail).toNat (r.capacity - (r.tail &&& (r.capacity - 1))).toNat =
      min (r.capacity.toNat - r.slot 0) r.fill := by
    rw [← Ring.fill, Nat.min_comm]
    rcases Nat.eq_zero_or_pos r.capacity.toNat with hzero | hpos
    · have hempty : r.fill = 0 := Nat.le_zero.mp (hzero ▸ h.fill_le)
      rw [hempty, Nat.min_zero, Nat.min_zero]
    · rw [UInt64.toNat_sub_of_le _ _ (mask_le hpos), hoff]
  refine ⟨_, _, hoff, havail.trans hmin, ?_⟩
  rw [smRingPeek, smRingReadable_eq h]
  rfl

end Calls

-- A write needs a slot in memory for each sample unread or to be stored, no two of them the same;
-- a peek needs the samples that it spans to lie one behind the other.
def Safe (r : Ring) : RingOp → Prop
  | .write _ len => r.spsc = true ∧ Slots.Distinct r.slot (r.fill + r.stored len) ∧
      ∀ i < r.fill + r.stored len, r.slot i < r.slots
  | .read _ _ => r.spsc = true
  | .peek => ∀ i < min (r.capacity.toNat - r.slot 0) r.fill, r.slot i = r.slot 0 + i
  | _ => True

def SafeRun : Ring → List RingOp → Prop
  | _, [] => True
  | r, op :: ops => Safe r op ∧ ∀ result r', ringStep r op = .ok (result, r') → SafeRun r' ops

def SameArray (r r' : Ring) : Prop :=
  r'.capacity = r.capacity ∧ r'.slots = r.slots ∧ r'.spsc = r.spsc

section Steps

variable {r : Ring} {q : List Int16}

theorem Intact.represents (h : Intact r q) : Represents r q := by
  refine ⟨h.bounded, h.unread, _, _, smRingReadable_eq h,
    smRingWritable_eq h, h.fill_eq, ?_⟩
  rw [h.space]
  exact Nat.add_sub_of_le h.fill_le

theorem Intact.drop (h : Intact r q) {n : UInt64} {m : Nat} (hn : n.toNat = min m r.fill) :
    Intact { r with tail := r.tail + n } (q.drop m) := by
  have hle : n ≤ r.head - r.tail := by
    rw [UInt64.le_iff_toNat_le, hn]
    exact Nat.min_le_right _ _
  have hfill : Ring.fill { r with tail := r.tail + n } = r.fill - n.toNat := fill_read hle
  have hslot (i : Nat) : Ring.slot { r with tail := r.tail + n } i = r.slot (n.toNat + i) :=
    congrArg (fun p => (p &&& (r.capacity - 1)).toNat) (tail_add r.tail n i)
  refine ⟨h.free, ?_, fun i hi => ?_, ?_⟩
  · exact Nat.le_trans (List.length_drop ▸ Nat.sub_le _ _) h.bounded
  · rw [hfill] at hi
    rw [hslot]
    exact h.inside _ (by omega)
  · have hq : q.drop m = q.drop n.toNat := by
      rw [hn, h.fill_eq]
      rcases Nat.le_total m q.length with hm | hm
      · rw [Nat.min_eq_left hm]
      · rw [Nat.min_eq_right hm, List.drop_length, List.drop_eq_nil_of_le hm]
    have hsplit : r.fill = n.toNat + (r.fill - n.toNat) := by omega
    rw [hq, ← h.unread, Ring.unread, hfill, Ring.unread, hsplit, List.range_add, List.map_append,
      List.drop_left' (by simp), List.map_map, Nat.add_sub_cancel_left]
    exact List.map_congr_left fun i _ => congrArg r.buf (hslot i)

theorem Intact.write (h : Intact r q) {data : Nat → Int16} {len n : UInt64}
    (hn : n.toNat = r.stored len) (hdistinct : Slots.Distinct r.slot (r.fill + r.stored len))
    (hinside : ∀ i < r.fill + r.stored len, r.slot i < r.slots) :
    Intact
      { r with
        buf := Slots.fill (fun i => r.slot (r.fill + i)) data (r.stored len) r.buf
        head := r.head + n }
      (q ++ (List.range (r.stored len)).map data) := by
  have hroom := h.room len
  have hfill (buf : Nat → Int16) :
      Ring.fill { r with buf := buf, head := r.head + n } = r.fill + r.stored len :=
    hn ▸ fill_write (Nat.lt_of_le_of_lt (hn ▸ hroom) (UInt64.toNat_lt r.capacity))
  refine ⟨h.free, ?_, fun i hi => hinside i (hfill _ ▸ hi), ?_⟩
  · rw [List.length_append, ← h.fill_eq, List.length_map, List.length_range]
    exact hroom
  · rw [Ring.unread, hfill, ← h.unread]
    exact Slots.map_fill hdistinct data r.buf

theorem Intact.peek (h : Intact r q) (hsafe : Safe r .peek) {off avail : UInt64}
    (hoff : off.toNat = r.slot 0)
    (havail : avail.toNat = min (r.capacity.toNat - r.slot 0) r.fill) :
    ((List.range avail.toNat).mapM fun i => r.load (off.toNat + i)) =
      .ok (q.take (r.capacity.toNat - r.slot 0)) := by
  have hslot : ∀ i < avail.toNat, off.toNat + i = r.slot i := fun i hi =>
    hoff ▸ (hsafe i (havail ▸ hi)).symm
  have hinside : ∀ i < avail.toNat, off.toNat + i < r.slots := fun i hi =>
    hslot i hi ▸ h.inside i (Nat.lt_of_lt_of_le (havail ▸ hi) (Nat.min_le_right _ _))
  rw [loads_eq hinside, ← h.take, ← havail]
  refine congrArg Except.ok (List.map_congr_left fun i hi => ?_)
  rw [hslot i (List.mem_range.mp hi)]

theorem Intact.step (h : Intact r q) {op : RingOp} (hsafe : Safe r op) :
    ∃ result r', ringStep r op = .ok (result, r') ∧ Answers r.capacity.toNat q op result ∧
      Intact r' (queueStep r.capacity.toNat q op) ∧ SameArray r r' := by
  cases op with
  | write data len =>
      obtain ⟨hspsc, hdistinct, hinside⟩ := hsafe
      obtain ⟨n, hn, hwrite⟩ := smRingWrite_eq h hspsc data fun i hi =>
        hinside (r.fill + i) (Nat.add_lt_add_left hi r.fill)
      have hstored : r.stored len = min len.toNat (r.capacity.toNat - q.length) :=
        h.fill_eq ▸ rfl
      have hnext : queueStep r.capacity.toNat q (.write data len) =
          q ++ (List.range (r.stored len)).map data := by rw [queueStep, hstored]
      rw [hnext]
      refine ⟨.count n, _, ?_, hn.trans hstored, h.write hn hdistinct hinside,
        rfl, rfl, rfl⟩
      rw [ringStep, hwrite]
      rfl
  | read wanted len =>
      obtain ⟨n, hn, hread⟩ := smRingRead_eq h hsafe wanted len
      refine ⟨.samples n _, _, ?_, ⟨h.fill_eq ▸ hn, rfl⟩, h.drop hn, rfl, rfl, rfl⟩
      rw [ringStep, hread]
      rfl
  | drop len =>
      obtain ⟨n, hn, hdrop⟩ := smRingDrop_eq h len
      have hanswers : n.toNat = min len.toNat q.length := h.fill_eq ▸ hn
      refine ⟨.count n, _, ?_, hanswers, h.drop hn, rfl, rfl, rfl⟩
      rw [ringStep, hdrop]
      rfl
  | clear =>
      refine ⟨.nothing, { r with tail := r.head }, ?_, trivial, ?_, rfl, rfl, rfl⟩
      · rw [ringStep, smRingClear_eq h]
        rfl
      · have hfill : Ring.fill { r with tail := r.head } = 0 :=
          congrArg UInt64.toNat (UInt64.sub_self r.head)
        refine ⟨h.free, Nat.zero_le _, fun i hi => absurd (hfill ▸ hi) (Nat.not_lt_zero i), ?_⟩
        rw [Ring.unread, hfill]
        rfl
  | peek =>
      obtain ⟨off, avail, hoff, havail, hpeek⟩ := smRingPeek_eq h
      refine ⟨.span (q.take (r.capacity.toNat - r.slot 0)), r, ?_,
        List.take_prefix _ _, h, rfl, rfl, rfl⟩
      rw [ringStep, hpeek]
      change ((List.range avail.toNat).mapM (fun i => r.load (off.toNat + i)) >>=
        fun data => pure (RingResult.span data, r)) = _
      rw [h.peek hsafe hoff havail]
      rfl

theorem Intact.isFifo (h : Intact r q) {ops : List RingOp} (hsafe : SafeRun r ops) :
    IsFifo r q ops := by
  induction ops generalizing r q with
  | nil => exact h.represents
  | cons op ops ih =>
      obtain ⟨result, r', hstep, hanswers, hnext, -⟩ := h.step hsafe.1
      exact ⟨h.represents, result, r', hstep, hanswers, ih hnext (hsafe.2 result r' hstep)⟩

theorem intact_init (memory : Option (Nat → Int16)) (capacity : UInt64) (spsc : Bool) :
    Intact (smRingInit memory capacity spsc) [] := by
  have hfill : Ring.fill (smRingInit memory capacity spsc) = 0 := by
    change ((0 : UInt64) - 0).toNat = 0
    decide
  refine ⟨rfl, Nat.zero_le _, fun i hi => absurd (hfill ▸ hi) (Nat.not_lt_zero i), ?_⟩
  rw [Ring.unread, hfill]
  rfl

end Steps

end Softmodem.Audio

import Softmodem.Audio.Queue

namespace Softmodem.Audio

section PowerOfTwo

variable {r : Ring} {q : List Int16} {k : Nat}

theorem slot_eq_mod (hcapacity : r.capacity.toNat = 2 ^ k) (i : Nat) :
    r.slot i = (r.tail.toNat + i) % 2 ^ k := by
  have hk : k < 64 := (Nat.pow_lt_pow_iff_right (by decide : 1 < 2)).mp
    (hcapacity ▸ r.capacity.toNat_lt)
  have hmask : (r.capacity - 1).toNat = 2 ^ k - 1 :=
    hcapacity ▸ toNat_mask (hcapacity ▸ Nat.two_pow_pos k)
  have hdvd : 2 ^ k ∣ 2 ^ 64 := Nat.pow_dvd_pow 2 hk.le
  rw [Ring.slot, UInt64.toNat_and, hmask, Nat.and_two_pow_sub_one_eq_mod, UInt64.toNat_add,
    Nat.mod_mod_of_dvd _ hdvd, UInt64.toNat_ofNat', Nat.add_mod, Nat.mod_mod_of_dvd _ hdvd,
    ← Nat.add_mod]

-- A ring whose mask is a modulus, or which has no room at all.
structure Masked (r : Ring) : Prop where
  spsc : r.spsc = true
  modulus : r.capacity.toNat = 0 ∨ ∃ k, r.capacity.toNat = 2 ^ k ∧ r.slots = 2 ^ k

theorem Masked.safe (h : Masked r) (hintact : Intact r q) (op : RingOp) : Safe r op := by
  cases op with
  | read wanted len => exact h.spsc
  | drop len => trivial
  | clear => trivial
  | write data len =>
      refine ⟨h.spsc, ?_⟩
      rcases h.modulus with hzero | ⟨k, hcapacity, hslots⟩
      · have hempty : r.fill + r.stored len = 0 := Nat.le_zero.mp (hzero ▸ hintact.room len)
        rw [hempty]
        exact ⟨fun i hi => absurd hi (Nat.not_lt_zero i), fun i hi => absurd hi (Nat.not_lt_zero i)⟩
      · have hslot : r.slot = fun i => (r.tail.toNat + i) % 2 ^ k := funext (slot_eq_mod hcapacity)
        have hle : r.fill + r.stored len ≤ 2 ^ k := hcapacity ▸ hintact.room len
        rw [hslot, hslots]
        exact ⟨fun i hi => Slots.distinct_mod _ _ i (Nat.lt_of_lt_of_le hi hle),
          fun i _ => Nat.mod_lt _ (Nat.two_pow_pos k)⟩
  | peek =>
      intro i hi
      have hfill : i < r.fill := Nat.lt_of_lt_of_le hi (Nat.min_le_right _ _)
      have hend : i < r.capacity.toNat - r.slot 0 := Nat.lt_of_lt_of_le hi (Nat.min_le_left _ _)
      rcases h.modulus with hzero | ⟨k, hcapacity, -⟩
      · have hempty : r.fill = 0 := Nat.le_zero.mp (hzero ▸ hintact.fill_le)
        exact absurd (hempty ▸ hfill) (Nat.not_lt_zero i)
      · have hfirst : r.slot 0 = r.tail.toNat % 2 ^ k := slot_eq_mod hcapacity 0
        rw [hcapacity, hfirst] at hend
        rw [slot_eq_mod hcapacity, hfirst, ← Nat.mod_add_mod, Nat.mod_eq_of_lt (by omega)]

theorem Masked.safeRun (h : Masked r) (hintact : Intact r q) (ops : List RingOp) :
    SafeRun r ops := by
  induction ops generalizing r q with
  | nil => trivial
  | cons op ops ih =>
      have hsafe := h.safe hintact op
      refine ⟨hsafe, fun result r' hstep => ?_⟩
      obtain ⟨result₁, r₁, hstep₁, -, hnext, hcapacity, hslots, hspsc⟩ := hintact.step hsafe
      obtain ⟨-, rfl⟩ := Prod.mk.inj (Except.ok.inj (hstep.symm.trans hstep₁))
      refine ih ⟨hspsc ▸ h.spsc, ?_⟩ hnext
      rw [hcapacity, hslots]
      exact h.modulus

end PowerOfTwo

section Necessary

variable {r : Ring} {len : UInt64}

-- The call locks the mutex again to learn how much there is to write or to read.
theorem locked_calls (hspsc : r.spsc = false) :
    (∀ data len, ringStep r (.write data len) = .error .relock) ∧
      ∀ wanted len, ringStep r (.read wanted len) = .error .relock := by
  obtain ⟨buf, slots, capacity, head, tail, spsc, held⟩ := r
  subst hspsc
  cases held
  · exact ⟨fun data len => rfl, fun wanted len => rfl⟩
  · exact ⟨fun data len => rfl, fun wanted len => rfl⟩

theorem write_inside (h : Intact r []) (hspsc : r.spsc = true) {data : Nat → Int16}
    (hfifo : IsFifo r [] [.write data len]) :
    ∀ i < r.stored len, r.slot (r.fill + i) < r.slots := by
  obtain ⟨-, result, r', hstep, -⟩ := hfifo
  cases hwrite : smRingWrite r data len with
  | ok written => exact smRingWrite_inside h hspsc hwrite
  | error fault =>
      rw [ringStep, hwrite] at hstep
      cases hstep

theorem write_reads_back (h : Intact r []) (hspsc : r.spsc = true) {data : Nat → Int16}
    (hfifo : IsFifo r [] [.write data len]) :
    ∃ buf : Nat → Int16, ∀ i < r.stored len, buf (r.slot i) = data i := by
  obtain ⟨n, hn, hwrite⟩ :=
    smRingWrite_eq h hspsc data (write_inside h hspsc hfifo)
  obtain ⟨-, result, r', hstep, -, hnext⟩ := hfifo
  rw [ringStep, hwrite] at hstep
  obtain ⟨-, rfl⟩ := Prod.mk.inj (Except.ok.inj hstep)
  have hstored : r.stored len = min len.toNat (r.capacity.toNat - ([] : List Int16).length) :=
    h.fill_eq ▸ rfl
  have hunread := hnext.unread
  rw [queueStep, List.nil_append, ← hstored] at hunread
  have hfill := congrArg List.length hunread
  rw [unread_length, List.length_map, List.length_range] at hfill
  rw [Ring.unread, hfill] at hunread
  exact ⟨_, fun i hi => List.map_inj_left.mp hunread i (List.mem_range.mpr hi)⟩

-- No write into an empty ring does without what the condition asks of it.
theorem safe_of_isFifo (h : Intact r []) (hspsc : r.spsc = true)
    (hfifo : ∀ data, IsFifo r [] [.write data len]) (data : Nat → Int16) :
    Safe r (.write data len) := by
  have hempty : r.fill = 0 := h.fill_eq
  have hinside := write_inside h hspsc (hfifo data)
  rw [Safe, hempty, Nat.zero_add]
  rw [hempty] at hinside
  refine ⟨hspsc, fun i hi j hj heq => ?_, fun i hi => Nat.zero_add i ▸ hinside i hi⟩
  obtain ⟨buf, hbuf⟩ := write_reads_back h hspsc (hfifo fun m => if m = i then 1 else 0)
  have hat : buf (r.slot i) = 1 := (hbuf i hi).trans (if_pos rfl)
  have hbefore : buf (r.slot j) = 0 := (hbuf j (hj.trans hi)).trans (if_neg hj.ne)
  rw [heq, hat] at hbefore
  exact absurd hbefore (by decide)

end Necessary

section Fresh

variable {memory : Option (Nat → Int16)} {capacity : UInt64} {spsc : Bool}

theorem fresh_slot {i : Nat} (hpos : 0 < capacity.toNat) (hi : i < capacity.toNat) :
    (smRingInit memory capacity spsc).slot i = i &&& (capacity.toNat - 1) := by
  change ((0 + UInt64.ofNat i) &&& (capacity - 1)).toNat = _
  rw [UInt64.zero_add, UInt64.toNat_and, toNat_mask hpos, UInt64.toNat_ofNat',
    Nat.mod_eq_of_lt (hi.trans capacity.toNat_lt)]

theorem fresh_slots {k : Nat} (hk : k < 63) (hcapacity : capacity.toNat = 2 ^ k)
    (hmemory : memory.isSome = true) : (smRingInit memory capacity spsc).slots = 2 ^ k := by
  have hlt : 2 ^ k * 2 < 2 ^ 64 :=
    Nat.pow_succ 2 k ▸ Nat.pow_lt_pow_right (by decide) (by omega)
  rw [smRingInit, if_pos hmemory, UInt64.toNat_mul, hcapacity]
  change 2 ^ k * 2 % 2 ^ 64 / 2 = 2 ^ k
  rw [Nat.mod_eq_of_lt hlt, Nat.mul_div_cancel _ (by decide)]

-- At half of the address space the product wraps to zero bytes.
theorem fresh_slots_pos (h : 0 < (smRingInit memory capacity spsc).slots) :
    memory.isSome = true ∧ capacity.toNat ≠ 2 ^ 63 := by
  cases memory with
  | none => exact absurd h (Nat.lt_irrefl 0)
  | some contents =>
      refine ⟨rfl, fun hwrap => ?_⟩
      change 0 < (capacity * 2).toNat / 2 at h
      rw [UInt64.toNat_mul, hwrap] at h
      exact absurd h (by decide)

theorem usable_of_safe (hpos : 0 < capacity.toNat) (hsafe : ∀ data,
    Safe (smRingInit memory capacity spsc) (.write data capacity)) :
    memory.isSome = true ∧ ∃ k < 63, capacity.toNat = 2 ^ k := by
  obtain ⟨-, hdistinct, hinside⟩ := hsafe fun _ => 0
  have hfill : (smRingInit memory capacity spsc).fill = 0 :=
    (intact_init memory capacity spsc).fill_eq
  have hstored : (smRingInit memory capacity spsc).stored capacity = capacity.toNat := by
    rw [Ring.stored, hfill, Nat.sub_zero]
    exact Nat.min_self _
  rw [hfill, hstored, Nat.zero_add] at hdistinct hinside
  have hsome : 0 < (smRingInit memory capacity spsc).slots :=
    Nat.lt_of_le_of_lt (Nat.zero_le _) (hinside 0 hpos)
  obtain ⟨k, hk⟩ := Slots.two_pow_of_distinct_mask hpos fun i hi j hj heq =>
    hdistinct i hi j hj (by rwa [fresh_slot hpos hi, fresh_slot hpos (hj.trans hi)])
  obtain ⟨hmemory, hwrap⟩ := fresh_slots_pos hsome
  have hbound : k < 64 := (Nat.pow_lt_pow_iff_right (by decide : 1 < 2)).mp
    (hk ▸ capacity.toNat_lt)
  have hne : k ≠ 63 := by
    rintro rfl
    exact hwrap hk
  exact ⟨hmemory, k, by omega, hk⟩

theorem masked_init (hmemory : capacity = 0 ∨
    memory.isSome = true ∧ ∃ k < 63, capacity.toNat = 2 ^ k) :
    Masked (smRingInit memory capacity true) := by
  refine ⟨rfl, ?_⟩
  rcases hmemory with rfl | ⟨hsome, k, hk, hcapacity⟩
  · exact .inl rfl
  · exact .inr ⟨k, hcapacity, fresh_slots hk hcapacity hsome⟩

end Fresh

theorem ring_is_fifo_iff (memory : Option (Nat → Int16)) (capacity : UInt64) (spsc : Bool) :
    (∀ ops, SafeRun (smRingInit memory capacity spsc) ops →
      IsFifo (smRingInit memory capacity spsc) [] ops) ∧
    ((∀ ops, IsFifo (smRingInit memory capacity spsc) [] ops) ↔
      spsc = true ∧ (capacity = 0 ∨
        memory.isSome = true ∧ ∃ k < 63, capacity.toNat = 2 ^ k)) := by
  have hintact := intact_init memory capacity spsc
  refine ⟨fun ops hsafe => hintact.isFifo hsafe, fun hfifo => ?_, ?_⟩
  · cases spsc with
    | false =>
        obtain ⟨-, result, r', hstep, -⟩ := hfifo [.write (fun _ => 0) 0]
        rw [(locked_calls rfl).1] at hstep
        cases hstep
    | true =>
        refine ⟨rfl, ?_⟩
        rcases Nat.eq_zero_or_pos capacity.toNat with hzero | hpos
        · exact .inl (UInt64.toNat_inj.mp hzero)
        · exact .inr (usable_of_safe hpos (safe_of_isFifo hintact rfl fun _ => hfifo _))
  · rintro ⟨rfl, hcapacity⟩ ops
    exact hintact.isFifo ((masked_init hcapacity).safeRun hintact ops)

-- Three samples of a ring of three come back as the second twice and the third; and a ring with a
-- mutex takes none.
theorem ring_of_three_is_no_fifo :
    ¬ IsFifo (smRingInit (some fun _ => 0) 3 true) []
      [.write (fun i => .ofNat (i + 1)) 3, .read true 3] ∧
    ¬ IsFifo (smRingInit (some fun _ => 0) 4 false) [] [.write (fun _ => 7) 1] := by
  refine ⟨?_, ?_⟩
  · rintro ⟨-, result, r', hwrite, -, -, result', r'', hread, hanswers, -⟩
    obtain ⟨-, rfl⟩ := Prod.mk.inj (Except.ok.inj hwrite)
    obtain ⟨rfl, -⟩ := Prod.mk.inj (Except.ok.inj hread)
    exact absurd hanswers.2 (by decide)
  · rintro ⟨-, result, r', hwrite, -⟩
    rw [(locked_calls rfl).1] at hwrite
    cases hwrite

end Softmodem.Audio

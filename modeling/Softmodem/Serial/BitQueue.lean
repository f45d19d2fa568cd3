import Softmodem.Lib.Circular

namespace Softmodem.Serial

abbrev smBitqSize : Nat := 65536

structure SmBitq where
  bits : Fin smBitqSize → Bool
  head : UInt32
  tail : UInt32

def smBitqInit : SmBitq := { bits := fun _ => false, head := 0, tail := 0 }

def smBitqIndex (counter : UInt32) : Fin smBitqSize :=
  Circular.slot smBitqSize (counter &&& 65535).toNat

def smBitqCount (q : SmBitq) : Nat := (q.head - q.tail).toNat

def smBitqPush (q : SmBitq) (bit : Bool) : SmBitq × Int :=
  if q.head - q.tail ≥ 65536 then (q, -1)
  else
    ({ q with bits := Function.update q.bits (smBitqIndex q.head) bit, head := q.head + 1 }, 0)

def smBitqPushByte (q : SmBitq) (byte : UInt8) : SmBitq × Int :=
  if q.head - q.tail + 10 > 65536 then (q, -1)
  else
    let started := (smBitqPush q false).1
    let filled := (List.range 8).foldl
      (fun q i => (smBitqPush q (byte.toNat.testBit i)).1) started
    ((smBitqPush filled true).1, 0)

def smBitqPop (q : SmBitq) : SmBitq × Int :=
  if q.head = q.tail then (q, -1)
  else ({ q with tail := q.tail + 1 }, (q.bits (smBitqIndex q.tail)).toNat)

namespace SmBitq

def contents (q : SmBitq) : List Bool :=
  Circular.window q.bits q.tail.toNat (smBitqCount q)

def WellFormed (q : SmBitq) : Prop := smBitqCount q ≤ smBitqSize

@[simp] theorem contents_length (q : SmBitq) : q.contents.length = smBitqCount q := by
  simp [contents]

end SmBitq

theorem smBitqInit_wellFormed : smBitqInit.WellFormed := Nat.zero_le _

@[simp] theorem smBitqInit_contents : smBitqInit.contents = [] := rfl

theorem smBitqIndex_eq (counter : UInt32) :
    smBitqIndex counter = Circular.slot smBitqSize counter.toNat := by
  rw [smBitqIndex, Circular.slot_eq_iff, UInt32.toNat_and]
  have h : counter.toNat &&& 65535 = counter.toNat % 2 ^ 16 :=
    Nat.and_two_pow_sub_one_eq_mod counter.toNat 16
  simp [h]

theorem head_mod (q : SmBitq) :
    q.head.toNat % smBitqSize = (q.tail.toNat + smBitqCount q) % smBitqSize := by
  have hsub : smBitqCount q = (2 ^ 32 - q.tail.toNat + q.head.toNat) % 2 ^ 32 := by
    simp [smBitqCount, UInt32.toNat_sub]
  have htail : q.tail.toNat < 2 ^ 32 := q.tail.toNat_lt
  unfold smBitqSize
  omega

theorem count_add_one {head tail : UInt32} (h : (head - tail).toNat < smBitqSize) :
    (head + 1 - tail).toNat = (head - tail).toNat + 1 := by
  unfold smBitqSize at h
  simp only [UInt32.toNat_sub, UInt32.toNat_add, UInt32.toNat_one] at *
  have := head.toNat_lt
  have := tail.toNat_lt
  omega

theorem count_sub_one {head tail : UInt32} (h : head ≠ tail) :
    (head - tail).toNat = (head - (tail + 1)).toNat + 1 := by
  have hne : head.toNat ≠ tail.toNat := fun he => h (UInt32.toNat_inj.mp he)
  simp only [UInt32.toNat_sub, UInt32.toNat_add, UInt32.toNat_one]
  have := head.toNat_lt
  have := tail.toNat_lt
  omega

theorem smBitqPush_contents {q : SmBitq} (bit : Bool) (h : smBitqCount q < smBitqSize) :
    (smBitqPush q bit).1.contents = q.contents ++ [bit] ∧ (smBitqPush q bit).2 = 0 := by
  have hroom : ¬ q.head - q.tail ≥ 65536 := by
    rw [ge_iff_le, UInt32.le_iff_toNat_le]
    exact not_le.mpr h
  have hslot : smBitqIndex q.head =
      Circular.slot smBitqSize (q.tail.toNat + smBitqCount q) := by
    rw [smBitqIndex_eq, Circular.slot_eq_iff]
    exact head_mod q
  have hcount : smBitqCount (smBitqPush q bit).1 = smBitqCount q + 1 := by
    simp only [smBitqPush, if_neg hroom, smBitqCount]
    exact count_add_one h
  refine ⟨?_, by simp [smBitqPush, hroom]⟩
  rw [SmBitq.contents, hcount]
  simp only [smBitqPush, if_neg hroom, hslot]
  exact Circular.window_push q.bits q.tail.toNat h bit

theorem smBitqPush_count {q : SmBitq} (bit : Bool) (h : smBitqCount q < smBitqSize) :
    smBitqCount (smBitqPush q bit).1 = smBitqCount q + 1 := by
  have := congrArg List.length (smBitqPush_contents bit h).1
  simpa using this

theorem smBitqPush_bits (bits : List Nat) (byte : UInt8) {q : SmBitq}
    (h : smBitqCount q + bits.length ≤ smBitqSize) :
    (bits.foldl (fun q i => (smBitqPush q (byte.toNat.testBit i)).1) q).contents =
      q.contents ++ bits.map byte.toNat.testBit := by
  induction bits generalizing q with
  | nil => simp
  | cons i bits ih =>
      rw [List.length_cons] at h
      have hroom : smBitqCount q < smBitqSize := by omega
      have hnext := smBitqPush_count (byte.toNat.testBit i) hroom
      rw [List.foldl_cons, ih (by omega), (smBitqPush_contents _ hroom).1]
      simp

def frame (byte : UInt8) : List Bool :=
  false :: ((List.range 8).map byte.toNat.testBit ++ [true])

@[simp] theorem frame_length (byte : UInt8) : (frame byte).length = 10 := by simp [frame]

theorem pushByte_fits_iff {q : SmBitq} (h : q.WellFormed) :
    ¬ q.head - q.tail + 10 > 65536 ↔ smBitqCount q + 10 ≤ smBitqSize := by
  have hle : (q.head - q.tail).toNat ≤ 65536 := h
  have hadd : (q.head - q.tail + 10).toNat = (q.head - q.tail).toNat + 10 := by
    rw [UInt32.toNat_add]
    exact Nat.mod_eq_of_lt (by simp; omega)
  rw [gt_iff_lt, UInt32.lt_iff_toNat_lt, hadd, not_lt]
  rfl

theorem smBitqPushByte_contents {q : SmBitq} (byte : UInt8) (hq : q.WellFormed)
    (h : smBitqCount q + 10 ≤ smBitqSize) :
    (smBitqPushByte q byte).1.contents = q.contents ++ frame byte ∧
      (smBitqPushByte q byte).2 = 0 := by
  have hfits := (pushByte_fits_iff hq).mpr h
  simp only [smBitqPushByte, if_neg hfits, and_true]
  have hstart := smBitqPush_contents (q := q) false (by omega)
  have hstartCount := smBitqPush_count (q := q) false (by omega)
  have hfill := smBitqPush_bits (List.range 8) byte (q := (smBitqPush q false).1)
    (by simp only [List.length_range]; omega)
  have hfillCount := congrArg List.length hfill
  simp only [SmBitq.contents_length, List.length_append, List.length_map,
    List.length_range, hstartCount] at hfillCount
  rw [(smBitqPush_contents true (by omega)).1, hfill, hstart.1]
  simp [frame]

theorem smBitqPushByte_full {q : SmBitq} (byte : UInt8) (hq : q.WellFormed)
    (h : ¬ smBitqCount q + 10 ≤ smBitqSize) : smBitqPushByte q byte = (q, -1) := by
  have hfull : q.head - q.tail + 10 > 65536 := by
    by_contra hfits
    exact h ((pushByte_fits_iff hq).mp hfits)
  rw [smBitqPushByte, if_pos hfull]

theorem smBitqPushByte_rejected {q : SmBitq} (byte : UInt8)
    (h : (smBitqPushByte q byte).2 = -1) : (smBitqPushByte q byte).1 = q := by
  unfold smBitqPushByte at h ⊢
  split
  · rfl
  · rename_i hfits
    simp [hfits] at h

theorem smBitqPushByte_wellFormed {q : SmBitq} (byte : UInt8) (hq : q.WellFormed) :
    (smBitqPushByte q byte).1.WellFormed := by
  by_cases h : smBitqCount q + 10 ≤ smBitqSize
  · have hlen := congrArg List.length (smBitqPushByte_contents byte hq h).1
    simp only [SmBitq.contents_length, List.length_append, frame_length] at hlen
    exact hlen.trans_le h
  · rw [smBitqPushByte_full byte hq h]
    exact hq

theorem smBitqPop_empty {q : SmBitq} (h : q.contents = []) : smBitqPop q = (q, -1) := by
  have hzero : (q.head - q.tail).toNat = 0 := by
    have := congrArg List.length h
    simpa [smBitqCount] using this
  have heq : q.head = q.tail := by
    by_contra hne
    have := count_sub_one hne
    omega
  rw [smBitqPop, if_pos heq]

theorem smBitqPop_contents {q : SmBitq} {bit : Bool} {rest : List Bool}
    (h : q.contents = bit :: rest) :
    (smBitqPop q).1.contents = rest ∧ (smBitqPop q).2 = bit.toNat ∧
      smBitqCount q = smBitqCount (smBitqPop q).1 + 1 := by
  have hne : q.head ≠ q.tail := by
    intro he
    have := congrArg List.length h
    simp [smBitqCount, he] at this
  have hcount : smBitqCount q = smBitqCount { q with tail := q.tail + 1 } + 1 :=
    count_sub_one hne
  rw [SmBitq.contents, hcount, Circular.window_succ, List.cons.injEq] at h
  have htail : (q.tail.toNat + 1) % smBitqSize = (q.tail + 1).toNat % smBitqSize := by
    rw [UInt32.toNat_add, UInt32.toNat_one]
    unfold smBitqSize
    omega
  simp only [smBitqPop, if_neg hne]
  refine ⟨?_, by rw [smBitqIndex_eq, h.1], hcount⟩
  rw [SmBitq.contents, ← h.2]
  exact (Circular.window_congr htail _).symm

theorem smBitqPop_wellFormed {q : SmBitq} (hq : q.WellFormed) : (smBitqPop q).1.WellFormed := by
  cases hc : q.contents with
  | nil => rw [smBitqPop_empty hc]; exact hq
  | cons bit rest =>
      have hcount := (smBitqPop_contents hc).2.2
      have : smBitqCount q ≤ smBitqSize := hq
      exact (by omega : smBitqCount (smBitqPop q).1 ≤ smBitqSize)

end Softmodem.Serial

import Mathlib.Data.List.Nodup
import Mathlib.Data.List.Range
import Mathlib.Data.Nat.Bitwise
import Mathlib.Data.Nat.ModEq
import Mathlib.Data.Nat.Size
import Mathlib.Logic.Function.Basic

-- A loop that stores one value after another, each in a slot that its position gives.
namespace Slots

variable {S α : Type*} [DecidableEq S]

def fill (slot : Nat → S) (value : Nat → α) (n : Nat) (buf : S → α) : S → α :=
  (List.range n).foldl (fun buf i => Function.update buf (slot i) (value i)) buf

def Distinct (slot : Nat → S) (n : Nat) : Prop := ∀ i < n, ∀ j < i, slot j ≠ slot i

section Fill

variable {slot : Nat → S} {value : Nat → α} {buf : S → α} {n : Nat}

theorem fill_succ : fill slot value (n + 1) buf =
    Function.update (fill slot value n buf) (slot n) (value n) := by
  rw [fill, List.range_succ, List.foldl_append]
  rfl

theorem fill_other {s : S} (h : ∀ i < n, slot i ≠ s) : fill slot value n buf s = buf s := by
  induction n with
  | zero => rfl
  | succ n ih =>
      rw [fill_succ, Function.update_of_ne (h n (Nat.lt_succ_self n)).symm]
      exact ih fun i hi => h i (Nat.lt_succ_of_lt hi)

theorem fill_at (h : Distinct slot n) {i : Nat} (hi : i < n) :
    fill slot value n buf (slot i) = value i := by
  induction n with
  | zero => exact absurd hi (Nat.not_lt_zero i)
  | succ n ih =>
      rw [fill_succ]
      rcases Nat.lt_succ_iff_lt_or_eq.mp hi with hlt | rfl
      · rw [Function.update_of_ne (h n (Nat.lt_succ_self n) i hlt)]
        exact ih (fun j hj => h j (Nat.lt_succ_of_lt hj)) hlt
      · rw [Function.update_self]

end Fill

-- The first slots keep what they hold, and the next ones hold what has been stored.
theorem map_fill {slot : Nat → S} {n m : Nat} (h : Distinct slot (n + m)) (value : Nat → α)
    (buf : S → α) :
    (List.range (n + m)).map (fun k => fill (fun i => slot (n + i)) value m buf (slot k)) =
      (List.range n).map (fun k => buf (slot k)) ++ (List.range m).map value := by
  rw [List.range_add, List.map_append, List.map_map]
  congr 1
  · apply List.map_congr_left
    intro k hk
    have hk' : k < n := List.mem_range.mp hk
    exact fill_other fun i hi => (h (n + i) (Nat.add_lt_add_left hi n) k (by omega)).symm
  · apply List.map_congr_left
    intro i hi
    have hi' : i < m := List.mem_range.mp hi
    have hnext : Distinct (fun i => slot (n + i)) m := fun i hi j hj =>
      h (n + i) (Nat.add_lt_add_left hi n) (n + j) (Nat.add_lt_add_left hj n)
    exact fill_at hnext hi'

section Mask

theorem distinct_mod (base n : Nat) : Distinct (fun i => (base + i) % n) n := by
  intro i hi j hj heq
  have hmod : j ≡ i [MOD n] := Nat.ModEq.add_left_cancel' base heq
  exact hj.ne (hmod.eq_of_lt_of_lt (hj.trans hi) hi)

theorem all_ones {m : Nat} (h : ∀ k, 2 ^ k ≤ m → m.testBit k = true) : m = 2 ^ m.size - 1 := by
  apply Nat.eq_of_testBit_eq
  intro i
  rw [Nat.testBit_two_pow_sub_one]
  rcases Nat.lt_or_ge i m.size with hi | hi
  · rw [h i (Nat.lt_size.mp hi), decide_eq_true hi]
  · rw [Nat.testBit_lt_two_pow (Nat.size_le.mp hi), decide_eq_false (Nat.not_lt.mpr hi)]

-- A mask that tells as many positions apart as there are slots is that of a power of two.
theorem two_pow_of_distinct_mask {n : Nat} (hpos : 0 < n)
    (h : Distinct (fun i => i &&& (n - 1)) n) : ∃ k, n = 2 ^ k := by
  refine ⟨(n - 1).size, ?_⟩
  have hones : n - 1 = 2 ^ (n - 1).size - 1 := all_ones fun k hk => by
    by_contra hbit
    have hlt : 2 ^ k < n := by omega
    refine h (2 ^ k) hlt 0 (Nat.two_pow_pos k) ?_
    simpa [Nat.two_pow_and] using hbit
  have hle : 0 < 2 ^ (n - 1).size := Nat.two_pow_pos _
  omega

end Mask

end Slots

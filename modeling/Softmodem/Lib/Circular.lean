import Mathlib.Data.List.Basic
import Mathlib.Data.List.Range
import Mathlib.Data.Nat.ModEq
import Mathlib.Logic.Function.Basic

namespace Circular

section Distance

variable {n head tail : Nat}

theorem distance_of_le (hhead : head < n) (h : tail ≤ head) :
    (head + n - tail) % n = head - tail := by
  rw [show head + n - tail = head - tail + n by omega, Nat.add_mod_right,
    Nat.mod_eq_of_lt (by omega)]

theorem distance_of_lt (htail : tail < n) (h : head < tail) :
    (head + n - tail) % n = head + n - tail := Nat.mod_eq_of_lt (by omega)

theorem succ_mod_cases {i : Nat} (h : i < n) :
    (i + 1 < n ∧ (i + 1) % n = i + 1) ∨ (i + 1 = n ∧ (i + 1) % n = 0) := by
  rcases Nat.lt_or_ge (i + 1) n with hlt | hge
  · exact .inl ⟨hlt, Nat.mod_eq_of_lt hlt⟩
  · obtain heq : i + 1 = n := by omega
    exact .inr ⟨heq, heq ▸ Nat.mod_self _⟩

theorem distance_succ (hhead : head < n) (htail : tail < n) (hroom : (head + 1) % n ≠ tail) :
    ((head + 1) % n + n - tail) % n = (head + n - tail) % n + 1 := by
  rcases succ_mod_cases hhead with ⟨hlt, hmod⟩ | ⟨heq, hmod⟩
  · rw [hmod] at hroom ⊢
    rcases Nat.lt_or_ge head tail with h | h
    · rw [distance_of_lt htail h, distance_of_lt htail (by omega)]
      omega
    · rw [distance_of_le hhead h, distance_of_le hlt (by omega)]
      omega
  · rw [hmod] at hroom ⊢
    rw [distance_of_le hhead (by omega), distance_of_lt htail (by omega)]
    omega

theorem distance_full (hhead : head < n) (htail : tail < n) (hfull : (head + 1) % n = tail) :
    (head + n - tail) % n = n - 1 := by
  rcases succ_mod_cases hhead with ⟨hlt, hmod⟩ | ⟨heq, hmod⟩
  · rw [distance_of_lt htail (by omega)]
    omega
  · rw [distance_of_le hhead (by omega)]
    omega

theorem distance_pop (hhead : head < n) (htail : tail < n) (hne : head ≠ tail) :
    (head + n - tail) % n = (head + n - (tail + 1) % n) % n + 1 := by
  rcases succ_mod_cases htail with ⟨hlt, hmod⟩ | ⟨heq, hmod⟩
  · rw [hmod]
    rcases Nat.lt_or_ge head tail with h | h
    · rw [distance_of_lt htail h, distance_of_lt hlt (by omega)]
      omega
    · rw [distance_of_le hhead h, distance_of_le hhead (by omega)]
      omega
  · rw [hmod, distance_of_lt htail (by omega), distance_of_le hhead (Nat.zero_le _)]
    omega

end Distance

variable {α : Type*} {n : Nat} [NeZero n]

def slot (n : Nat) [NeZero n] (i : Nat) : Fin n := Fin.ofNat n i

theorem slot_eq_iff {i j : Nat} : slot n i = slot n j ↔ i % n = j % n := by
  simp [slot, Fin.ext_iff, Fin.ofNat]

theorem slot_ne_of_lt {i j k : Nat} (hi : i < k) (hk : k ≤ n) (hj : j < k) (hij : i ≠ j)
    (base : Nat) : slot n (base + i) ≠ slot n (base + j) := by
  intro h
  have hmod : (base + i) ≡ (base + j) [MOD n] := slot_eq_iff.mp h
  have hij' : i ≡ j [MOD n] := Nat.ModEq.add_left_cancel' base hmod
  exact hij (Nat.ModEq.eq_of_lt_of_lt hij' (hi.trans_le hk) (hj.trans_le hk))

def window (slots : Fin n → α) (tail len : Nat) : List α :=
  (List.range len).map fun i => slots (slot n (tail + i))

@[simp] theorem window_zero (slots : Fin n → α) (tail : Nat) : window slots tail 0 = [] := rfl

@[simp] theorem window_length (slots : Fin n → α) (tail len : Nat) :
    (window slots tail len).length = len := by simp [window]

theorem window_succ (slots : Fin n → α) (tail len : Nat) :
    window slots tail (len + 1) = slots (slot n tail) :: window slots (tail + 1) len := by
  simp [window, List.range_succ_eq_map, Nat.add_assoc, Nat.add_comm 1]

theorem window_succ_last (slots : Fin n → α) (tail len : Nat) :
    window slots tail (len + 1) = window slots tail len ++ [slots (slot n (tail + len))] := by
  simp [window, List.range_succ]

theorem window_congr {slots : Fin n → α} {tail tail' : Nat} (h : tail % n = tail' % n)
    (len : Nat) : window slots tail len = window slots tail' len := by
  apply List.map_congr_left
  intro i _
  have : slot n (tail + i) = slot n (tail' + i) := slot_eq_iff.mpr (Nat.ModEq.add_right i h)
  rw [this]

theorem window_push (slots : Fin n → α) (tail : Nat) {len : Nat} (h : len < n) (x : α) :
    window (Function.update slots (slot n (tail + len)) x) tail (len + 1) =
      window slots tail len ++ [x] := by
  rw [window_succ_last, Function.update_self]
  congr 1
  apply List.map_congr_left
  intro i hi
  have hi' : i < len := List.mem_range.mp hi
  exact Function.update_of_ne
    (slot_ne_of_lt (Nat.lt_succ_of_lt hi') h (Nat.lt_succ_self len) hi'.ne tail) x slots

section Contents

-- One slot stays free, so that a full buffer is told from an empty one.
def contents (slots : Fin n → α) (head tail : Nat) : List α :=
  window slots tail ((head + n - tail) % n)

variable {slots : Fin n → α} {head tail : Nat}

theorem slot_of_lt {i : Nat} (h : i < n) : slot n i = ⟨i, h⟩ :=
  Fin.ext (Nat.mod_eq_of_lt h)

theorem slot_distance (hhead : head < n) (htail : tail < n) :
    slot n (tail + (head + n - tail) % n) = ⟨head, hhead⟩ := by
  apply Fin.ext
  change (tail + (head + n - tail) % n) % n = head
  rcases Nat.lt_or_ge head tail with h | h
  · rw [distance_of_lt htail h, show tail + (head + n - tail) = head + n by omega,
      Nat.add_mod_right, Nat.mod_eq_of_lt hhead]
  · rw [distance_of_le hhead h, Nat.add_sub_cancel' h, Nat.mod_eq_of_lt hhead]

theorem contents_self (slots : Fin n → α) (i : Nat) : contents slots i i = [] := by
  rw [contents, Nat.add_sub_cancel_left, Nat.mod_self, window_zero]

theorem contents_pop (hhead : head < n) (htail : tail < n) (hne : head ≠ tail) :
    contents slots head tail = slots ⟨tail, htail⟩ :: contents slots head ((tail + 1) % n) := by
  rw [contents, distance_pop hhead htail hne, window_succ, slot_of_lt htail, contents,
    window_congr (Nat.mod_mod _ _).symm]

theorem contents_push (hhead : head < n) (htail : tail < n) (hroom : (head + 1) % n ≠ tail)
    (x : α) : contents (Function.update slots ⟨head, hhead⟩ x) ((head + 1) % n) tail =
      contents slots head tail ++ [x] := by
  rw [contents, distance_succ hhead htail hroom, ← slot_distance hhead htail,
    window_push slots tail (Nat.mod_lt _ (Nat.pos_of_neZero n)), contents]

theorem contents_push_full (hhead : head < n) (htail : tail < n)
    (hfull : (head + 1) % n = tail) (x : α) :
    contents (Function.update slots ⟨head, hhead⟩ x) ((head + 1) % n) ((tail + 1) % n) =
      (contents slots head tail ++ [x]).tail := by
  have hlen := distance_full hhead htail hfull
  have hnext : (tail + n - (tail + 1) % n) % n = n - 1 := by
    rcases succ_mod_cases htail with ⟨hlt, hmod⟩ | ⟨heq, hmod⟩
    · rw [hmod, distance_of_lt hlt (by omega)]
      omega
    · rw [hmod, distance_of_le htail (Nat.zero_le _)]
      omega
  have hpush := window_push slots tail (Nat.mod_lt (head + n - tail) (Nat.pos_of_neZero n)) x
  rw [slot_distance hhead htail, hlen, window_succ] at hpush
  rw [contents, contents, hfull, hnext, hlen, ← hpush, List.tail_cons,
    window_congr (Nat.mod_mod _ _)]

theorem contents_full_length (hhead : head < n) (htail : tail < n)
    (hfull : (head + 1) % n = tail) : (contents slots head tail).length = n - 1 := by
  rw [contents, window_length, distance_full hhead htail hfull]

theorem contents_room_length (hhead : head < n) (htail : tail < n)
    (hroom : (head + 1) % n ≠ tail) : (contents slots head tail).length < n - 1 := by
  have hlt : ((head + 1) % n + n - tail) % n < n := Nat.mod_lt _ (Nat.pos_of_neZero n)
  rw [distance_succ hhead htail hroom] at hlt
  rw [contents, window_length]
  omega

end Contents

end Circular

import Mathlib.Data.List.Basic

namespace Memory

variable {α : Type*}

def span (mem : Nat → α) (i j : Nat) : List α := (List.range' i (j - i)).map mem

def store (mem : Nat → α) (i : Nat) (xs : List α) : Nat → α := fun k =>
  if h : i ≤ k ∧ k - i < xs.length then xs.get ⟨k - i, h.2⟩ else mem k

@[simp] theorem span_self (mem : Nat → α) (i : Nat) : span mem i i = [] := by simp [span]

@[simp] theorem span_length (mem : Nat → α) (i j : Nat) : (span mem i j).length = j - i := by
  simp [span]

theorem span_append (mem : Nat → α) {i j k : Nat} (hij : i ≤ j) (hjk : j ≤ k) :
    span mem i j ++ span mem j k = span mem i k := by
  have hj : j = i + 1 * (j - i) := by omega
  have hlen : k - i = (j - i) + (k - j) := by omega
  rw [span, span, span, ← List.map_append, hlen, ← List.range'_append, ← hj]

theorem span_congr {mem mem' : Nat → α} {i j : Nat} (h : ∀ k, i ≤ k → k < j → mem k = mem' k) :
    span mem i j = span mem' i j := by
  refine List.map_congr_left fun k hk => ?_
  obtain ⟨hlow, hhigh⟩ := List.mem_range'_1.mp hk
  exact h k hlow (by omega)

theorem span_store_before (mem : Nat → α) (xs : List α) (i j : Nat) :
    span (store mem j xs) i j = span mem i j :=
  span_congr fun k _ hk => dif_neg fun h => absurd h.1 (by omega)

theorem span_stored (mem : Nat → α) (xs : List α) (j : Nat) :
    span (store mem j xs) j (j + xs.length) = xs := by
  apply List.ext_getElem
  · simp
  · intro k hk _
    have hlt : k < xs.length := by simpa using hk
    simp [span, store, hlt]

theorem span_store (mem : Nat → α) (xs : List α) {i j : Nat} (h : i ≤ j) :
    span (store mem j xs) i (j + xs.length) = span mem i j ++ xs := by
  rw [← span_append _ h (Nat.le_add_right j _), span_store_before, span_stored]

end Memory

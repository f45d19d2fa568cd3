import Mathlib.Data.List.OfFn

namespace Buffer

variable {α : Type*} {n : Nat}

def blit (buf : Fin n → α) (off : Nat) (xs : List α) : Fin n → α := fun i =>
  if h : off ≤ i.val ∧ i.val - off < xs.length then xs.get ⟨i.val - off, h.2⟩ else buf i

def first (buf : Fin n → α) (len : Nat) : List α := (List.ofFn buf).take len

@[simp] theorem first_zero (buf : Fin n → α) : first buf 0 = [] := rfl

@[simp] theorem first_length (buf : Fin n → α) (len : Nat) :
    (first buf len).length = min len n := by simp [first]

theorem first_blit (buf : Fin n → α) (off : Nat) (xs : List α) (h : off + xs.length ≤ n) :
    first (blit buf off xs) (off + xs.length) = first buf off ++ xs := by
  apply List.ext_getElem
  · simp only [first_length, List.length_append]
    omega
  · intro i hi _
    have hin : i < off + xs.length := by simp only [first_length] at hi; omega
    rcases Nat.lt_or_ge i off with hlt | hge
    · have hbuf : i < n := by omega
      simp [first, blit, hlt, not_le.mpr hlt, hbuf]
    · have hsub : i - off < xs.length := by omega
      have hmin : min off n = off := by omega
      simp [first, blit, hge, hsub, hmin]

theorem first_min (buf : Fin n → α) (len cap : Nat) :
    first buf (min len cap) = (first buf len).take cap := by
  rw [first, first, List.take_take, Nat.min_comm]

theorem first_of_le (buf : Fin n → α) {len : Nat} (h : n ≤ len) : first buf len = List.ofFn buf :=
  List.take_of_length_le (by simpa using h)

end Buffer

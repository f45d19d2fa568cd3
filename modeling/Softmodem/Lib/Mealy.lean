import Mathlib.Data.List.Basic

namespace Mealy

variable {S T I O : Type*}

def run (f : S → I → S × O) : S → List I → S × List O
  | s, [] => (s, [])
  | s, x :: xs =>
      let (s, o) := f s x
      let (s, os) := run f s xs
      (s, o :: os)

@[simp] theorem run_nil (f : S → I → S × O) (s : S) : run f s [] = (s, []) := rfl

@[simp] theorem run_cons (f : S → I → S × O) (s : S) (x : I) (xs : List I) :
    run f s (x :: xs) = ((run f (f s x).1 xs).1, (f s x).2 :: (run f (f s x).1 xs).2) := rfl

theorem run_append (f : S → I → S × O) (s : S) (xs ys : List I) :
    run f s (xs ++ ys) =
      ((run f (run f s xs).1 ys).1, (run f s xs).2 ++ (run f (run f s xs).1 ys).2) := by
  induction xs generalizing s with
  | nil => rfl
  | cons x xs ih => simp [ih]

@[simp] theorem run_length (f : S → I → S × O) (s : S) (xs : List I) :
    (run f s xs).2.length = xs.length := by
  induction xs generalizing s with
  | nil => rfl
  | cons x xs ih => simp [ih]

theorem run_take (f : S → I → S × O) (s : S) (xs : List I) (i : Nat) :
    (run f s (xs.take i)).2 = (run f s xs).2.take i := by
  have h := congrArg Prod.snd (run_append f s (xs.take i) (xs.drop i))
  rw [List.take_append_drop] at h
  rcases Nat.le_total i xs.length with hi | hi
  · rw [h, List.take_left' (by simp [hi])]
  · rw [List.take_of_length_le hi, List.take_of_length_le (by simp [hi])]

theorem run_drop (f : S → I → S × O) (s : S) (xs : List I) (i : Nat) :
    (run f s xs).2.drop i = (run f (run f s (xs.take i)).1 (xs.drop i)).2 := by
  have h := congrArg Prod.snd (run_append f s (xs.take i) (xs.drop i))
  rw [List.take_append_drop] at h
  rcases Nat.le_total i xs.length with hi | hi
  · rw [h, List.drop_left' (by simp [hi])]
  · simp [List.drop_eq_nil_of_le hi, List.drop_eq_nil_of_le, hi]

variable {f : S → I → S × O} {g : T → O → T × I} {R : S → T → Prop}

theorem inverts (h : ∀ s t x, R s t → R (f s x).1 (g t (f s x).2).1)
    (hout : ∀ s t x, R s t → (g t (f s x).2).2 = x) (xs : List I) {s : S} {t : T} (hR : R s t) :
    (run g t (run f s xs).2).2 = xs := by
  induction xs generalizing s t with
  | nil => rfl
  | cons x xs ih =>
      rw [run_cons, run_cons, hout s t x hR, ih (h s t x hR)]

theorem inverts_from (h : ∀ s t x, R s t → R (f s x).1 (g t (f s x).2).1)
    (hout : ∀ s t x, R s t → (g t (f s x).2).2 = x) {xs : List I} {i : Nat} {s : S} {t : T}
    (hR : R (run f s (xs.take i)).1 (run g t (run f s (xs.take i)).2).1) :
    (run g t (run f s xs).2).2.drop i = xs.drop i := by
  rw [run_drop, ← run_take, run_drop f]
  exact inverts h hout _ hR

end Mealy

import Mathlib.Data.List.Basic

-- What goes into a line comes out of it after as many steps as the line holds at first.
namespace DelayLine

variable {α : Type*}

def shift : List α → α → α × List α
  | [], x => (x, [])
  | head :: rest, x => (head, rest ++ [x])

def lineAt (line : List α) (x : Nat → α) : Nat → List α
  | 0 => line
  | n + 1 => (shift (lineAt line x n) (x n)).2

theorem shift_eq (line : List α) (x : α) :
    (shift line x).1 :: (shift line x).2 = line ++ [x] := by
  cases line with
  | nil => rfl
  | cons head rest => rfl

theorem lineAt_eq (line : List α) (x : Nat → α) (n : Nat) :
    lineAt line x n ++ [x n] = (line ++ (List.range (n + 1)).map x).drop n := by
  induction n with
  | zero => simp [lineAt]
  | succ n ih =>
      have hshift := shift_eq (lineAt line x n) (x n)
      rw [ih] at hshift
      have htail := congrArg List.tail hshift
      rw [List.tail_cons, List.tail_drop] at htail
      have hlength : n + 1 ≤ (line ++ (List.range (n + 1)).map x).length := by simp
      have hmore : line ++ (List.range (n + 1 + 1)).map x =
          line ++ (List.range (n + 1)).map x ++ [x (n + 1)] := by
        rw [List.range_succ, List.map_append, List.append_assoc]
        rfl
      rw [lineAt, htail, hmore, List.drop_append_of_le_length hlength]

theorem out_eq (line : List α) (x : Nat → α) (n : Nat) :
    (shift (lineAt line x n) (x n)).1 =
      if h : n < line.length then line.get ⟨n, h⟩ else x (n - line.length) := by
  have hhead : some (shift (lineAt line x n) (x n)).1 =
      (line ++ (List.range (n + 1)).map x)[n]? := by
    have hcons := (shift_eq (lineAt line x n) (x n)).trans (lineAt_eq line x n)
    rw [← List.head?_drop, ← hcons, List.head?_cons]
  split
  next h =>
    rw [List.getElem?_append_left h, List.getElem?_eq_getElem h] at hhead
    exact Option.some.inj hhead
  next h =>
    rw [List.getElem?_append_right (by omega)] at hhead
    have hlt : n - line.length < n + 1 := by omega
    simpa [hlt] using hhead

theorem out_replicate (d : Nat) (a : α) (x : Nat → α) (n : Nat) :
    (shift (lineAt (List.replicate d a) x n) (x n)).1 = if n < d then a else x (n - d) := by
  rw [out_eq]
  simp

theorem shift_forall {P : α → Prop} {line : List α} {x : α} (hline : ∀ y ∈ line, P y) (hx : P x) :
    P (shift line x).1 ∧ ∀ y ∈ (shift line x).2, P y := by
  have hall : ∀ y ∈ (shift line x).1 :: (shift line x).2, P y := by
    rw [shift_eq]
    simp only [List.mem_append, List.mem_singleton]
    rintro y (hy | rfl)
    · exact hline y hy
    · exact hx
  exact List.forall_mem_cons.mp hall

end DelayLine

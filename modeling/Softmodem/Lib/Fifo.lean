import Mathlib.Data.List.Basic

namespace Fifo

variable {α : Type*}

inductive Departure (α : Type*) where
  | taken (x : α)
  | discarded (x : α)
  deriving DecidableEq, Repr

def Departure.item : Departure α → α
  | .taken x => x
  | .discarded x => x

structure Queue (α : Type*) where
  arrived : List α
  waiting : List α
  departed : List (Departure α)
  deriving DecidableEq, Repr

def empty : Queue α := ⟨[], [], []⟩

-- A queue that makes room for the newest by giving up its oldest.
def put (capacity : Nat) (q : Queue α) (x : α) : Queue α :=
  if q.waiting.length < capacity then
    { q with arrived := q.arrived ++ [x], waiting := q.waiting ++ [x] }
  else
    { arrived := q.arrived ++ [x]
      waiting := (q.waiting ++ [x]).tail
      departed := q.departed ++ ((q.waiting ++ [x]).take 1).map .discarded }

def take (q : Queue α) : Queue α :=
  { q with
    waiting := q.waiting.tail
    departed := q.departed ++ (q.waiting.take 1).map .taken }

structure Sound (capacity : Nat) (q : Queue α) : Prop where
  bounded : q.waiting.length ≤ capacity
  inOrder : q.departed.map Departure.item ++ q.waiting = q.arrived

theorem map_item (f : α → Departure α) (hf : ∀ x, (f x).item = x) (xs : List α) :
    (xs.map f).map Departure.item = xs := by
  rw [List.map_map]
  exact (List.map_congr_left fun x _ => hf x).trans (List.map_id xs)

theorem sound_empty (capacity : Nat) : Sound capacity (empty : Queue α) :=
  ⟨Nat.zero_le _, rfl⟩

theorem Sound.put {capacity : Nat} {q : Queue α} (h : Sound capacity q) (x : α) :
    Sound capacity (put capacity q x) := by
  obtain ⟨hbounded, hinOrder⟩ := h
  rw [Fifo.put]
  split
  · next hroom =>
      refine ⟨?_, ?_⟩
      · rw [List.length_append]
        exact hroom
      · change q.departed.map Departure.item ++ (q.waiting ++ [x]) = q.arrived ++ [x]
        rw [← List.append_assoc, hinOrder]
  · refine ⟨?_, ?_⟩
    · simpa using hbounded
    · change (q.departed ++ ((q.waiting ++ [x]).take 1).map Departure.discarded).map
        Departure.item ++ (q.waiting ++ [x]).tail = q.arrived ++ [x]
      rw [List.map_append, map_item _ (fun _ => rfl), List.append_assoc, ← List.drop_one,
        List.take_append_drop, ← List.append_assoc, hinOrder]

theorem Sound.take {capacity : Nat} {q : Queue α} (h : Sound capacity q) :
    Sound capacity (take q) := by
  obtain ⟨hbounded, hinOrder⟩ := h
  refine ⟨?_, ?_⟩
  · have htail : q.waiting.tail.length = q.waiting.length - 1 := List.length_tail
    exact htail ▸ Nat.le_trans (Nat.sub_le _ _) hbounded
  · change (q.departed ++ (q.waiting.take 1).map Departure.taken).map Departure.item ++
      q.waiting.tail = q.arrived
    rw [List.map_append, map_item _ (fun _ => rfl), List.append_assoc, ← List.drop_one,
      List.take_append_drop, hinOrder]

theorem Sound.mem_arrived {capacity : Nat} {q : Queue α} (h : Sound capacity q) {x : α}
    (hx : x ∈ q.waiting) : x ∈ q.arrived :=
  h.inOrder ▸ List.mem_append_right _ hx

end Fifo

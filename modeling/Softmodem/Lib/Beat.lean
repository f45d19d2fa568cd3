import Softmodem.Lib.Transition

-- A beat on a stream of ticks: how many ticks go by from one beat, or from a reset, to the next.
namespace Beat

open Transition

-- A beat is at a tick of its own; a reset is between ticks.
inductive Mark where
  | tick
  | beat
  | reset
  deriving DecidableEq, Repr

structure Spaced (least most first : Nat) (marks : List Mark) : Prop where
  least : ∀ before n after,
    marks = before ++ .beat :: (List.replicate n .tick ++ .beat :: after) → least ≤ n + 1
  most : ∀ before n after, marks = before ++ .beat :: (List.replicate n .tick ++ after) → n < most
  first : ∀ before n after,
    marks = before ++ .reset :: (List.replicate n .tick ++ after) → n < first

structure Count where
  fresh : Bool
  ticks : Nat

def Count.next (c : Count) : Mark → Count
  | .tick => { c with ticks := c.ticks + 1 }
  | .beat => ⟨false, 0⟩
  | .reset => ⟨true, 0⟩

section Spacing

variable (least most first : Nat)

def Count.limit (c : Count) : Nat := if c.fresh then first else most

def InTime (c : Count) : Mark → Prop
  | .tick => c.ticks + 1 < c.limit most first
  | .beat => c.fresh = true ∨ least ≤ c.ticks + 1
  | .reset => True

variable {least most first}

theorem run_ticks (c : Count) (n : Nat) :
    run Count.next c (List.replicate n .tick) = { c with ticks := c.ticks + n } := by
  induction n generalizing c with
  | zero => rfl
  | succ n ih =>
      rw [List.replicate_succ, run_cons, ih]
      simp [Count.next, Nat.add_right_comm, Nat.add_assoc]

theorem ticks_lt {c : Count} {n : Nat} {after : List Mark} (h : c.ticks < c.limit most first)
    (hafter : Along Count.next (InTime least most first) c (List.replicate n .tick ++ after)) :
    c.ticks + n < c.limit most first := by
  induction n generalizing c with
  | zero => exact h
  | succ n ih =>
      obtain ⟨htick, hrest⟩ := hafter
      have hnext : c.ticks + 1 + n < c.limit most first := ih (c := c.next .tick) htick hrest
      omega

theorem spaced_of_along (hmost : 0 < most) (hfirst : 0 < first) {c : Count} {marks : List Mark}
    (h : Along Count.next (InTime least most first) c marks) : Spaced least most first marks := by
  constructor
  · rintro before n after rfl
    have hafter := ((along_append before _).mp h).2.2
    have hbeat := ((along_append (List.replicate n Mark.tick) _).mp hafter).2.1
    rw [run_ticks] at hbeat
    rcases hbeat with hfresh | hleast
    · exact absurd hfresh Bool.false_ne_true
    · simpa [Count.next] using hleast
  · rintro before n after rfl
    have hafter := ((along_append before _).mp h).2.2
    have hlt := ticks_lt (c := ⟨false, 0⟩) hmost hafter
    simpa [Count.next, Count.limit] using hlt
  · rintro before n after rfl
    have hafter := ((along_append before _).mp h).2.2
    have hlt := ticks_lt (c := ⟨true, 0⟩) hfirst hafter
    simpa [Count.next, Count.limit] using hlt

end Spacing

end Beat

import Softmodem.Lib.Transition

namespace Chunks

open Transition

variable {S I O : Type*}

section Feed

variable (step : S → I → S) (left : S → Prop) [DecidablePred left]

-- Input handed over piece by piece; whether it is still wanted is looked at once for each piece.
def feed (s : S) (piece : List I) : S := if left s then s else run step s piece

variable {step left}

theorem feed_left {s : S} (h : left s) (pieces : List (List I)) :
    pieces.foldl (feed step left) s = s := by
  induction pieces with
  | nil => rfl
  | cons piece pieces ih =>
      rw [List.foldl_cons, feed, if_pos h]
      exact ih

theorem feed_of_not_left {s : S} (h : ¬ left s) (piece : List I) :
    feed step left s piece = run step s piece :=
  if_neg h

end Feed

section Cut

variable {step : S → I → S} {left : S → Prop} {obs : S → O}

-- No input after the run has left changes what is observed.
def Undisturbed (step : S → I → S) (left : S → Prop) (obs : S → O) : S → List I → Prop :=
  Along step fun s i => left s → obs (step s i) = obs s

theorem Undisturbed.stays {s : S} {input : List I} (h : Undisturbed step left obs s input)
    (hobs : ∀ s t, obs s = obs t → left s → left t) (hs : left s) :
    obs (run step s input) = obs s := by
  induction input generalizing s with
  | nil => rfl
  | cons i input ih =>
      have hi := h.1 hs
      exact (ih h.2 (hobs _ _ hi.symm hs)).trans hi

variable [DecidablePred left]

theorem fold_cut {s : S} {pieces : List (List I)}
    (h : Undisturbed step left obs s pieces.flatten)
    (hobs : ∀ s t, obs s = obs t → left s → left t) (hs : ¬ left s) :
    obs (pieces.foldl (feed step left) s) = obs (run step s pieces.flatten) := by
  induction pieces generalizing s with
  | nil => rfl
  | cons piece pieces ih =>
      have hrest : Undisturbed step left obs (run step s piece) pieces.flatten :=
        ((along_append piece pieces.flatten).mp h).2
      rw [List.foldl_cons, feed_of_not_left hs, List.flatten_cons, run_append]
      by_cases hleft : left (run step s piece)
      · rw [feed_left hleft, hrest.stays hobs hleft]
      · exact ih hrest hleft

-- Delivery does not matter exactly when nothing is disturbed, if a disturbance cannot be undone.
theorem cut_iff (hobs : ∀ s t, obs s = obs t → left s → left t)
    (hundone : ∀ s i input, left s → obs (step s i) ≠ obs s → ¬ left (step s i) →
      obs (run step (step s i) input) ≠ obs s) {s : S} (hs : ¬ left s) (input : List I) :
    (∀ pieces : List (List I), pieces.flatten = input →
        obs (pieces.foldl (feed step left) s) = obs (feed step left s input)) ↔
      Undisturbed step left obs s input := by
  constructor
  · intro hcut
    apply (along_iff_split input).mpr
    rintro before i after rfl hleft
    by_contra hne
    have hbefore := hcut [before, i :: after] (by simp)
    have hafter := hcut [before ++ [i], after] (by simp)
    have hone : run step s (before ++ [i]) = step (run step s before) i := run_append ..
    simp only [List.foldl_cons, List.foldl_nil, feed_of_not_left hs] at hbefore hafter
    rw [feed, if_pos hleft] at hbefore
    rw [hone, ← hbefore, feed] at hafter
    split at hafter
    · exact hne hafter
    · next hback => exact hundone _ i after hleft hne hback hafter
  · rintro h pieces rfl
    rw [feed_of_not_left hs, fold_cut h hobs hs]

end Cut

end Chunks

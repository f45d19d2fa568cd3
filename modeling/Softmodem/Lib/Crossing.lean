import Softmodem.Lib.Transition

open Transition

variable {S E : Type*}

-- A system that a step may let in, for good; `kept` is what every later step keeps.
structure Crossing (step : S → E → S) (inside outer : S → Prop) (cross : S → E → S → Prop)
    (kept : S → S → Prop) : Prop where
  refl : ∀ s, kept s s
  trans : ∀ s t u, kept s t → kept t u → kept s u
  stays : ∀ s e, inside s → inside (step s e) ∧ kept s (step s e)
  crosses : ∀ s e, ¬ inside s → outer s →
    (¬ inside (step s e) ∧ outer (step s e)) ∨ inside (step s e) ∧ cross s e (step s e)

namespace Crossing

variable {step : S → E → S} {inside outer : S → Prop} {cross : S → E → S → Prop}
  {kept : S → S → Prop} {s : S}

theorem run_inside (h : Crossing step inside outer cross kept) (hs : inside s) (es : List E) :
    inside (run step s es) ∧ kept s (run step s es) := by
  induction es generalizing s with
  | nil => exact ⟨hs, h.refl s⟩
  | cons e es ih =>
      obtain ⟨hinside, hkept⟩ := h.stays s e hs
      obtain ⟨hrest, hkeptRest⟩ := ih hinside
      exact ⟨hrest, h.trans _ _ _ hkept hkeptRest⟩

-- The one step of a run that lets it in, with the run up to it still outside.
def Crossed (step : S → E → S) (inside outer : S → Prop) (cross : S → E → S → Prop)
    (kept : S → S → Prop) (s : S) (es : List E) : Prop :=
  ∃ before e after, es = before ++ e :: after ∧ ¬ inside (run step s before) ∧
    outer (run step s before) ∧ cross (run step s before) e (step (run step s before) e) ∧
      kept (step (run step s before) e) (run step s es)

theorem run_outside (h : Crossing step inside outer cross kept) (hs : ¬ inside s) (ho : outer s)
    (es : List E) :
    (¬ inside (run step s es) ∧ outer (run step s es)) ∨
      inside (run step s es) ∧ Crossed step inside outer cross kept s es := by
  induction es generalizing s with
  | nil => exact .inl ⟨hs, ho⟩
  | cons e es ih =>
      rcases h.crosses s e hs ho with ⟨hout, houter⟩ | ⟨hin, hcross⟩
      · refine (ih hout houter).imp id ?_
        rintro ⟨hin, before, f, after, hsplit, hrest⟩
        exact ⟨hin, e :: before, f, after, congrArg (List.cons e) hsplit, hrest⟩
      · obtain ⟨hrest, hkept⟩ := h.run_inside hin es
        exact .inr ⟨hrest, [], e, es, rfl, hs, ho, hcross, hkept⟩

end Crossing

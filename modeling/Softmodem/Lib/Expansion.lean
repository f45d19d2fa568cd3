import Softmodem.Lib.Transition

namespace Transition

variable {S E T F : Type*}

def expand (step : S → E → S) (events : S → E → List F) : S → List E → List F
  | _, [] => []
  | s, e :: es => events s e ++ expand step events (step s e) es

-- An invariant of the run together with the events it has produced so far.
theorem expand_invariant {step : S → E → S} {events : S → E → List F} {G : S → E → Prop}
    {P : List F → S → Prop}
    (hstep : ∀ fs s e, P fs s → G s e → P (fs ++ events s e) (step s e)) {fs : List F} {s : S}
    {es : List E} (h : P fs s) (hG : Along step G s es) :
    P (fs ++ expand step events s es) (run step s es) := by
  induction es generalizing fs s with
  | nil => rwa [expand, List.append_nil]
  | cons e es ih =>
      have hrest := ih (hstep fs s e h hG.1) hG.2
      rwa [List.append_assoc] at hrest

theorem mem_expand {step : S → E → S} {events : S → E → List F} {f : F} {s : S} {es : List E}
    (h : f ∈ expand step events s es) : ∃ s' e, e ∈ es ∧ f ∈ events s' e := by
  induction es generalizing s with
  | nil => cases h
  | cons e es ih =>
      rcases List.mem_append.mp h with hhead | htail
      · exact ⟨s, e, List.mem_cons_self .., hhead⟩
      · obtain ⟨s', e', he', hf⟩ := ih htail
        exact ⟨s', e', List.mem_cons_of_mem _ he', hf⟩

theorem run_eq_foldl (step : S → E → S) (s : S) (es : List E) : run step s es = es.foldl step s := by
  induction es generalizing s with
  | nil => rfl
  | cons e es ih => exact ih (step s e)

variable {step : S → E → S} {events : S → E → List F} {proj : S → T} {small : T → F → T}

theorem run_expand (h : ∀ s e, proj (step s e) = run small (proj s) (events s e)) (s : S)
    (es : List E) : proj (run step s es) = run small (proj s) (expand step events s es) := by
  induction es generalizing s with
  | nil => rfl
  | cons e es ih =>
      rw [run_cons, ih, h, expand, run_append]

theorem along_expand {G : T → F → Prop}
    (h : ∀ s e, proj (step s e) = run small (proj s) (events s e)) {s : S} {es : List E}
    (hG : Along step (fun s e => Along small G (proj s) (events s e)) s es) :
    Along small G (proj s) (expand step events s es) := by
  induction es generalizing s with
  | nil => trivial
  | cons e es ih =>
      rw [expand, along_append]
      refine ⟨hG.1, ?_⟩
      rw [← h]
      exact ih hG.2

end Transition

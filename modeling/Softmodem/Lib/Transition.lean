import Mathlib.Data.List.Basic

namespace Transition

variable {S E : Type*}

def run (step : S → E → S) : S → List E → S
  | s, [] => s
  | s, e :: es => run step (step s e) es

@[simp] theorem run_nil (step : S → E → S) (s : S) : run step s [] = s := rfl

@[simp] theorem run_cons (step : S → E → S) (s : S) (e : E) (es : List E) :
    run step s (e :: es) = run step (step s e) es := rfl

theorem run_append (step : S → E → S) (s : S) (es fs : List E) :
    run step s (es ++ fs) = run step (run step s es) fs := by
  induction es generalizing s with
  | nil => rfl
  | cons e es ih => exact ih (step s e)

theorem run_invariant {step : S → E → S} {P : S → Prop}
    (hstep : ∀ s e, P s → P (step s e)) (es : List E) {s : S} (h : P s) :
    P (run step s es) := by
  induction es generalizing s with
  | nil => exact h
  | cons e es ih => exact ih (hstep s e h)

def Along (step : S → E → S) (G : S → E → Prop) : S → List E → Prop
  | _, [] => True
  | s, e :: es => G s e ∧ Along step G (step s e) es

instance decidableAlong (step : S → E → S) (G : S → E → Prop) [∀ s e, Decidable (G s e)] :
    (s : S) → (es : List E) → Decidable (Along step G s es)
  | _, [] => isTrue trivial
  | s, e :: es =>
      have := decidableAlong step G (step s e) es
      inferInstanceAs (Decidable (G s e ∧ Along step G (step s e) es))

theorem along_append {step : S → E → S} {G : S → E → Prop} (es fs : List E) {s : S} :
    Along step G s (es ++ fs) ↔ Along step G s es ∧ Along step G (run step s es) fs := by
  induction es generalizing s with
  | nil => simp [Along]
  | cons e es ih => simp [Along, ih, and_assoc]

theorem along_iff_split {step : S → E → S} {G : S → E → Prop} (es : List E) {s : S} :
    Along step G s es ↔
      ∀ before e after, es = before ++ e :: after → G (run step s before) e := by
  constructor
  · rintro h before e after rfl
    exact ((along_append before (e :: after)).mp h).2.1
  · intro h
    induction es generalizing s with
    | nil => trivial
    | cons e es ih =>
        refine ⟨h [] e es rfl, ih fun before f after heq => ?_⟩
        exact h (e :: before) f after (by rw [heq]; rfl)

theorem along_invariant {step : S → E → S} {G : S → E → Prop} {P : S → Prop}
    (hstep : ∀ s e, P s → G s e → P (step s e)) (es : List E) {s : S} (h : P s)
    (hG : Along step G s es) : P (run step s es) := by
  induction es generalizing s with
  | nil => exact h
  | cons e es ih => exact ih (hstep s e h hG.1) hG.2

theorem along_of_invariant {step : S → E → S} {G H : S → E → Prop} {P : S → Prop}
    (hstep : ∀ s e, P s → G s e → P (step s e)) (hH : ∀ s e, P s → G s e → H s e) (es : List E)
    {s : S} (h : P s) (hG : Along step G s es) : Along step H s es := by
  induction es generalizing s with
  | nil => trivial
  | cons e es ih => exact ⟨hH s e h hG.1, ih (hstep s e h hG.1) hG.2⟩

theorem along_imp {step : S → E → S} {G H : S → E → Prop} (himp : ∀ s e, G s e → H s e)
    {es : List E} {s : S} (h : Along step G s es) : Along step H s es := by
  induction es generalizing s with
  | nil => trivial
  | cons e es ih => exact ⟨himp s e h.1, ih h.2⟩

-- `B` is where a run lands at its first step outside the guard; it never leaves `B` again.
theorem along_iff_seen {step : S → E → S} {G : S → E → Prop} {P Q B : S → Prop}
    (hgood : ∀ s e, P s → G s e → P (step s e))
    (hbad : ∀ s e, P s → ¬ G s e → B (step s e))
    (hstay : ∀ s e, B s → B (step s e)) (hseen : ∀ s, P s → Q s) (hexcl : ∀ s, B s → ¬ Q s)
    (es : List E) {s : S} (h : P s) : Q (run step s es) ↔ Along step G s es := by
  induction es generalizing s with
  | nil => exact ⟨fun _ => trivial, fun _ => hseen s h⟩
  | cons e es ih =>
      by_cases hG : G s e
      · simpa [Along, hG] using ih (hgood s e h hG)
      · have hB : B (run step (step s e) es) :=
          run_invariant hstay es (hbad s e h hG)
        exact ⟨fun hQ => absurd hQ (hexcl _ hB), fun hA => absurd hA.1 hG⟩

theorem along_iff {step : S → E → S} {G : S → E → Prop} {P B : S → Prop}
    (hgood : ∀ s e, P s → G s e → P (step s e))
    (hbad : ∀ s e, P s → ¬ G s e → B (step s e))
    (hstay : ∀ s e, B s → B (step s e)) (hexcl : ∀ s, B s → ¬ P s)
    (es : List E) {s : S} (h : P s) : P (run step s es) ↔ Along step G s es :=
  along_iff_seen hgood hbad hstay (fun _ hP => hP) hexcl es h

theorem along_iff_of_step {step : S → E → S} {G : S → E → Prop} {P Q : S → Prop}
    (hP : ∀ s e, P s → P (step s e)) (hQ : ∀ s e, P s → (Q (step s e) ↔ Q s ∧ G s e))
    (es : List E) {s : S} (h : P s) : Q (run step s es) ↔ Q s ∧ Along step G s es := by
  induction es generalizing s with
  | nil => simp [Along]
  | cons e es ih => rw [run_cons, ih (hP s e h), hQ s e h, Along, and_assoc]

-- `P` holds while the guard does, and `Q` fails at the first step outside it.
theorem forall_reached_iff_along {step : S → E → S} {G : S → E → Prop} {P Q : S → Prop}
    (hP : ∀ s e, P s → G s e → P (step s e)) (hQ : ∀ s, P s → Q s)
    (hG : ∀ s e, P s → Q (step s e) → G s e) (es : List E) {s : S} (h : P s) :
    (∀ fs, fs <+: es → Q (run step s fs)) ↔ Along step G s es := by
  induction es generalizing s with
  | nil =>
      refine ⟨fun _ => trivial, fun _ fs hfs => ?_⟩
      rw [List.prefix_nil.mp hfs]
      exact hQ s h
  | cons e es ih =>
      constructor
      · intro hall
        have hguard : G s e := hG s e h (hall [e] (by simp))
        refine ⟨hguard, (ih (hP s e h hguard)).mp fun fs hfs => ?_⟩
        exact hall (e :: fs) (List.cons_prefix_cons.mpr ⟨rfl, hfs⟩)
      · rintro ⟨hguard, hrest⟩ fs hfs
        rcases List.prefix_cons_iff.mp hfs with rfl | ⟨fs', rfl, hfs'⟩
        · exact hQ s h
        · exact (ih (hP s e h hguard)).mpr hrest fs' hfs'

theorem forall_reached_iff {step : S → E → S} {G : S → E → Prop} {Q : S → Prop}
    (hQ : ∀ s e, Q s → (Q (step s e) ↔ G s e)) (es : List E) {s : S} (h : Q s) :
    (∀ fs, fs <+: es → Q (run step s fs)) ↔ Along step G s es :=
  forall_reached_iff_along (fun s e hs => (hQ s e hs).mpr) (fun _ hs => hs)
    (fun s e hs => (hQ s e hs).mp) es h

end Transition

import Mathlib.Data.List.Basic

namespace Vouching

variable {E S ι : Type*} (input good : E → Prop)

def Trusted (log : List E) : Prop := ∀ x ∈ log, input x → good x

-- As long as what came in was good, so is what goes out; `p` is what was relied on before.
def Honest : Prop → List E → Prop
  | _, [] => True
  | p, x :: log => (p → ¬ input x → good x) ∧ Honest (p ∧ (input x → good x)) log

variable {input good}

theorem trusted_nil : Trusted input good [] := fun _ hx => absurd hx List.not_mem_nil

theorem trusted_cons {x : E} {log : List E} :
    Trusted input good (x :: log) ↔ (input x → good x) ∧ Trusted input good log := by
  simp [Trusted]

theorem trusted_append {log more : List E} :
    Trusted input good (log ++ more) ↔ Trusted input good log ∧ Trusted input good more := by
  simp [Trusted, or_imp, forall_and]

theorem Honest.imp {p q : Prop} {log : List E} (h : Honest input good p log) (himp : q → p) :
    Honest input good q log := by
  induction log generalizing p q with
  | nil => trivial
  | cons x log ih => exact ⟨fun hq => h.1 (himp hq), ih h.2 (And.imp_left himp)⟩

theorem honest_append {p : Prop} {log more : List E} :
    Honest input good p (log ++ more) ↔
      Honest input good p log ∧ Honest input good (p ∧ Trusted input good log) more := by
  induction log generalizing p with
  | nil => simp [Honest, trusted_nil]
  | cons x log ih => simp [Honest, ih, trusted_cons, and_assoc]

theorem honest_of_inputs {p : Prop} {log : List E} (h : ∀ x ∈ log, input x ∨ good x) :
    Honest input good p log := by
  induction log generalizing p with
  | nil => trivial
  | cons x log ih =>
      obtain ⟨hx, hlog⟩ := List.forall_mem_cons.mp h
      exact ⟨fun _ hout => hx.resolve_left hout, ih hlog⟩

-- Whoever starts with `p` adds an honest stretch to the log, and ends with `q` if it is trusted.
def Vouches (input good : E → Prop) (log : S → List E) (p : Prop) (s t : S) (q : Prop) : Prop :=
  ∃ new, log t = log s ++ new ∧
    Honest input good p new ∧ (p → Trusted input good new → q)

namespace Vouches

variable {log : S → List E} {p q r : Prop} {s t u : S}

theorem quiet (hlog : log t = log s) (h : p → q) : Vouches input good log p s t q :=
  ⟨[], by rw [hlog, List.append_nil], trivial, fun hp _ => h hp⟩

theorem one {x : E} (hlog : log t = log s ++ [x]) (hx : p → ¬ input x → good x)
    (h : p → (input x → good x) → q) : Vouches input good log p s t q :=
  ⟨[x], hlog, ⟨hx, trivial⟩, fun hp htrusted => h hp (htrusted x (List.mem_cons_self ..))⟩

theorem bind (h : Vouches input good log p s t q) (h' : Vouches input good log q t u r) :
    Vouches input good log p s u r := by
  obtain ⟨new, hlog, hhonest, hq⟩ := h
  obtain ⟨more, hlog', hhonest', hr⟩ := h'
  refine ⟨new ++ more, by rw [hlog', hlog, List.append_assoc], honest_append.mpr
    ⟨hhonest, hhonest'.imp fun ⟨hp, htrusted⟩ => hq hp htrusted⟩, fun hp htrusted => ?_⟩
  obtain ⟨hnew, hmore⟩ := trusted_append.mp htrusted
  exact hr (hq hp hnew) hmore

theorem weaken {p' q' : Prop} (h : Vouches input good log p s t q) (hp : p' → p) (hq : q → q') :
    Vouches input good log p' s t q' := by
  obtain ⟨new, hlog, hhonest, hend⟩ := h
  exact ⟨new, hlog, hhonest.imp hp, fun hp' htrusted => hq (hend (hp hp') htrusted)⟩

theorem honest (h : Vouches input good log p s t q) (hs : Honest input good True (log s))
    (hp : Trusted input good (log s) → p) :
    Honest input good True (log t) ∧ (Trusted input good (log t) → q) := by
  obtain ⟨new, hlog, hhonest, hend⟩ := h
  rw [hlog]
  refine ⟨honest_append.mpr ⟨hs, hhonest.imp fun htrusted => hp htrusted.2⟩, fun htrusted => ?_⟩
  obtain ⟨hold, hnew⟩ := trusted_append.mp htrusted
  exact hend (hp hold) hnew

end Vouches

-- Parties that are each honest, over a store that gives back good things while it holds them.
theorem all_good [DecidableEq ι] {merged : List (ι × E)}
    (hstore : ∀ before x after, merged = before ++ x :: after → (∀ y ∈ before, good y.2) →
      input x.2 → good x.2)
    (hparty : ∀ i, Honest input good True ((merged.filter fun x => x.1 = i).map Prod.snd)) :
    ∀ x ∈ merged, good x.2 := by
  have hlater : ∀ after before, merged = before ++ after → (∀ y ∈ before, good y.2) →
      ∀ x ∈ after, good x.2 := by
    intro after
    induction after with
    | nil => exact fun _ _ _ x hx => absurd hx List.not_mem_nil
    | cons x after ih =>
        intro before hsplit hbefore
        have hx : good x.2 := by
          rcases Classical.em (input x.2) with hin | hout
          · exact hstore before x after hsplit hbefore hin
          · have hown := hparty x.1
            rw [hsplit, List.filter_append, List.map_append, honest_append] at hown
            simp only [List.filter_cons, decide_true, if_true, List.map_cons, Honest] at hown
            refine hown.2.1 ⟨trivial, fun y hy _ => ?_⟩ hout
            obtain ⟨z, hz, rfl⟩ := List.mem_map.mp hy
            exact hbefore z (List.mem_of_mem_filter hz)
        have hsplit' : merged = (before ++ [x]) ++ after := by simp [hsplit]
        have hmore : ∀ y ∈ before ++ [x], good y.2 := by
          intro y hy
          rcases List.mem_append.mp hy with hold | hnew
          · exact hbefore y hold
          · exact List.mem_singleton.mp hnew ▸ hx
        exact List.forall_mem_cons.mpr ⟨hx, ih _ hsplit' hmore⟩
  exact hlater merged [] rfl fun y hy => absurd hy List.not_mem_nil

end Vouching

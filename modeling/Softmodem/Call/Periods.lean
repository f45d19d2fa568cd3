import Softmodem.Serial.Assembly
import Softmodem.Call.Link

namespace Softmodem.Call

open AudioSocket Serial V22bis

def LinkEvent.bits : LinkEvent → List Bool
  | .bit b => [b]
  | _ => []

structure Path where
  link : Link
  period : List Bool
  handed : List (UInt8 × List Bool)

def periodAfter (p : Path) (e : LinkEvent) : List Bool :=
  if (linkStep p.link e).phase = .data then
    (if p.link.phase = .data then p.period else []) ++ e.bits
  else []

def handedBy (p : Path) : LinkEvent → List (UInt8 × List Bool)
  | .take => (smDeframerTake p.link.deframer 256).2.1.map fun byte => (byte, p.period)
  | _ => []

def pathStep (p : Path) (e : LinkEvent) : Path :=
  ⟨linkStep p.link e, periodAfter p e, p.handed ++ handedBy p e⟩

def entryDeframer (l : Link) : LinkEvent → SmDeframer
  | .bit _ => l.deframer
  | e => (linkStep l e).deframer

def EntersHunting (l : Link) (e : LinkEvent) : Prop :=
  l.phase ≠ .data → (linkStep l e).phase = .data → entryDeframer l e = smDeframerInit

def IgnoresOutside (l : Link) (e : LinkEvent) : Prop :=
  ∀ b, e = .bit b → (linkStep l e).phase ≠ .data → linkStep l e = l

structure OnePeriodAByte (start : Link) (events : List LinkEvent) : Prop where
  handed : ∀ h ∈ (Transition.run pathStep ⟨start, [], []⟩ events).handed, FromFrame h.2 h.1
  taken : (Transition.run linkStep start events).taken =
    start.taken ++ (Transition.run pathStep ⟨start, [], []⟩ events).handed.map Prod.fst
  hunting : Transition.Along linkStep EntersHunting start events
  outside : Transition.Along linkStep IgnoresOutside start events
  hangup : ∀ before later after, events = before ++ later ++ after →
    (Transition.run linkStep start before).phase = .hangup →
      (Transition.run linkStep start (before ++ later)).phase = .hangup

def Allowed (l : Link) : LinkEvent → Prop
  | .bit _ => l.phase ≠ .hangup ∨ l.mode = .v22
  | .retrain => l.phase ≠ .hangup ∧ l.mode = .v22
  | .enter => l.phase ≠ .hangup ∧ l.phase ≠ .data ∧ l.mode = .v22
  | .become phase => l.phase = .answerTone ∧ phase = .handshake ∨ phase = .hangup
  | .startV34 => l.phase = .v8
  | .startV22 => l.phase ≠ .hangup ∧ l.mode = .v22
  | .take => l.phase = .data

structure LinkInv (l : Link) : Prop where
  v8 : l.phase = .v8 → l.mode = .v22 ∧ l.deframer = smDeframerInit
  v34 : l.mode = .v34 →
    l.phase = .handshake ∧ l.deframer = smDeframerInit ∨ l.phase = .data ∨ l.phase = .hangup

section Machine

variable {l : Link}

theorem linkInv_step {e : LinkEvent} (h : LinkInv l) (he : Allowed l e) : LinkInv (linkStep l e) := by
  cases e with
  | bit b =>
      simp only [linkStep]
      split_ifs with hmode hphase
      · exact ⟨by simp, fun _ => .inr (.inl rfl)⟩
      · exact ⟨by simp [hphase], fun _ => .inr (.inl hphase)⟩
      · exact h
  | retrain => exact ⟨by simp [linkStep], by simp [linkStep, he.2]⟩
  | enter => exact ⟨by simp [linkStep], by simp [linkStep]⟩
  | become phase =>
      rcases he with ⟨htone, rfl⟩ | rfl
      · refine ⟨by simp [linkStep], ?_⟩
        intro hmode
        have hphase := h.v34 hmode
        simp [htone] at hphase
      · exact ⟨by simp [linkStep], by simp [linkStep]⟩
  | startV34 => exact ⟨by simp [linkStep], fun _ => .inl ⟨rfl, (h.v8 he).2⟩⟩
  | startV22 => exact ⟨by simp [linkStep], by simp [linkStep]⟩
  | take =>
      have hdata : l.phase = .data := he
      exact ⟨by simp [linkStep, hdata], by simp [linkStep, hdata]⟩

theorem linkStep_take (l : Link) :
    (linkStep l .take).phase = l.phase ∧ (linkStep l .take).mode = l.mode ∧
      (linkStep l .take).deframer = (smDeframerTake l.deframer 256).1 ∧
      (linkStep l .take).taken = l.taken ++ (smDeframerTake l.deframer 256).2.1 := by
  simp only [linkStep, and_self]

theorem hangup_step {e : LinkEvent} (he : Allowed l e) (h : l.phase = .hangup) :
    (linkStep l e).phase = .hangup := by
  cases e with
  | bit b =>
      have hmode : l.mode = .v22 := by simpa [Allowed, h] using he
      simp [linkStep, hmode, h]
  | become phase =>
      rcases he with ⟨htone, -⟩ | rfl
      · simp [h] at htone
      · rfl
  | take => exact (linkStep_take l).1.trans h
  | _ => simp [Allowed, h] at he

theorem step_huntsOnEntry {e : LinkEvent} (h : LinkInv l) (he : Allowed l e) : EntersHunting l e := by
  intro hout hin
  cases e with
  | bit b =>
      simp only [linkStep] at hin
      split_ifs at hin with hmode
      · rcases h.v34 hmode with ⟨-, hinit⟩ | hdata | hhangup
        · exact hinit
        · exact absurd hdata hout
        · simp [Allowed, hhangup, hmode] at he
      · exact absurd hin hout
  | enter => rfl
  | take => exact absurd ((linkStep_take l).1.symm.trans hin) hout
  | become phase =>
      rcases he with ⟨-, rfl⟩ | rfl
      · cases hin
      · cases hin
  | _ => cases hin

theorem step_ignoresOutside (e : LinkEvent) : IgnoresOutside l e := by
  rintro b rfl hout
  simp only [linkStep] at hout ⊢
  split_ifs at hout ⊢ with hmode hphase
  · exact absurd rfl hout
  · exact absurd hphase hout
  · rfl

structure PathInv (p : Path) : Prop where
  link : LinkInv p.link
  period : p.link.phase = .data → PeriodInv p.link.deframer p.period
  handed : ∀ h ∈ p.handed, FromFrame h.2 h.1

theorem pathInv_period {p : Path} {e : LinkEvent} (h : PathInv p) (he : Allowed p.link e)
    (hdata : (linkStep p.link e).phase = .data) :
    PeriodInv (linkStep p.link e).deframer (periodAfter p e) := by
  have hentry := step_huntsOnEntry h.link he
  rw [periodAfter, if_pos hdata]
  rcases eq_or_ne p.link.phase .data with hphase | hphase
  · rw [if_pos hphase]
    have hperiod := h.period hphase
    cases e with
    | bit b =>
        have hbit : (linkStep p.link (.bit b)).deframer = smDeframerBit p.link.deframer b := by
          simp only [linkStep, hphase]
          split <;> rfl
        rw [hbit]
        exact periodInv_bit hperiod b
    | take =>
        rw [show LinkEvent.take.bits = [] from rfl, List.append_nil, (linkStep_take p.link).2.2.1]
        exact (periodInv_take hperiod 256).1
    | enter => exact absurd hphase he.2.1
    | become phase =>
        rcases he with ⟨-, rfl⟩ | rfl
        · cases hdata
        · cases hdata
    | _ => cases hdata
  · rw [if_neg hphase, List.nil_append]
    have hinit := hentry hphase hdata
    cases e with
    | bit b =>
        have hbit : (linkStep p.link (.bit b)).deframer = smDeframerBit p.link.deframer b := by
          simp only [linkStep] at hdata ⊢
          split_ifs at hdata ⊢
          · rfl
          · exact absurd hdata hphase
        rw [hbit, show p.link.deframer = smDeframerInit from hinit]
        exact periodInv_bit periodInv_init b
    | _ =>
        rw [show (linkStep p.link _).deframer = smDeframerInit from hinit]
        exact periodInv_init

theorem pathInv_step (p : Path) (e : LinkEvent) (h : PathInv p) (he : Allowed p.link e) :
    PathInv (pathStep p e) := by
  refine ⟨linkInv_step h.link he, fun hdata => pathInv_period h he hdata, ?_⟩
  intro x hx
  rcases List.mem_append.mp hx with hbefore | hnow
  · exact h.handed x hbefore
  · cases e with
    | take =>
        obtain ⟨byte, hbyte, rfl⟩ := List.mem_map.mp hnow
        exact (periodInv_take (h.period he) 256).2 byte hbyte
    | _ => cases hnow

theorem path_link (p : Path) (events : List LinkEvent) :
    (Transition.run pathStep p events).link = Transition.run linkStep p.link events := by
  induction events generalizing p with
  | nil => rfl
  | cons e events ih => exact ih (pathStep p e)

theorem pathStep_taken (p : Path) (e : LinkEvent) :
    ∃ more, (pathStep p e).link.taken = p.link.taken ++ more.map Prod.fst ∧
      (pathStep p e).handed = p.handed ++ more := by
  refine ⟨handedBy p e, ?_, rfl⟩
  cases e with
  | take =>
      have hbytes : (handedBy p .take).map Prod.fst = (smDeframerTake p.link.deframer 256).2.1 := by
        simp only [handedBy, List.map_map, Function.comp_def, List.map_id']
      rw [hbytes]
      exact (linkStep_take p.link).2.2.2
  | bit b =>
      simp only [pathStep, linkStep, handedBy, List.map_nil, List.append_nil]
      split_ifs <;> rfl
  | _ => exact (List.append_nil _).symm

theorem path_taken (p : Path) (events : List LinkEvent) :
    ∃ more, (Transition.run pathStep p events).link.taken = p.link.taken ++ more.map Prod.fst ∧
      (Transition.run pathStep p events).handed = p.handed ++ more := by
  induction events generalizing p with
  | nil => exact ⟨[], by simp⟩
  | cons e events ih =>
      obtain ⟨now, htaken, hhanded⟩ := pathStep_taken p e
      obtain ⟨later, htaken', hhanded'⟩ := ih (pathStep p e)
      refine ⟨now ++ later, ?_, ?_⟩
      · rw [Transition.run_cons, htaken', htaken, List.map_append, List.append_assoc]
      · rw [Transition.run_cons, hhanded', hhanded, List.append_assoc]

theorem path_along {G : Link → LinkEvent → Prop} (p : Path) (events : List LinkEvent) :
    Transition.Along pathStep (fun p e => G p.link e) p events ↔
      Transition.Along linkStep G p.link events := by
  induction events generalizing p with
  | nil => rfl
  | cons e events ih => exact and_congr_right fun _ => ih (pathStep p e)

theorem one_period_a_byte {start : Link} {events : List LinkEvent} (h : LinkInv start)
    (hphase : start.phase ≠ .data) (hallowed : Transition.Along linkStep Allowed start events) :
    OnePeriodAByte start events := by
  have hpath : PathInv ⟨start, [], []⟩ := ⟨h, fun hdata => absurd hdata hphase, by simp⟩
  have hrun := Transition.along_invariant pathInv_step events hpath
    ((path_along ⟨start, [], []⟩ events).mpr hallowed)
  obtain ⟨more, htaken, hmore⟩ := path_taken ⟨start, [], []⟩ events
  refine ⟨hrun.handed, ?_, ?_, ?_, ?_⟩
  · have hlink := path_link ⟨start, [], []⟩ events
    rw [hmore, ← hlink, htaken]
    rfl
  · exact Transition.along_of_invariant (fun _ _ hl he => linkInv_step hl he)
      (fun _ _ hl he => step_huntsOnEntry hl he) events h hallowed
  · exact Transition.along_of_invariant (fun _ _ hl he => linkInv_step hl he)
      (fun _ e _ _ => step_ignoresOutside e) events h hallowed
  · rintro before later after rfl hhangup
    rw [List.append_assoc, Transition.along_append, Transition.along_append] at hallowed
    rw [Transition.run_append]
    have hstay : ∀ l e, l.phase = .hangup → Allowed l e → (linkStep l e).phase = .hangup :=
      fun _ _ hup he => hangup_step he hup
    exact Transition.along_invariant hstay later hhangup hallowed.2.1

end Machine

end Softmodem.Call

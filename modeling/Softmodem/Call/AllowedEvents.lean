import Softmodem.Call.Periods

namespace Softmodem.Call

open AudioSocket Serial V22bis

structure CallInv (c : SmCall) : Prop where
  link : LinkInv c.link
  bm : c.bm = true → c.mode = .v22 ∧ c.v8Done = false
  guard : c.phase = .v8 ∨ c.mode = .v34 → c.rxGuard = 0

structure InAudio (c : SmCall) : Prop where
  call : CallInv c
  builtin : c.bm = false → c.phase ≠ .hangup

def OpFits (c : SmCall) : AudioOp → Prop
  | .poll _ _ => c.bm = true ∧ c.phase ≠ .hangup
  | .bm _ _ => c.bm = true
  | .v8 _ _ _ => c.bm = false
  | .tone _ => c.bm = false ∧ c.phase = .answerTone
  | .squelch _ _ _ => c.bm = false ∧ c.mode = .v22
  | .receive _ _ _ => c.bm = false ∧ c.mode = .v22
  | .v34 _ _ _ => c.bm = false
  | _ => True

structure Kept (c c' : SmCall) : Prop where
  link : c'.link = c.link
  bm : c'.bm = c.bm
  v8Done : c'.v8Done = c.v8Done
  rxGuard : c'.rxGuard = c.rxGuard

theorem CallInv.kept {c c' : SmCall} (h : CallInv c) (hk : Kept c c') : CallInv c' := by
  have hmode : c'.mode = c.mode := congrArg Link.mode hk.link
  have hphase : c'.phase = c.phase := congrArg Link.phase hk.link
  refine ⟨hk.link ▸ h.link, ?_, ?_⟩
  · rw [hk.bm, hmode, hk.v8Done]
    exact h.bm
  · rw [hphase, hmode, hk.rxGuard]
    exact h.guard

theorem InAudio.kept {c c' : SmCall} (h : InAudio c) (hk : Kept c c') : InAudio c' := by
  refine ⟨h.call.kept hk, ?_⟩
  rw [hk.bm, show c'.phase = c.phase from congrArg Link.phase hk.link]
  exact h.builtin

def guardedLink (l : Link) : Prop := l.phase = .v8 ∨ l.mode = .v34

section Events

variable {l : Link}

theorem guardedLink_step {e : LinkEvent} (he : Allowed l e) (h : guardedLink (linkStep l e)) :
    guardedLink l := by
  cases e with
  | bit b =>
      simp only [linkStep] at h
      split_ifs at h with hmode hphase
      · exact .inr hmode
      · exact h
      · exact h
  | retrain =>
      rcases h with h | h
      · cases h
      · exact .inr h
  | enter =>
      rcases h with h | h
      · cases h
      · exact .inr h
  | become phase =>
      rcases he with ⟨-, rfl⟩ | rfl
      · rcases h with h | h
        · cases h
        · exact .inr h
      · rcases h with h | h
        · cases h
        · exact .inr h
  | startV34 => exact .inl he
  | startV22 => rcases h with h | h <;> cases h
  | take =>
      obtain ⟨hphase, hmode, -⟩ := linkStep_take l
      rcases h with h | h
      · exact .inl (hphase.symm.trans h)
      · exact .inr (hmode.symm.trans h)

theorem guardedLink_run {events : List LinkEvent}
    (hallowed : Transition.Along linkStep Allowed l events)
    (h : guardedLink (Transition.run linkStep l events)) : guardedLink l := by
  induction events generalizing l with
  | nil => exact h
  | cons e events ih => exact guardedLink_step hallowed.1 (ih hallowed.2 h)

def FromEngine (e : LinkEvent) : Prop := (∃ b, e = .bit b) ∨ e = .retrain

theorem fromEngine_step {e : LinkEvent} (he : FromEngine e) (h : l.mode = .v22 ∧ l.phase ≠ .hangup) :
    Allowed l e ∧ (linkStep l e).mode = .v22 ∧ (linkStep l e).phase ≠ .hangup := by
  rcases he with ⟨b, rfl⟩ | rfl
  · refine ⟨.inr h.1, ?_⟩
    simp only [linkStep, h.1]
    split_ifs <;> simp_all
  · exact ⟨⟨h.2, h.1⟩, h.1, by simp [linkStep]⟩

theorem fromEngine_allowed {events : List LinkEvent} (hev : ∀ e ∈ events, FromEngine e)
    (h : l.mode = .v22 ∧ l.phase ≠ .hangup) :
    Transition.Along linkStep Allowed l events ∧
      (Transition.run linkStep l events).phase ≠ .hangup := by
  induction events generalizing l with
  | nil => exact ⟨trivial, h.2⟩
  | cons e events ih =>
      obtain ⟨he, hnext⟩ := fromEngine_step (hev e (List.mem_cons_self ..)) h
      obtain ⟨hrest, hphase⟩ := ih (fun f hf => hev f (List.mem_cons_of_mem _ hf)) hnext
      exact ⟨⟨he, hrest⟩, hphase⟩

def Receptive (l : Link) : Prop := l.mode = .v22 ∨ l.phase ≠ .hangup

theorem bits_allowed {events : List LinkEvent} (hev : ∀ e ∈ events, ∃ b, e = .bit b)
    (h : Receptive l) :
    Transition.Along linkStep Allowed l events ∧
      (Transition.run linkStep l events).mode = l.mode ∧
      (l.phase ≠ .hangup → (Transition.run linkStep l events).phase ≠ .hangup) := by
  induction events generalizing l with
  | nil => exact ⟨trivial, rfl, id⟩
  | cons e events ih =>
      obtain ⟨b, rfl⟩ := hev e (List.mem_cons_self ..)
      have hmode : (linkStep l (.bit b)).mode = l.mode := by
        simp only [linkStep]
        split_ifs <;> rfl
      have hphase : l.phase ≠ .hangup → (linkStep l (.bit b)).phase ≠ .hangup := by
        intro hup
        simp only [linkStep]
        split_ifs <;> simp [hup]
      have hnext : Receptive (linkStep l (.bit b)) := by
        rcases h with hv22 | hup
        · exact .inl (hmode.trans hv22)
        · exact .inr (hphase hup)
      obtain ⟨hrest, hmode', hphase'⟩ := ih (fun f hf => hev f (List.mem_cons_of_mem _ hf)) hnext
      exact ⟨⟨h.symm, hrest⟩, hmode'.trans hmode, fun hup => hphase' (hphase hup)⟩

theorem rxOutEvents_fromEngine {out : RxOut} {e : LinkEvent} (h : e ∈ rxOutEvents out) :
    FromEngine e := by
  cases out with
  | status st =>
      simp only [rxOutEvents] at h
      split at h
      · exact .inr (List.mem_singleton.mp h)
      · cases h
  | bit b => exact .inl ⟨b, List.mem_singleton.mp h⟩

theorem modemRxEvents_fromEngine {c : SmCall} {i m : Nat} {rx : Nat → RxObservation}
    {e : LinkEvent} (h : e ∈ modemRxEvents c i m rx) : FromEngine e := by
  obtain ⟨d, k, -, hmem⟩ := Transition.mem_expand h
  obtain ⟨out, -, hout⟩ := List.mem_flatMap.mp hmem
  exact rxOutEvents_fromEngine hout

theorem engineEvents_bits {events : List EngineEvent} {e : LinkEvent}
    (h : e ∈ events.flatMap engineEventEvents) : ∃ b, e = .bit b := by
  obtain ⟨event, -, hmem⟩ := List.mem_flatMap.mp h
  cases event with
  | getBit => cases hmem
  | putBit bit v34Rate =>
      cases bit with
      | none => cases hmem
      | some b => exact ⟨b, List.mem_singleton.mp hmem⟩

end Events

section Ops

variable {c : SmCall}

theorem InAudio.next {c' : SmCall} {events : List LinkEvent} (h : InAudio c)
    (hlink : c'.link = Transition.run linkStep c.link events)
    (hallowed : Transition.Along linkStep Allowed c.link events)
    (hguard : guardedLink c'.link → c'.rxGuard ≤ c.rxGuard)
    (hbm : c'.bm = true → c'.mode = .v22 ∧ c'.v8Done = false)
    (hbuiltin : c'.bm = false → c'.phase ≠ .hangup) : InAudio c' := by
  refine ⟨⟨?_, hbm, ?_⟩, hbuiltin⟩
  · rw [hlink]
    exact Transition.along_invariant (fun _ _ hl he => linkInv_step hl he) events h.call.link
      hallowed
  · intro hguarded
    have hle := hguard hguarded
    have hlinked : guardedLink (Transition.run linkStep c.link events) := hlink ▸ hguarded
    have hzero := h.call.guard (guardedLink_run hallowed hlinked)
    omega

def OpKept (c : SmCall) (op : AudioOp) : Prop :=
  Transition.Along linkStep Allowed c.link (opEvents c op) ∧ InAudio (audioOp c op)

theorem bmPoll_kept (h : InAudio c) (n : Nat) (o : BmObservation)
    (hfits : OpFits c (.poll n o)) : OpKept c (.poll n o) := by
  obtain ⟨hbm, hup⟩ := hfits
  obtain ⟨hmode, hdone⟩ := h.call.bm hbm
  have hallowed : Transition.Along linkStep Allowed c.link (bmPollEvents c n o) := by
    unfold bmPollEvents
    cases o.status with
    | running => trivial
    | failed => exact ⟨.inr rfl, trivial⟩
    | agreedV22 => exact ⟨⟨hup, hmode⟩, trivial⟩
    | agreedOther => exact ⟨⟨hup, hmode⟩, trivial⟩
    | retraining =>
        simp only
        split
        · exact ⟨⟨hup, hmode⟩, trivial⟩
        · trivial
    | connected =>
        simp only
        split_ifs with hdata hlost hlost
        · exact ⟨⟨hup, hdata, hmode⟩, .inr rfl, trivial⟩
        · exact ⟨⟨hup, hdata, hmode⟩, trivial⟩
        · exact ⟨.inr rfl, trivial⟩
        · trivial
  refine ⟨hallowed, ?_⟩
  have hlink := bmPoll_link c n o
  simp only [audioOp]
  rcases bmPoll_cases c n o with hback | ⟨hbm', hmode', hdone', hguard'⟩
  · refine h.next hlink hallowed ?_ ?_ ?_
    · rw [hback]
      rintro (hphase | hv34)
      · cases hphase
      · cases hv34
    · rw [hback]
      exact fun hno => absurd hno (by simp [bmHandBack])
    · rw [hback]
      simp [bmHandBack]
  · refine h.next hlink hallowed (fun _ => hguard'.le) ?_ ?_
    · intro _
      exact ⟨hmode'.trans hmode, hdone'.trans hdone⟩
    · intro hno
      rw [hbm', hbm] at hno
      cases hno

theorem captureChunk_kept (c : SmCall) (payload : List UInt8) (n : Nat) :
    Kept c (captureChunk c payload n) := by
  refine ⟨captureChunk_link c payload n, ?_, ?_, ?_⟩
  all_goals
    simp only [captureChunk]
    split_ifs <;> rfl

theorem pulls_kept {c' : SmCall} (h : Pulls callGetBit c c') : Kept c c' := by
  induction h with
  | refl => exact ⟨rfl, rfl, rfl, rfl⟩
  | tail _ hlast ih =>
      subst hlast
      exact ⟨ih.link, ih.bm, ih.v8Done, ih.rxGuard⟩

theorem modemTx_kept (c : SmCall) (i m : Nat) : Kept c (modemTx c i m) := by
  have hretrain := v22bisTx_retrain callGetBit m c.modem c
  have hpulls := (v22bisTx_spec callGetBit m c.modem c).2.2
  rcases heq : v22bisTx callGetBit m c.modem c with ⟨sent, s, statuses, d⟩
  simp only [heq] at hretrain hpulls
  simp only [modemTx, heq, callStatuses_plain hretrain]
  have hd := pulls_kept hpulls
  exact ⟨hd.link, hd.bm, hd.v8Done, hd.rxGuard⟩

theorem rxOuts_v8Done (outs : List RxOut) (c : SmCall) :
    (outs.foldl rxOut c).v8Done = c.v8Done := by
  induction outs generalizing c with
  | nil => rfl
  | cons out outs ih =>
      refine (ih _).trans ?_
      cases out with
      | status st =>
          simp only [rxOut, callStatus]
          split <;> rfl
      | bit b =>
          simp only [rxOut, callPutBit]
          split_ifs <;> rfl

theorem modemRx_fields (i m : Nat) (rx : Nat → RxObservation) (c : SmCall) :
    (modemRx c i m rx).bm = c.bm ∧ (modemRx c i m rx).v8Done = c.v8Done ∧
      (modemRx c i m rx).rxGuard = c.rxGuard := by
  unfold modemRx
  generalize List.range m = ks
  induction ks generalizing c with
  | nil => exact ⟨rfl, rfl, rfl⟩
  | cons k ks ih =>
      obtain ⟨hbm, hdone, hguard⟩ := ih (modemRxSample c (rx (i + k)))
      have hframe := rxOuts_frame (v22bisRxSample c.modem (rx (i + k))).2
        (receiveSample c (rx (i + k)))
      have hout := rxOuts_v8Done (v22bisRxSample c.modem (rx (i + k))).2
        (receiveSample c (rx (i + k)))
      exact ⟨hbm.trans hframe.bm, hdone.trans hout, hguard.trans hframe.rxGuard⟩

theorem engineEvents_fields (events : List EngineEvent) (c : SmCall) :
    (engineEvents c events).v8Done = c.v8Done ∧ (engineEvents c events).rxGuard = c.rxGuard := by
  induction events generalizing c with
  | nil => exact ⟨rfl, rfl⟩
  | cons event events ih =>
      obtain ⟨hdone, hguard⟩ := ih (engineEvent c event)
      have hevent : (engineEvent c event).v8Done = c.v8Done ∧
          (engineEvent c event).rxGuard = c.rxGuard := by
        cases event with
        | getBit => exact ⟨rfl, rfl⟩
        | putBit bit v34Rate =>
            cases bit with
            | none => exact ⟨rfl, rfl⟩
            | some b =>
                simp only [engineEvent, callPutBit]
                split_ifs <;> exact ⟨rfl, rfl⟩
      exact ⟨hdone.trans hevent.1, hguard.trans hevent.2⟩

theorem touch_kept (c : SmCall) (buffer : AudioBuffer) (start length : Nat) :
    Kept c (touch c buffer start length) := ⟨rfl, rfl, rfl, rfl⟩

theorem soundFrom_kept (c : SmCall) (start length : Nat) (sample : Nat → Pcm) :
    Kept c (soundFrom c start length sample) := ⟨rfl, rfl, rfl, rfl⟩

theorem sound_kept (c : SmCall) (start length : Nat) (sample : Nat → Pcm) :
    Kept c (sound c start length sample) := ⟨rfl, rfl, rfl, rfl⟩

theorem InAudio.received {c : SmCall} (h : InAudio c) (hbm : c.bm = false) (hmode : c.mode = .v22)
    (i m : Nat) (rx : Nat → RxObservation) :
    Transition.Along linkStep Allowed c.link (modemRxEvents c i m rx) ∧
      InAudio (modemRx c i m rx) := by
  have hlink := modemRx_link c i m rx
  obtain ⟨hbm', -, hguard⟩ := modemRx_fields i m rx c
  obtain ⟨hallowed, hup⟩ := fromEngine_allowed (l := c.link)
    (fun e he => modemRxEvents_fromEngine he) ⟨hmode, h.builtin hbm⟩
  refine ⟨hallowed, h.next hlink hallowed (fun _ => hguard.le) ?_ ?_⟩
  · intro hon
    rw [hbm', hbm] at hon
    cases hon
  · intro _
    rw [← hlink] at hup
    exact hup

theorem InAudio.engine {c : SmCall} (h : InAudio c) (hreceptive : Receptive c.link)
    (events : List EngineEvent) :
    Transition.Along linkStep Allowed c.link (events.flatMap engineEventEvents) ∧
      InAudio (engineEvents c events) := by
  have hlink := engineEvents_link c events
  have hbm := engineEvents_bm events c
  obtain ⟨hdone, hguard⟩ := engineEvents_fields events c
  obtain ⟨hallowed, hmode, hup⟩ := bits_allowed (l := c.link)
    (fun e he => engineEvents_bits he) hreceptive
  rw [← hlink] at hmode hup
  refine ⟨hallowed, h.next hlink hallowed (fun _ => hguard.le) ?_ ?_⟩
  · intro hon
    obtain ⟨hv22, hno⟩ := h.call.bm (hbm ▸ hon)
    exact ⟨hmode.trans hv22, hdone.trans hno⟩
  · intro hoff
    exact hup (h.builtin (hbm ▸ hoff))

theorem v8Chunk_kept (c : SmCall) (i m : Nat) (e : AudioEnv) :
    (v8Chunk c i m e).bm = c.bm ∧ (v8Chunk c i m e).rxGuard = c.rxGuard := by
  simp only [v8Chunk]
  split
  · have hsounded := soundFrom_kept c i (min e.v8Sent m) .v8
    have hsilenced := sound_kept (soundFrom c i (min e.v8Sent m) .v8) (i + min e.v8Sent m)
      (m - min e.v8Sent m) fun _ => .silence
    have hreports := v8Reports_line e.v8Reports (sound (soundFrom c i (min e.v8Sent m) .v8)
      (i + min e.v8Sent m) (m - min e.v8Sent m) fun _ => .silence)
    have htouched := touch_kept (v8Reports (sound (soundFrom c i (min e.v8Sent m) .v8)
      (i + min e.v8Sent m) (m - min e.v8Sent m) fun _ => .silence) e.v8Reports) .input i m
    constructor
    · rw [htouched.bm, hreports.bm, hsilenced.bm, hsounded.bm]
    · rw [htouched.rxGuard, hreports.rxGuard, hsilenced.rxGuard, hsounded.rxGuard]
  · exact ⟨rfl, rfl⟩

theorem toneSample_kept (h : InAudio c) (i : Nat) (hfits : OpFits c (.tone i)) :
    OpKept c (.tone i) := by
  obtain ⟨hbm, hphase⟩ := hfits
  have hfields : (toneSample c i).bm = c.bm ∧ (toneSample c i).rxGuard = c.rxGuard := by
    simp only [toneSample, toneOutput]
    split_ifs <;> exact ⟨rfl, rfl⟩
  have hallowed : Transition.Along linkStep Allowed c.link (toneEvents c i) := by
    unfold toneEvents
    split
    · exact ⟨.inl ⟨hphase, rfl⟩, trivial⟩
    · trivial
  have hlink := toneSample_link c i
  refine ⟨hallowed, h.next hlink hallowed (fun _ => hfields.2.le) ?_ ?_⟩
  · intro hon
    have hoff := hfields.1.trans hbm
    rw [show (toneSample c i).bm = true from hon] at hoff
    cases hoff
  · intro _
    have hafter : (toneSample c i).phase =
        (Transition.run linkStep c.link (toneEvents c i)).phase := congrArg Link.phase hlink
    rw [show (audioOp c (.tone i)).phase = (toneSample c i).phase from rfl, hafter]
    unfold toneEvents
    split
    · simp [linkStep]
    · simp [SmCall.link, hphase]

theorem InAudio.squelched (h : InAudio c) (m : Nat) :
    InAudio { c with rxGuard := c.rxGuard - m } := by
  refine ⟨⟨h.call.link, h.call.bm, ?_⟩, h.builtin⟩
  intro hguarded
  have hzero := h.call.guard hguarded
  simp only
  omega

theorem startV34_inAudio (h : InAudio c) (hphase : c.phase = .v8) (hbm : c.bm = false) :
    InAudio (startV34 c) := by
  have hlink : (startV34 c).link = Transition.run linkStep c.link [.startV34] := rfl
  refine h.next hlink ⟨hphase, trivial⟩ (fun _ => le_rfl) ?_ (by simp [startV34])
  intro hon
  rw [show (startV34 c).bm = c.bm from rfl, hbm] at hon
  cases hon

theorem startV22_inAudio (h : InAudio c) (hphase : c.phase = .v8) (hbm : c.bm = false) (ok : Nat) :
    InAudio (startV22 { c with v8Ok := ok }) := by
  have hlink : (startV22 { c with v8Ok := ok }).link =
      Transition.run linkStep c.link [.startV22] := rfl
  have hallowed : Allowed c.link .startV22 :=
    ⟨by simp [SmCall.link, hphase], (h.call.link.v8 hphase).1⟩
  refine h.next hlink ⟨hallowed, trivial⟩ ?_ ?_ (by simp [startV22])
  · rintro (hv8 | hv34)
    · cases hv8
    · cases hv34
  · intro hon
    rw [show (startV22 { c with v8Ok := ok }).bm = c.bm from rfl, hbm] at hon
    cases hon

theorem v8Transition_kept (h : InAudio c) (e : AudioEnv) : OpKept c (.transition e) := by
  have hbm : c.v8Done = true → c.bm = false := by
    intro hdone
    cases hon : c.bm with
    | false => rfl
    | true => simp [(h.call.bm hon).2] at hdone
  simp only [OpKept, audioOp, opEvents, v8Transition, v8TransitionEvents]
  split_ifs with hcond hv34 hcreated hforced hcreated
  · exact ⟨⟨hcond.1, trivial⟩, startV34_inAudio h hcond.1 (hbm hcond.2)⟩
  · refine ⟨⟨⟨?_, (h.call.link.v8 hcond.1).1⟩, trivial⟩,
      startV22_inAudio h hcond.1 (hbm hcond.2) 1⟩
    simp [SmCall.link, hcond.1]
  · exact ⟨⟨hcond.1, trivial⟩, startV34_inAudio h hcond.1 (hbm hcond.2)⟩
  · exact ⟨trivial, h⟩
  · refine ⟨⟨⟨?_, (h.call.link.v8 hcond.1).1⟩, trivial⟩,
      startV22_inAudio h hcond.1 (hbm hcond.2) c.v8Ok⟩
    simp [SmCall.link, hcond.1]
  · exact ⟨trivial, h⟩

theorem dataModeDetection_kept (h : InAudio c) : OpKept c .detect := by
  have hline := dataModeDetection_line c
  have hlink := dataModeDetection_link c
  have hdone : (dataModeDetection c).v8Done = c.v8Done := by
    unfold dataModeDetection
    split <;> rfl
  have hallowed : Transition.Along linkStep Allowed c.link (detectionEvents c) := by
    unfold detectionEvents
    split
    · rename_i hcond
      refine ⟨⟨?_, ?_, hcond.1⟩, trivial⟩ <;> simp [SmCall.link, hcond.2.1]
    · trivial
  refine ⟨hallowed, h.next hlink hallowed (fun _ => hline.rxGuard.le) ?_ ?_⟩
  · intro hon
    obtain ⟨hmode, hno⟩ := h.call.bm (hline.bm ▸ hon)
    exact ⟨hline.mode.trans hmode, hdone.trans hno⟩
  · intro hoff
    have hup := h.builtin (hline.bm ▸ hoff)
    simp only [audioOp, dataModeDetection]
    split
    · simp [enterData]
    · exact hup

theorem audioOp_kept (h : InAudio c) (op : AudioOp) (hfits : OpFits c op) : OpKept c op := by
  cases op with
  | start => exact ⟨trivial, h.kept ⟨rfl, rfl, rfl, rfl⟩⟩
  | capture payload n => exact ⟨trivial, h.kept (captureChunk_kept c payload n)⟩
  | poll n o => exact bmPoll_kept h n o hfits
  | bm n e =>
      obtain ⟨hmode, -⟩ := h.call.bm hfits
      obtain ⟨hallowed, hengine⟩ := h.engine (.inl hmode) e.engine
      have htouched := hengine.kept (touch_kept _ .input 0 n)
      exact ⟨hallowed, htouched.kept (soundFrom_kept _ 0 n .bm)⟩
  | v8 i m e =>
      have hbm : c.bm = false := hfits
      obtain ⟨hbm', hguard⟩ := v8Chunk_kept c i m e
      have hlink : (v8Chunk c i m e).link = Transition.run linkStep c.link [] :=
        v8Chunk_link c i m e
      refine ⟨trivial, h.next hlink trivial (fun _ => hguard.le) ?_ ?_⟩
      · intro hon
        rw [show (audioOp c (.v8 i m e)).bm = c.bm from hbm', hbm] at hon
        cases hon
      · intro _
        rw [show (audioOp c (.v8 i m e)).phase = c.phase from congrArg Link.phase hlink]
        exact h.builtin hbm
  | tone i => exact toneSample_kept h i hfits
  | transmit i m => exact ⟨trivial, h.kept (modemTx_kept c i m)⟩
  | squelch i m rx =>
      have htouched := h.kept (touch_kept c .rxsquelch 0 m)
      obtain ⟨hallowed, hrx⟩ := htouched.received hfits.1 hfits.2 i m rx
      rw [touch_link] at hallowed
      exact ⟨hallowed, hrx.squelched m⟩
  | receive i m rx =>
      exact (h.kept (touch_kept c .input i m)).received hfits.1 hfits.2 i m rx
  | v34 i m e =>
      have hsounded := h.kept (soundFrom_kept c i m .v34)
      have htouched := hsounded.kept (touch_kept _ .input i m)
      have hreceptive : Receptive (touch (soundFrom c i m .v34) .input i m).link := by
        rw [touch_link, soundFrom_link]
        exact .inr (h.builtin hfits)
      have hengine := htouched.engine hreceptive e.engine
      rw [touch_link, soundFrom_link] at hengine
      exact hengine
  | transition e => exact v8Transition_kept h e
  | detect => exact dataModeDetection_kept h
  | finish payload n => exact ⟨trivial, h.kept ⟨rfl, rfl, rfl, rfl⟩⟩

theorem ops_kept (ops : List AudioOp) (h : InAudio c)
    (hfits : Transition.Along audioOp OpFits c ops) :
    Transition.Along linkStep Allowed c.link (Transition.expand audioOp opEvents c ops) ∧
      InAudio (Transition.run audioOp c ops) := by
  induction ops generalizing c with
  | nil => exact ⟨trivial, h⟩
  | cons op ops ih =>
      obtain ⟨hallowed, hnext⟩ := audioOp_kept h op hfits.1
      obtain ⟨hrest, hafter⟩ := ih hnext hfits.2
      refine ⟨?_, hafter⟩
      rw [Transition.expand, Transition.along_append, ← audioOp_link]
      exact ⟨hallowed, hrest⟩

structure Builtin (c : SmCall) : Prop where
  bm : c.bm = false
  guard : c.mode = .v34 → c.rxGuard = 0

theorem mode_v22 (h : c.mode ≠ .v34) : c.mode = .v22 := by
  cases hmode : c.mode with
  | v22 => rfl
  | v34 => exact absurd hmode h

theorem modemTx_mode (c : SmCall) (i m : Nat) : (modemTx c i m).mode = c.mode :=
  congrArg Link.mode (modemTx_link c i m)

theorem guardOps_fit (h : Builtin c) (i m : Nat) (e : AudioEnv) :
    Transition.Along audioOp OpFits c (guardOps c i m e) := by
  unfold guardOps
  split
  · rename_i hguard
    have hmode : c.mode = .v22 := by
      apply mode_v22
      intro hv34
      have hzero := h.guard hv34
      omega
    exact ⟨trivial, ⟨(modemTx_kept c i _).bm.trans h.bm, (modemTx_mode c i _).trans hmode⟩, trivial⟩
  · trivial

theorem engineOps_fit (hbm : c.bm = false) (i m : Nat) (e : AudioEnv) :
    Transition.Along audioOp OpFits c (engineOps c i m e) := by
  unfold engineOps
  split_ifs with hzero hmode
  · trivial
  · exact ⟨hbm, trivial⟩
  · exact ⟨trivial, ⟨(modemTx_kept c i m).bm.trans hbm, (modemTx_mode c i m).trans (mode_v22 hmode)⟩,
      trivial⟩

theorem guardChunk_bm (c : SmCall) (i m : Nat) (e : AudioEnv) :
    (guardChunk c i m e).1.bm = c.bm := by
  simp only [guardChunk]
  split
  · have hrx := (modemRx_fields i (min m c.rxGuard) e.rx
      (touch (modemTx c i (min m c.rxGuard)) .rxsquelch 0 (min m c.rxGuard))).1
    exact hrx.trans (modemTx_kept c i (min m c.rxGuard)).bm
  · rfl

theorem toneSample_builtin (h : Builtin c) (i : Nat) : Builtin (toneSample c i) := by
  simp only [toneSample, toneOutput]
  split_ifs <;> exact ⟨h.bm, h.guard⟩

theorem loopOps_fit (h : Builtin c) (n left : Nat) (e : AudioEnv) :
    Transition.Along audioOp OpFits c (loopOps n e left c) := by
  induction left generalizing c with
  | zero => trivial
  | succ left ih =>
      have hengine : Transition.Along audioOp OpFits c
          (guardOps c (n - (left + 1)) (left + 1) e ++
            engineOps (guardChunk c (n - (left + 1)) (left + 1) e).1
              (n - (left + 1) + (guardChunk c (n - (left + 1)) (left + 1) e).2)
              (left + 1 - (guardChunk c (n - (left + 1)) (left + 1) e).2) e) := by
        rw [Transition.along_append, guardOps_run]
        exact ⟨guardOps_fit h _ _ e, engineOps_fit ((guardChunk_bm _ _ _ _).trans h.bm) _ _ e⟩
      simp only [loopOps]
      cases hphase : c.phase with
      | v8 => exact ⟨h.bm, trivial⟩
      | answerTone =>
          exact ⟨⟨h.bm, hphase⟩, ih (toneSample_builtin h (n - (left + 1)))⟩
      | idle => exact hengine
      | handshake => exact hengine
      | data => exact hengine
      | hangup => exact hengine

theorem runOps_fit (h : c.bm = false → Builtin c) (n : Nat) (e : AudioEnv) :
    Transition.Along audioOp OpFits c (runOps c n e) := by
  unfold runOps
  split
  · exact ⟨‹_›, trivial⟩
  · exact loopOps_fit (h (by simpa using ‹¬ c.bm = true›)) n n e

theorem pollEngine_builtin (h : CallInv c) (n : Nat) (e : AudioEnv)
    (hbm : (pollEngine c n e).bm = false) : Builtin (pollEngine c n e) := by
  unfold pollEngine at hbm ⊢
  split at hbm
  · rename_i hon
    rw [if_pos hon]
    rcases bmPoll_cases c n e.bm with hback | ⟨hbm', -⟩
    · rw [hback]
      exact ⟨rfl, fun hv34 => by cases hv34⟩
    · rw [hbm', hon] at hbm
      cases hbm
  · rename_i hoff
    rw [if_neg hoff]
    exact ⟨hbm, fun hv34 => h.guard (.inr hv34)⟩

theorem audioOps_fit (h : CallInv c) (hup : c.phase ≠ .hangup) (payload : List UInt8) (n : Nat)
    (e : AudioEnv) : Transition.Along audioOp OpFits c (audioOps c payload n e) := by
  have hcapture : Kept c (captureChunk (audioStart c) payload n) := by
    have hkept := captureChunk_kept (audioStart c) payload n
    exact ⟨hkept.link, hkept.bm, hkept.v8Done, hkept.rxGuard⟩
  have hphase : (captureChunk (audioStart c) payload n).phase ≠ .hangup := by
    rw [show (captureChunk (audioStart c) payload n).phase = c.phase from
      congrArg Link.phase hcapture.link]
    exact hup
  have hcaptured := h.kept hcapture
  unfold audioOps
  simp only [Transition.along_append, Transition.run_append, Transition.run_cons,
    Transition.run_nil, audioOp, pollOps_run, runOps_run]
  refine ⟨⟨⟨⟨trivial, trivial, trivial⟩, ?_⟩, ?_⟩, ⟨trivial, trivial, trivial, trivial⟩⟩
  · unfold pollOps
    split
    · exact ⟨⟨‹_›, hphase⟩, trivial⟩
    · trivial
  · exact runOps_fit (fun hbm => pollEngine_builtin hcaptured n e hbm) n e

end Ops

theorem audio_allowed {a : AudioTurn} (h : CallInv a.call) (hup : a.call.phase ≠ .hangup)
    (e : AudioEnv) :
    Transition.Along linkStep Allowed a.call.link
        (Transition.expand audioOp opEvents a.call (a.ops e)) ∧ CallInv (a.after e) := by
  have hfits := audioOps_fit h hup a.payload a.samples e
  obtain ⟨hallowed, hafter⟩ := ops_kept _ ⟨h, fun _ => hup⟩ hfits
  refine ⟨hallowed, ?_⟩
  rw [audioOps_run] at hafter
  exact hafter.call

theorem pump_allowed {c : SmCall} (h : CallInv c) (e : PumpEnv) :
    Transition.Along linkStep Allowed c.link (pumpEvents c e) ∧ CallInv (pumpPpp c e) := by
  have hallowed : Transition.Along linkStep Allowed c.link (pumpEvents c e) := by
    unfold pumpEvents
    split_ifs with hfails hdata
    · exact ⟨.inr rfl, trivial⟩
    · exact ⟨hdata, trivial⟩
    · trivial
  refine ⟨hallowed, ?_⟩
  have hlink := pumpPpp_link c e
  have hinv : LinkInv (pumpPpp c e).link := by
    rw [hlink]
    exact Transition.along_invariant (fun _ _ hl he => linkInv_step hl he) _ h.link hallowed
  rcases pumpPpp_cases c e with hframe | hfailed
  · refine ⟨hinv, ?_, ?_⟩
    · rw [hframe.bm, hframe.mode, hframe.v8Done]
      exact h.bm
    · rw [hframe.phase, hframe.mode, hframe.rxGuard]
      exact h.guard
  · rw [hfailed] at hinv ⊢
    refine ⟨hinv, h.bm, ?_⟩
    rintro (hv8 | hv34)
    · cases hv8
    · exact h.guard (.inr hv34)

theorem Closing.callInv {c c' : SmCall} (h : Closing c c') (hc : CallInv c) : CallInv c' := by
  cases h with
  | going => exact hc
  | closed => exact ⟨hc.link, fun hon => Bool.noConfusion hon, hc.guard⟩

structure RunInv (s : CallRun) : Prop where
  call : CallInv s.call
  first : s.stage = .firstMessage → s.call.phase ≠ .hangup

theorem audioOf_up {s : CallRun} {a : AudioTurn} (h : RunInv s) (haudio : audioOf s = some a) :
    s.call.phase ≠ .hangup := by
  unfold audioOf at haudio
  split at haudio
  · rename_i hstage _
    exact h.first hstage
  · split at haudio
    · rename_i hcond
      exact hcond.1
    · cases haudio
  · cases haudio

theorem turn_allowed {s : CallRun} (h : RunInv s) (t : Turn) :
    Transition.Along linkStep Allowed s.call.link (turnEvents s t) ∧ RunInv (smCallTurn s t) := by
  have hfirst : (smCallTurn s t).stage = .firstMessage →
      (smCallTurn s t).call.phase ≠ .hangup := by
    intro hstage
    obtain ⟨hbefore, as, hcall⟩ := turn_waiting hstage
    rw [hcall]
    exact h.first hbefore
  rcases haudio : audioOf s with _ | a
  · obtain ⟨c, hbetween, hclosing⟩ := quiet_turn haudio t
    cases hbetween with
    | read as hstage =>
        rw [turnEvents_read haudio hstage]
        exact ⟨trivial, hclosing.callInv (h.call.kept ⟨rfl, rfl, rfl, rfl⟩), hfirst⟩
    | pumped hstage =>
        obtain ⟨hallowed, hpumped⟩ := pump_allowed h.call t.pump
        rw [turnEvents_pump hstage]
        exact ⟨hallowed, hclosing.callInv hpumped, hfirst⟩
  · obtain ⟨⟨as, ha⟩, hclosing⟩ := audioOf_turn haudio t
    have hup : a.call.phase ≠ .hangup := by
      rw [ha]
      exact audioOf_up h haudio
    have hcall : CallInv a.call := by
      rw [ha]
      exact h.call.kept ⟨rfl, rfl, rfl, rfl⟩
    obtain ⟨hallowed, hafter⟩ := audio_allowed hcall hup t.audio
    have hlink : a.call.link = s.call.link := by
      rw [ha]
      rfl
    rw [turnEvents_audio haudio, ← hlink]
    exact ⟨hallowed, hclosing.callInv hafter, hfirst⟩

theorem call_allowed {s : CallRun} (h : RunInv s) (turns : List Turn) :
    Transition.Along linkStep Allowed s.call.link (callEvents s turns) := by
  have halong : Transition.Along smCallTurn
      (fun s t => Transition.Along linkStep Allowed s.call.link (turnEvents s t)) s turns := by
    induction turns generalizing s with
    | nil => trivial
    | cons t turns ih =>
        obtain ⟨hallowed, hnext⟩ := turn_allowed h t
        exact ⟨hallowed, ih hnext⟩
  exact @Transition.along_expand _ _ _ _ smCallTurn turnEvents (fun s : CallRun => s.call.link)
    linkStep Allowed turn_link s turns halong

theorem init_link (cfg : SmCallConfig) (r : InitResults) :
    (smCallInit cfg r).mode = .v22 ∧ (smCallInit cfg r).deframer = smDeframerInit ∧
      (smCallInit cfg r).phase ≠ .data ∧ (smCallInit cfg r).phase ≠ .hangup ∧
      (smCallInit cfg r).rxGuard = 0 ∧ (smCallInit cfg r).v8Done = false := by
  simp only [smCallInit, startAnswer]
  split_ifs <;> simp [smCallZero]

theorem start_runInv (cfg : SmCallConfig) (r : InitResults) (peer : Peer) :
    RunInv (smCallStart (smCallInit cfg r) peer) := by
  obtain ⟨hmode, hdeframer, -, hup, hguard, hdone⟩ := init_link cfg r
  have hlink : LinkInv (smCallInit cfg r).link := by
    refine ⟨fun _ => ⟨hmode, hdeframer⟩, ?_⟩
    intro hv34
    rw [show (smCallInit cfg r).link.mode = .v22 from hmode] at hv34
    cases hv34
  exact ⟨⟨hlink, fun _ => ⟨hmode, hdone⟩, fun _ => hguard⟩, fun _ => hup⟩

theorem no_byte_mixes_two_periods (cfg : SmCallConfig) (r : InitResults) (peer : Peer)
    (turns : List Turn) :
    (smCallRun cfg r peer turns).call.link =
        Transition.run linkStep (smCallInit cfg r).link
          (callEvents (smCallStart (smCallInit cfg r) peer) turns) ∧
      OnePeriodAByte (smCallInit cfg r).link
        (callEvents (smCallStart (smCallInit cfg r) peer) turns) := by
  have hstart := start_runInv cfg r peer
  have hallowed := call_allowed hstart turns
  refine ⟨call_link (smCallStart (smCallInit cfg r) peer) turns, ?_⟩
  exact one_period_a_byte hstart.call.link (init_link cfg r).2.2.1 hallowed

end Softmodem.Call

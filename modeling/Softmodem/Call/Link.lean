import Softmodem.Lib.Expansion
import Softmodem.Call.Line

namespace Softmodem.Call

open AudioSocket Serial V22bis

inductive LinkEvent where
  | bit (b : Bool)
  | retrain
  | enter
  | become (phase : SmCallPhase)
  | startV34
  | startV22
  | take
  deriving DecidableEq, Repr

structure Link where
  mode : SmCallMode
  phase : SmCallPhase
  deframer : SmDeframer
  taken : List UInt8
  deriving DecidableEq, Repr

def SmCall.link (c : SmCall) : Link := ⟨c.mode, c.phase, c.deframer, c.history.taken⟩

def linkStep (l : Link) : LinkEvent → Link
  | .bit b =>
      if l.mode = .v34 then { l with phase := .data, deframer := smDeframerBit l.deframer b }
      else if l.phase = .data then { l with deframer := smDeframerBit l.deframer b }
      else l
  | .retrain => { l with deframer := smDeframerInit, phase := .handshake }
  | .enter => { l with deframer := smDeframerInit, phase := .data }
  | .become phase => { l with phase := phase }
  | .startV34 => { l with mode := .v34, phase := .handshake }
  | .startV22 => { l with mode := .v22, phase := .handshake }
  | .take =>
      { l with
        deframer := (smDeframerTake l.deframer 256).1
        taken := l.taken ++ (smDeframerTake l.deframer 256).2.1 }

def rxOutEvents : RxOut → List LinkEvent
  | .status st => if st = .retrainOccurred then [.retrain] else []
  | .bit b => [.bit b]

def engineEventEvents : EngineEvent → List LinkEvent
  | .getBit => []
  | .putBit none _ => []
  | .putBit (some b) _ => [.bit b]

def modemRxEvents (c : SmCall) (i m : Nat) (rx : Nat → RxObservation) : List LinkEvent :=
  Transition.expand (fun c k => modemRxSample c (rx (i + k)))
    (fun c k => (v22bisRxSample c.modem (rx (i + k))).2.flatMap rxOutEvents) c (List.range m)

def bmPollEvents (c : SmCall) (n : Nat) (o : BmObservation) : List LinkEvent :=
  match o.status with
  | .running => []
  | .failed => [.become .hangup]
  | .agreedV22 => [.startV22]
  | .agreedOther => [.startV22]
  | .retraining => if c.phase = .data then [.retrain] else []
  | .connected =>
      (if c.phase ≠ .data then [.enter] else []) ++
        if o.carrier = false ∧ c.bmNocarrier + n ≥ smSampleRate / 2 then [.become .hangup] else []

def toneEvents (c : SmCall) (i : Nat) : List LinkEvent :=
  if (toneOutput c i).silenceSamplesLeft ≤ 0 ∧ (toneOutput c i).toneSamplesLeft ≤ 0 then
    [.become .handshake]
  else []

def v8TransitionEvents (c : SmCall) (e : AudioEnv) : List LinkEvent :=
  if c.phase = .v8 ∧ c.v8Done then
    if c.v8Ok = 2 then if e.v34Created then [.startV34] else [.startV22]
    else if c.cfg.useV34 ∧ c.v8Ok = 0 then if e.v34Created then [.startV34] else []
    else [.startV22]
  else []

def detectionEvents (c : SmCall) : List LinkEvent :=
  if c.mode = .v22 ∧ c.phase = .handshake ∧ c.bm = false ∧
      c.modem.tx.training = .normalOperation ∧ c.modem.rx.training = .normalOperation then
    [.enter]
  else []

def opEvents (c : SmCall) : AudioOp → List LinkEvent
  | .poll n o => bmPollEvents c n o
  | .bm _ e => e.engine.flatMap engineEventEvents
  | .tone i => toneEvents c i
  | .squelch i m rx => modemRxEvents (touch c .rxsquelch 0 m) i m rx
  | .receive i m rx => modemRxEvents (touch c .input i m) i m rx
  | .v34 _ _ e => e.engine.flatMap engineEventEvents
  | .transition e => v8TransitionEvents c e
  | .detect => detectionEvents c
  | _ => []

def pumpEvents (c : SmCall) (e : PumpEnv) : List LinkEvent :=
  if needsPppd c ∧ e.spawned = false then [.become .hangup]
  else if c.phase = .data then [.take]
  else []

def turnEvents (s : CallRun) (t : Turn) : List LinkEvent :=
  match s.stage with
  | .pump _ => pumpEvents s.call t.pump
  | _ =>
      match audioOf s with
      | some a => Transition.expand audioOp opEvents a.call (a.ops t.audio)
      | none => []

def callEvents (s : CallRun) (turns : List Turn) : List LinkEvent :=
  Transition.expand smCallTurn turnEvents s turns

section Projection

variable {c : SmCall}

theorem links_foldl {α : Type*} (f : SmCall → α → SmCall) (events : α → List LinkEvent)
    (h : ∀ c a, (f c a).link = Transition.run linkStep c.link (events a)) (c : SmCall) (as : List α) :
    (as.foldl f c).link = Transition.run linkStep c.link (as.flatMap events) := by
  induction as generalizing c with
  | nil => rfl
  | cons a as ih => rw [List.foldl_cons, ih, h, List.flatMap_cons, Transition.run_append]

theorem callPutBit_link (c : SmCall) (b : Bool) (v34Rate : Nat) :
    (callPutBit c (some b) v34Rate).link = linkStep c.link (.bit b) := by
  simp only [callPutBit, linkStep, SmCall.link]
  rcases eq_or_ne c.mode .v34 with hmode | hmode
  · rcases eq_or_ne c.phase .data with hphase | hphase <;>
      simp [hmode, hphase, deliverBit, enterData]
  · rcases eq_or_ne c.phase .data with hphase | hphase <;> simp [hmode, hphase, deliverBit]

theorem callStatus_link (c : SmCall) (st : Status) :
    (callStatus c st).link = Transition.run linkStep c.link (rxOutEvents (.status st)) := by
  unfold callStatus rxOutEvents
  dsimp only
  split <;> rfl

theorem rxOut_link (c : SmCall) (out : RxOut) :
    (rxOut c out).link = Transition.run linkStep c.link (rxOutEvents out) := by
  cases out with
  | status st => exact callStatus_link c st
  | bit b => exact callPutBit_link c b 0

theorem modemRxSample_link (c : SmCall) (o : RxObservation) :
    (modemRxSample c o).link =
      Transition.run linkStep c.link ((v22bisRxSample c.modem o).2.flatMap rxOutEvents) :=
  links_foldl rxOut rxOutEvents rxOut_link (receiveSample c o) _

theorem modemRx_link (c : SmCall) (i m : Nat) (rx : Nat → RxObservation) :
    (modemRx c i m rx).link = Transition.run linkStep c.link (modemRxEvents c i m rx) := by
  unfold modemRx modemRxEvents
  rw [← Transition.run_eq_foldl]
  exact Transition.run_expand (fun c k => modemRxSample_link c (rx (i + k))) c (List.range m)

theorem engineEvent_link (c : SmCall) (event : EngineEvent) :
    (engineEvent c event).link = Transition.run linkStep c.link (engineEventEvents event) := by
  cases event with
  | getBit => rfl
  | putBit bit v34Rate =>
      cases bit with
      | none => rfl
      | some b => exact callPutBit_link c b v34Rate

theorem engineEvents_link (c : SmCall) (events : List EngineEvent) :
    (engineEvents c events).link =
      Transition.run linkStep c.link (events.flatMap engineEventEvents) :=
  links_foldl engineEvent engineEventEvents engineEvent_link c events

theorem pulls_link {c c' : SmCall} (h : Pulls callGetBit c c') : c'.link = c.link := by
  induction h with
  | refl => rfl
  | tail _ hlast ih =>
      subst hlast
      exact ih

theorem soundFrom_link (c : SmCall) (start length : Nat) (sample : Nat → Pcm) :
    (soundFrom c start length sample).link = c.link := rfl

theorem sound_link (c : SmCall) (start length : Nat) (sample : Nat → Pcm) :
    (sound c start length sample).link = c.link := rfl

theorem touch_link (c : SmCall) (buffer : AudioBuffer) (start length : Nat) :
    (touch c buffer start length).link = c.link := rfl

theorem modemTx_link (c : SmCall) (i m : Nat) : (modemTx c i m).link = c.link := by
  have hretrain := v22bisTx_retrain callGetBit m c.modem c
  have hpulls := (v22bisTx_spec callGetBit m c.modem c).2.2
  rcases heq : v22bisTx callGetBit m c.modem c with ⟨sent, s, statuses, d⟩
  simp only [heq] at hretrain hpulls
  simp only [modemTx, heq, callStatuses_plain hretrain]
  have hpulled := pulls_link hpulls
  exact (soundFrom_link _ i sent .v22).trans hpulled

theorem bmConnect_link (c : SmCall) (rate : Nat) :
    (bmConnect c rate).link =
      Transition.run linkStep c.link (if c.phase ≠ .data then [.enter] else []) := by
  unfold bmConnect
  split <;> rfl

theorem bmConnect_nocarrier (c : SmCall) (rate : Nat) :
    (bmConnect c rate).bmNocarrier = c.bmNocarrier := by
  unfold bmConnect
  split <;> rfl

theorem bmWatchCarrier_link (c : SmCall) (n : Nat) (carrier : Bool) :
    (bmWatchCarrier c n carrier).link = Transition.run linkStep c.link
      (if carrier = false ∧ c.bmNocarrier + n ≥ smSampleRate / 2 then [.become .hangup]
      else []) := by
  unfold bmWatchCarrier
  cases carrier with
  | true => rfl
  | false =>
      simp only [Bool.false_eq_true, if_false, true_and]
      split <;> rfl

theorem bmPoll_link (c : SmCall) (n : Nat) (o : BmObservation) :
    (bmPoll c n o).link = Transition.run linkStep c.link (bmPollEvents c n o) := by
  unfold bmPoll bmPollEvents
  cases o.status with
  | retraining =>
      simp only
      split <;> rfl
  | connected =>
      simp only
      rw [bmWatchCarrier_link, bmConnect_link, bmConnect_nocarrier, Transition.run_append]
  | _ => rfl

theorem toneSample_link (c : SmCall) (i : Nat) :
    (toneSample c i).link = Transition.run linkStep c.link (toneEvents c i) := by
  have hout : (toneOutput c i).link = c.link := by
    unfold toneOutput
    split_ifs <;> rfl
  simp only [toneSample, toneEvents]
  split
  · rw [← hout]
    rfl
  · exact hout

theorem v8Reports_link (reports : List V8Report) (c : SmCall) :
    (v8Reports c reports).link = c.link := by
  induction reports generalizing c with
  | nil => rfl
  | cons report reports ih =>
      obtain ⟨done, ok, heq⟩ := callV8Result_eq c report.status report.modulations
      have hreport : (callV8Result c report.status report.modulations).link = c.link := by
        rw [heq]
        rfl
      exact (ih _).trans hreport

theorem v8Chunk_link (c : SmCall) (i m : Nat) (e : AudioEnv) : (v8Chunk c i m e).link = c.link := by
  simp only [v8Chunk]
  split
  · rw [touch_link, v8Reports_link, sound_link, soundFrom_link]
  · rfl

theorem v8Transition_link (c : SmCall) (e : AudioEnv) :
    (v8Transition c e).link = Transition.run linkStep c.link (v8TransitionEvents c e) := by
  unfold v8Transition v8TransitionEvents
  split_ifs <;> rfl

theorem dataModeDetection_link (c : SmCall) :
    (dataModeDetection c).link = Transition.run linkStep c.link (detectionEvents c) := by
  unfold dataModeDetection detectionEvents
  split <;> rfl

theorem captureChunk_link (c : SmCall) (payload : List UInt8) (n : Nat) :
    (captureChunk c payload n).link = c.link := by
  simp only [captureChunk]
  split_ifs <;> rfl

theorem audioOp_link (c : SmCall) (op : AudioOp) :
    (audioOp c op).link = Transition.run linkStep c.link (opEvents c op) := by
  cases op with
  | start => rfl
  | capture payload n => exact captureChunk_link c payload n
  | poll n o => exact bmPoll_link c n o
  | bm n e =>
      simp only [audioOp, bmChunk]
      rw [soundFrom_link, touch_link]
      exact engineEvents_link c e.engine
  | v8 i m e => exact v8Chunk_link c i m e
  | tone i => exact toneSample_link c i
  | transmit i m => exact modemTx_link c i m
  | squelch i m rx =>
      have hrx := modemRx_link (touch c .rxsquelch 0 m) i m rx
      rw [touch_link] at hrx
      simp only [audioOp, squelchRx, opEvents]
      generalize modemRx (touch c .rxsquelch 0 m) i m rx = d at hrx
      exact hrx
  | receive i m rx =>
      have hrx := modemRx_link (touch c .input i m) i m rx
      rw [touch_link] at hrx
      exact hrx
  | v34 i m e =>
      have hevents := engineEvents_link (touch (soundFrom c i m .v34) .input i m) e.engine
      rw [touch_link, soundFrom_link] at hevents
      exact hevents
  | transition e => exact v8Transition_link c e
  | detect => exact dataModeDetection_link c
  | finish payload n => rfl

theorem audioTurn_link (a : AudioTurn) (e : AudioEnv) :
    (a.after e).link =
      Transition.run linkStep a.call.link (Transition.expand audioOp opEvents a.call (a.ops e)) := by
  have hops : Transition.run audioOp a.call (a.ops e) = a.after e :=
    audioOps_run a.call a.payload a.samples e
  rw [← hops]
  exact Transition.run_expand audioOp_link a.call (a.ops e)

theorem pumpMove_link {c c' : SmCall} (h : PumpMove c c') :
    c'.link = c.link := by
  cases h with
  | start spawned =>
      unfold startPppd
      split <;> rfl
  | _ => rfl

theorem pumpMoves_link {c c' : SmCall} (h : PumpMoves c c') : c'.link = c.link := by
  have hkept : ∀ d d', PumpMove d d' → d.link = c.link → d'.link = c.link :=
    fun d d' hmove hd => (pumpMove_link hmove).trans hd
  exact h.invariant hkept rfl

theorem takeBytes_link (c : SmCall) : (takeBytes c).1.link = linkStep c.link .take := by
  simp only [takeBytes, linkStep, SmCall.link]

theorem pumpPpp_link (c : SmCall) (e : PumpEnv) :
    (pumpPpp c e).link = Transition.run linkStep c.link (pumpEvents c e) := by
  unfold pumpEvents
  rcases pumpPpp_outcome c e with ⟨hpumped, hspawned⟩ | ⟨hfails, hfailed⟩
  · rw [if_neg hspawned]
    cases hpumped with
    | moved hphase h =>
        rw [if_neg hphase]
        exact pumpMoves_link h
    | took hphase h h' =>
        rw [if_pos hphase, pumpMoves_link h', takeBytes_link, pumpMoves_link h]
        rfl
  · rw [if_pos hfails, hfailed]
    rfl

theorem Closing.link {c c' : SmCall} (h : Closing c c') : c'.link = c.link := by
  cases h <;> rfl

theorem turnEvents_audio {s : CallRun} {a : AudioTurn} {t : Turn} (h : audioOf s = some a) :
    turnEvents s t = Transition.expand audioOp opEvents a.call (a.ops t.audio) := by
  unfold turnEvents
  split
  · rename_i hstage
    simp [audioOf, hstage] at h
  · rw [h]

theorem turnEvents_read {s : CallRun} {t : Turn} (h : audioOf s = none)
    (hstage : ∀ checkPppd, s.stage ≠ .pump checkPppd) : turnEvents s t = [] := by
  unfold turnEvents
  split
  · exact absurd ‹_› (hstage _)
  · rw [h]

theorem turnEvents_pump {s : CallRun} {t : Turn} {checkPppd : Bool}
    (hstage : s.stage = .pump checkPppd) : turnEvents s t = pumpEvents s.call t.pump := by
  unfold turnEvents
  rw [hstage]

theorem turn_link (s : CallRun) (t : Turn) :
    (smCallTurn s t).call.link = Transition.run linkStep s.call.link (turnEvents s t) := by
  rcases haudio : audioOf s with _ | a
  · obtain ⟨c, hbetween, hclosing⟩ := quiet_turn haudio t
    rw [hclosing.link]
    cases hbetween with
    | read as hstage =>
        rw [turnEvents_read haudio hstage]
        rfl
    | pumped hstage =>
        rw [turnEvents_pump hstage]
        exact pumpPpp_link s.call t.pump
  · obtain ⟨⟨as, ha⟩, hclosing⟩ := audioOf_turn haudio t
    rw [hclosing.link, audioTurn_link, turnEvents_audio haudio, ha]
    rfl

theorem call_link (s : CallRun) (turns : List Turn) :
    (Transition.run smCallTurn s turns).call.link =
      Transition.run linkStep s.call.link (callEvents s turns) :=
  @Transition.run_expand _ _ _ _ smCallTurn turnEvents (fun s : CallRun => s.call.link) linkStep
    turn_link s turns

end Projection

end Softmodem.Call

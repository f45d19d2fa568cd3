import Softmodem.Call.Ops
import Softmodem.Call.PlainCall

namespace Softmodem.Call

open AudioSocket Serial V22bis

inductive RxInput where
  | zero
  | sample (k : Nat)
  deriving DecidableEq, Repr

def AudioOp.heard (base : Nat) : AudioOp → List RxInput
  | .squelch _ m _ => List.replicate m .zero
  | .receive i m _ => (List.range m).map fun k => .sample (base + i + k)
  | _ => []

structure AudioTurn where
  call : SmCall
  payload : List UInt8
  samples : Nat

def AudioTurn.after (a : AudioTurn) (e : AudioEnv) : SmCall :=
  processAudio a.call a.payload a.samples e

def AudioTurn.ops (a : AudioTurn) (e : AudioEnv) : List AudioOp :=
  audioOps a.call a.payload a.samples e

def AudioTurn.played (a : AudioTurn) (e : AudioEnv) : List Pcm :=
  (List.range a.samples).map (a.after e).txbuf

def audioOf (s : CallRun) : Option AudioTurn :=
  match s.stage, readMessage s with
  | .firstMessage, (.message kind payload plen, r) =>
      if kind = smAsKindAudio then some ⟨r.call, payload, plen / 2⟩ else none
  | .message, (.message kind payload plen, r) =>
      if s.call.phase ≠ .hangup ∧ kind = smAsKindAudio then
        some ⟨r.call, payload, audioLength plen / 2⟩
      else none
  | _, _ => none

def AudioTurn.reply (a : AudioTurn) (t : Turn) : List (Pcm × UInt8 × UInt8) :=
  (a.played t.audio).map fun p => (p, t.value p)

def sampleBytes (x : Pcm × UInt8 × UInt8) : List UInt8 := [x.2.1, x.2.2]

-- The audio message that opens the call in place of the UUID is processed and not answered.
def answered (s : CallRun) (a : AudioTurn) (t : Turn) : List (Pcm × UInt8 × UInt8) :=
  if s.stage = .firstMessage then [] else a.reply t

structure Line where
  run : CallRun
  samples : Nat
  sent : List (Pcm × UInt8 × UInt8)
  heard : List RxInput

def lineTurn (l : Line) (t : Turn) : Line :=
  match audioOf l.run with
  | none => { l with run := smCallTurn l.run t }
  | some a =>
      { run := smCallTurn l.run t
        samples := l.samples + a.samples
        sent := l.sent ++ answered l.run a t
        heard := l.heard ++ (a.ops t.audio).flatMap (AudioOp.heard l.samples) }

def onLine (s : CallRun) (turns : List Turn) : Line :=
  Transition.run lineTurn { run := s, samples := 0, sent := [], heard := [] } turns

theorem audioKind_not_uuid {kind : UInt8} {plen : Nat} (h : kind = smAsKindAudio) :
    ¬ (kind = smAsKindUuid ∧ plen ≥ 16) := by
  rintro ⟨huuid, -⟩
  rw [h] at huuid
  revert huuid
  decide

def repliedBytes (s : CallRun) : List UInt8 := s.written.flatMap WriteCall.payload

theorem reply_bytes (a : AudioTurn) (t : Turn) :
    (a.reply t).flatMap sampleBytes = audioBytes (a.after t.audio) a.samples t.value := by
  simp [AudioTurn.reply, AudioTurn.played, audioBytes, List.flatMap_map, sampleBytes]

theorem audio_output {s : CallRun} {a : AudioTurn} (h : audioOf s = some a) (t : Turn) :
    repliedBytes (smCallTurn s t) = repliedBytes s ++ (answered s a t).flatMap sampleBytes := by
  have hread : (readMessage s).2.written = s.written := rfl
  unfold audioOf at h
  rcases hr : readMessage s with ⟨⟨kind, payload, plen⟩ | why, r⟩
  · rw [hr] at h hread
    change r.written = s.written at hread
    cases hstage : s.stage with
    | firstMessage =>
        simp only [hstage] at h
        split at h
        next haudio =>
          obtain rfl := Option.some.inj h
          simp only [smCallTurn, hstage, firstMessage, hr, if_neg (audioKind_not_uuid haudio),
            if_pos haudio, repliedBytes, hread, answered, if_true, List.flatMap_nil, List.append_nil]
        next => cases h
    | message =>
        simp only [hstage] at h
        split at h
        next haudio =>
          obtain rfl := Option.some.inj h
          have hreply : answered s ⟨r.call, payload, audioLength plen / 2⟩ t =
              AudioTurn.reply ⟨r.call, payload, audioLength plen / 2⟩ t :=
            if_neg (by simp [hstage])
          rw [hreply, reply_bytes]
          simp only [smCallTurn, hstage, message, hr, if_neg haudio.1, if_pos haudio.2,
            audioMessage]
          split
          · simp only [finish, repliedBytes, hread, List.flatMap_append, List.flatMap_singleton]
            rfl
          · simp only [repliedBytes, hread, List.flatMap_append, List.flatMap_singleton]
            rfl
        next => cases h
    | pump checkPppd => simp [hstage] at h
    | finished rc => simp [hstage] at h
  · cases hstage : s.stage <;> simp [hr, hstage] at h

theorem quiet_written {s : CallRun} (h : audioOf s = none) (t : Turn) :
    (smCallTurn s t).written = s.written := by
  have hread : (readMessage s).2.written = s.written := rfl
  unfold audioOf at h
  cases hstage : s.stage with
  | firstMessage =>
      simp only [smCallTurn, hstage, firstMessage]
      rcases hr : readMessage s with ⟨⟨kind, payload, plen⟩ | why, r⟩
      · simp only [hr, hstage] at h hread ⊢
        split at h
        next => cases h
        next haudio =>
          rw [if_neg haudio]
          split <;> exact hread
      · simp only [hr] at hread ⊢
        exact hread
  | message =>
      simp only [smCallTurn, hstage, message]
      split
      next => rfl
      next hup =>
        rcases hr : readMessage s with ⟨⟨kind, payload, plen⟩ | why, r⟩
        · simp only [hr, hstage] at h hread ⊢
          split at h
          next => cases h
          next hquiet =>
            rw [if_neg fun haudio => hquiet ⟨hup, haudio⟩]
            split_ifs <;> exact hread
        · simp only [hr] at hread ⊢
          cases why with
          | fail => exact hread
          | timeout =>
              simp only
              split <;> exact hread
  | pump checkPppd =>
      simp only [smCallTurn, hstage, pump]
      split <;> rfl
  | finished rc =>
      simp only [smCallTurn, hstage]

inductive Closing (c : SmCall) : SmCall → Prop where
  | going : Closing c c
  | closed : Closing c (closeCall c)

-- A turn that carries audio: the call hears it, and closes when the reply is not taken.
theorem audioOf_call {s : CallRun} {a : AudioTurn} (h : audioOf s = some a) (t : Turn) :
    (∃ as, a.call = { s.call with as := as }) ∧
      ((smCallTurn s t).call = a.after t.audio ∧ (smCallTurn s t).stage ≠ .firstMessage ∨
        (smCallTurn s t).call = closeCall (a.after t.audio) ∧
          (smCallTurn s t).stage = .finished 0) := by
  obtain ⟨as, hcall, -⟩ := readMessage_call s
  unfold audioOf at h
  rcases hr : readMessage s with ⟨⟨kind, payload, plen⟩ | why, r⟩
  · rw [hr] at h hcall
    cases hstage : s.stage with
    | firstMessage =>
        simp only [hstage] at h
        split at h
        next haudio =>
          obtain rfl := Option.some.inj h
          simp only [smCallTurn, hstage, firstMessage, hr, if_neg (audioKind_not_uuid haudio),
            if_pos haudio]
          exact ⟨⟨as, hcall⟩, .inl ⟨rfl, by simp⟩⟩
        next => cases h
    | message =>
        simp only [hstage] at h
        split at h
        next haudio =>
          obtain rfl := Option.some.inj h
          simp only [smCallTurn, hstage, message, hr, if_neg haudio.1, if_pos haudio.2,
            audioMessage]
          refine ⟨⟨as, hcall⟩, ?_⟩
          split
          · exact .inr ⟨rfl, rfl⟩
          · exact .inl ⟨rfl, by simp⟩
        next => cases h
    | pump checkPppd => simp [hstage] at h
    | finished rc => simp [hstage] at h
  · cases hstage : s.stage <;> simp [hr, hstage] at h

theorem audioOf_turn {s : CallRun} {a : AudioTurn} (h : audioOf s = some a) (t : Turn) :
    (∃ as, a.call = { s.call with as := as }) ∧
      Closing (a.after t.audio) (smCallTurn s t).call := by
  obtain ⟨hsocket, ⟨hcall, -⟩ | ⟨hcall, -⟩⟩ := audioOf_call h t
  · rw [hcall]
    exact ⟨hsocket, .going⟩
  · rw [hcall]
    exact ⟨hsocket, .closed⟩

inductive Between (s : CallRun) (t : Turn) : SmCall → Prop where
  | read (as : SmAstSocket) (h : ∀ checkPppd, s.stage ≠ .pump checkPppd) :
      Between s t { s.call with as := as }
  | pumped {checkPppd : Bool} (h : s.stage = .pump checkPppd) : Between s t (pumpPpp s.call t.pump)

theorem quiet_message {s : CallRun} (hstage : s.stage = .message) (h : audioOf s = none) (t : Turn) :
    ∃ c, Between s t c ∧ Closing c (message s t).call := by
  obtain ⟨as, hcall, -⟩ := readMessage_call s
  have hpump : ∀ checkPppd, s.stage ≠ .pump checkPppd := by simp [hstage]
  unfold message
  split
  · exact ⟨_, .read s.call.as hpump, .closed⟩
  · rename_i hup
    refine ⟨_, .read as hpump, ?_⟩
    rw [← hcall]
    rcases hr : readMessage s with ⟨⟨kind, payload, plen⟩ | why, r⟩
    · have hquiet : ¬ kind = smAsKindAudio := by
        intro haudio
        simp [audioOf, hstage, hr, hup, haudio] at h
      simp only [if_neg hquiet]
      split_ifs
      · exact .closed
      · exact .closed
      · exact .going
    · cases why with
      | fail => exact .closed
      | timeout =>
          simp only
          split
          · exact .closed
          · exact .going

theorem quiet_turn {s : CallRun} (h : audioOf s = none) (t : Turn) :
    ∃ c, Between s t c ∧ Closing c (smCallTurn s t).call := by
  obtain ⟨as, hcall, -⟩ := readMessage_call s
  cases hstage : s.stage with
  | firstMessage =>
      have hpump : ∀ checkPppd, s.stage ≠ .pump checkPppd := by simp [hstage]
      unfold audioOf at h
      simp only [smCallTurn, hstage, firstMessage]
      rcases hr : readMessage s with ⟨⟨kind, payload, plen⟩ | why, r⟩
      · simp only [hr, hstage] at h hcall ⊢
        split at h
        next => cases h
        next haudio =>
          refine ⟨_, .read as hpump, ?_⟩
          rw [if_neg haudio, ← hcall]
          split <;> exact .going
      · simp only [hr] at hcall ⊢
        exact ⟨_, .read as hpump, hcall ▸ .going⟩
  | message =>
      simp only [smCallTurn, hstage]
      exact quiet_message hstage h t
  | pump checkPppd =>
      simp only [smCallTurn, hstage, pump]
      refine ⟨_, .pumped hstage, ?_⟩
      split
      · exact .closed
      · exact .going
  | finished rc =>
      simp only [smCallTurn, hstage]
      exact ⟨_, .read s.call.as (by simp [hstage]), .going⟩

def OnEngine (c : SmCall) : Prop := c.phase ≠ .v8 ∧ c.phase ≠ .answerTone

structure LineFrame (c c' : SmCall) : Prop where
  mode : c'.mode = c.mode
  bm : c'.bm = c.bm
  rxGuard : c'.rxGuard = c.rxGuard
  shutdown : c'.modem.tx.shutdown = c.modem.tx.shutdown
  silence : c'.silenceSamplesLeft = c.silenceSamplesLeft
  tone : c'.toneSamplesLeft = c.toneSamplesLeft
  tonePhase : c'.tonePhase = c.tonePhase
  sounded : c'.history.sounded = c.history.sounded
  txbuf : c'.txbuf = c.txbuf
  phase : c'.phase = c.phase ∨ OnEngine c ∧ OnEngine c'

theorem LineFrame.refl (c : SmCall) : LineFrame c c :=
  ⟨rfl, rfl, rfl, rfl, rfl, rfl, rfl, rfl, rfl, .inl rfl⟩

theorem LineFrame.onEngine {c c' : SmCall} (h : LineFrame c c') (hc : OnEngine c) : OnEngine c' := by
  rcases h.phase with hphase | ⟨-, hc'⟩
  · unfold OnEngine
    rwa [hphase]
  · exact hc'

theorem LineFrame.trans {a b c : SmCall} (h : LineFrame a b) (h' : LineFrame b c) :
    LineFrame a c := by
  refine ⟨h'.mode.trans h.mode, h'.bm.trans h.bm, h'.rxGuard.trans h.rxGuard,
    h'.shutdown.trans h.shutdown, h'.silence.trans h.silence, h'.tone.trans h.tone,
    h'.tonePhase.trans h.tonePhase, h'.sounded.trans h.sounded, h'.txbuf.trans h.txbuf, ?_⟩
  rcases h.phase with hphase | ⟨ha, hb⟩
  · rcases h'.phase with hphase' | ⟨hb, hc⟩
    · exact .inl (hphase'.trans hphase)
    · refine .inr ⟨?_, hc⟩
      unfold OnEngine
      rwa [← hphase]
  · exact .inr ⟨ha, h'.onEngine hb⟩

theorem LineFrame.foldl {α : Type*} {f : SmCall → α → SmCall}
    (hf : ∀ c a, OnEngine c → LineFrame c (f c a)) (as : List α) {c : SmCall} (h : OnEngine c) :
    LineFrame c (as.foldl f c) := by
  induction as generalizing c with
  | nil => exact .refl c
  | cons a as ih => exact (hf c a h).trans (ih ((hf c a h).onEngine h))

theorem rxOut_line {c : SmCall} (h : OnEngine c) (out : RxOut) : LineFrame c (rxOut c out) := by
  cases out with
  | status st =>
      simp only [rxOut, callStatus]
      split
      · exact ⟨rfl, rfl, rfl, rfl, rfl, rfl, rfl, rfl, rfl, .inr ⟨h, by simp [OnEngine]⟩⟩
      · exact .refl c
  | bit b =>
      simp only [rxOut, callPutBit]
      split_ifs
      · exact ⟨rfl, rfl, rfl, rfl, rfl, rfl, rfl, rfl, rfl, .inr ⟨h, by simp [OnEngine, deliverBit, enterData]⟩⟩
      · exact ⟨rfl, rfl, rfl, rfl, rfl, rfl, rfl, rfl, rfl, .inl rfl⟩
      · exact .refl c
      · exact ⟨rfl, rfl, rfl, rfl, rfl, rfl, rfl, rfl, rfl, .inl rfl⟩

theorem modemRxSample_line {c : SmCall} (h : OnEngine c) (o : RxObservation) :
    LineFrame c (modemRxSample c o) := by
  have hreceived : LineFrame c (receiveSample c o) :=
    ⟨rfl, rfl, rfl, v22bisRxSample_shutdown c.modem o, rfl, rfl, rfl, rfl, rfl, .inl rfl⟩
  exact hreceived.trans (LineFrame.foldl (fun c out hc => rxOut_line hc out) _
    (hreceived.onEngine h))

theorem modemRx_line {c : SmCall} (h : OnEngine c) (i m : Nat) (rx : Nat → RxObservation) :
    LineFrame c (modemRx c i m rx) :=
  LineFrame.foldl (fun _ k hc => modemRxSample_line hc (rx (i + k))) _ h

theorem touch_line (c : SmCall) (buffer : AudioBuffer) (start length : Nat) :
    LineFrame c (touch c buffer start length) :=
  ⟨rfl, rfl, rfl, rfl, rfl, rfl, rfl, rfl, rfl, .inl rfl⟩

theorem callGetBit_line (c : SmCall) : LineFrame c (callGetBit c).2 :=
  ⟨rfl, rfl, rfl, rfl, rfl, rfl, rfl, rfl, rfl, .inl rfl⟩

theorem callGetBit_endless (c : SmCall) : (callGetBit c).1.isSome = true := rfl

theorem pulls_line {c c' : SmCall} (h : Pulls callGetBit c c') : LineFrame c c' := by
  induction h with
  | refl => exact .refl c
  | tail _ hlast ih =>
      subst hlast
      exact ih.trans (callGetBit_line _)

theorem soundFrom_keeps (c : SmCall) (start length : Nat) (sample : Nat → Pcm) :
    ∃ spans sounded txbuf, soundFrom c start length sample =
      { c with
        txbuf := txbuf, history := { c.history with spans := spans, sounded := sounded } } :=
  ⟨_, _, _, rfl⟩

theorem LineFrame.soundFrom {c d : SmCall} (h : LineFrame c d) (i m : Nat) (sample : Nat → Pcm) :
    LineFrame (soundFrom c i m sample) (soundFrom d i m sample) := by
  have hsounded : (Call.soundFrom d i m sample).history.sounded =
      (Call.soundFrom c i m sample).history.sounded := congrArg (· + m) h.sounded
  have htxbuf : (Call.soundFrom d i m sample).txbuf = (Call.soundFrom c i m sample).txbuf := by
    funext k
    change (if i ≤ k ∧ k < i + m then sample (d.history.sounded + (k - i)) else d.txbuf k) =
      (if i ≤ k ∧ k < i + m then sample (c.history.sounded + (k - i)) else c.txbuf k)
    rw [h.sounded, h.txbuf]
  obtain ⟨_, _, _, hc⟩ := soundFrom_keeps c i m sample
  obtain ⟨_, _, _, hd⟩ := soundFrom_keeps d i m sample
  rw [hc, hd] at hsounded htxbuf ⊢
  exact ⟨h.mode, h.bm, h.rxGuard, h.shutdown, h.silence, h.tone, h.tonePhase, hsounded, htxbuf,
    h.phase⟩

theorem modemTx_line {c : SmCall} (h : c.modem.tx.shutdown = 0) (i m : Nat) :
    LineFrame (soundFrom c i m .v22) (modemTx c i m) := by
  obtain ⟨hsent, hshut⟩ := v22bisTx_shutdown callGetBit_endless m c h
  have hretrain := v22bisTx_retrain callGetBit m c.modem c
  have hpulls := (v22bisTx_spec callGetBit m c.modem c).2.2
  rcases heq : v22bisTx callGetBit m c.modem c with ⟨sent, s, statuses, d⟩
  simp only [heq] at hsent hshut hretrain hpulls
  subst hsent
  simp only [modemTx, heq, callStatuses_plain hretrain]
  have hd := pulls_line hpulls
  have hmodem : LineFrame c { d with modem := s } :=
    ⟨hd.mode, hd.bm, hd.rxGuard, hshut.trans h.symm, hd.silence, hd.tone, hd.tonePhase, hd.sounded,
      hd.txbuf, hd.phase⟩
  exact hmodem.soundFrom i sent .v22

theorem captureChunk_line (c : SmCall) (payload : List UInt8) (n : Nat) :
    LineFrame c (captureChunk c payload n) := by
  simp only [captureChunk]
  split_ifs <;> exact ⟨rfl, rfl, rfl, rfl, rfl, rfl, rfl, rfl, rfl, .inl rfl⟩

theorem dataModeDetection_line (c : SmCall) : LineFrame c (dataModeDetection c) := by
  unfold dataModeDetection
  split
  · rename_i h
    refine ⟨rfl, rfl, rfl, rfl, rfl, rfl, rfl, rfl, rfl, .inr ⟨?_, by simp [OnEngine, enterData]⟩⟩
    simp [OnEngine, h.2.1]
  · exact .refl c

theorem v8Transition_line {c : SmCall} (h : c.phase ≠ .v8) (e : AudioEnv) : v8Transition c e = c := by
  unfold v8Transition
  exact if_neg fun hv8 => h hv8.1

theorem audioEnd_line (c : SmCall) (payload : List UInt8) (n : Nat) :
    LineFrame c (audioEnd c payload n) := ⟨rfl, rfl, rfl, rfl, rfl, rfl, rfl, rfl, rfl, .inl rfl⟩

theorem audioStart_line (c : SmCall) : LineFrame c (audioStart c) :=
  ⟨rfl, rfl, rfl, rfl, rfl, rfl, rfl, rfl, rfl, .inl rfl⟩

theorem takeBytes_line (c : SmCall) : LineFrame c (takeBytes c).1 := by
  unfold takeBytes
  generalize smDeframerTake c.deframer 256 = taken
  exact ⟨rfl, rfl, rfl, rfl, rfl, rfl, rfl, rfl, rfl, .inl rfl⟩

theorem pumpMove_line {c c' : SmCall} (h : PumpMove c c') : LineFrame c c' := by
  cases h with
  | start spawned =>
      unfold startPppd
      split <;> exact ⟨rfl, rfl, rfl, rfl, rfl, rfl, rfl, rfl, rfl, .inl rfl⟩
  | _ => exact ⟨rfl, rfl, rfl, rfl, rfl, rfl, rfl, rfl, rfl, .inl rfl⟩

theorem pumpPpp_lineFrame (c : SmCall) (e : PumpEnv) : LineFrame c (pumpPpp c e) := by
  rcases pumpPpp_outcome c e with ⟨hpumped, -⟩ | ⟨⟨hneeds, -⟩, hfailed⟩
  · exact hpumped.invariant (fun _ _ hmove hc => hc.trans (pumpMove_line hmove))
      (fun d hd => hd.trans (takeBytes_line d)) (.refl c)
  · rw [hfailed]
    refine ⟨rfl, rfl, rfl, rfl, rfl, rfl, rfl, rfl, rfl, .inr ⟨?_, by simp [OnEngine]⟩⟩
    simp [OnEngine, hneeds.1]

theorem Closing.line {c c' : SmCall} (h : Closing c c') (hbm : c.bm = false) : LineFrame c c' := by
  cases h with
  | going => exact .refl c
  | closed => exact ⟨rfl, hbm.symm, rfl, rfl, rfl, rfl, rfl, rfl, rfl, .inl rfl⟩

theorem quiet_line {s : CallRun} (h : audioOf s = none) (hbm : s.call.bm = false) (t : Turn) :
    LineFrame s.call (smCallTurn s t).call := by
  obtain ⟨c, hbetween, hclosing⟩ := quiet_turn h t
  cases hbetween with
  | read as _ =>
      have hread : LineFrame s.call { s.call with as := as } :=
        ⟨rfl, rfl, rfl, rfl, rfl, rfl, rfl, rfl, rfl, .inl rfl⟩
      exact hread.trans (hclosing.line hbm)
  | pumped _ =>
      have hpump := pumpPpp_lineFrame s.call t.pump
      exact hpump.trans (hclosing.line (hpump.bm.trans hbm))

inductive Transitioned (c : SmCall) : SmCall → Prop where
  | stays : Transitioned c c
  | v34 : Transitioned c (startV34 c)
  | v22 (ok : Nat) : Transitioned c (startV22 { c with v8Ok := ok })

theorem v8Transition_cases (c : SmCall) (e : AudioEnv) : Transitioned c (v8Transition c e) := by
  unfold v8Transition
  split_ifs
  · exact .v34
  · exact .v22 1
  · exact .v34
  · exact .stays
  · exact .v22 c.v8Ok
  · exact .stays

theorem v8Reports_line (reports : List V8Report) (c : SmCall) :
    LineFrame c (v8Reports c reports) := by
  induction reports generalizing c with
  | nil => exact .refl c
  | cons report reports ih =>
      obtain ⟨done, ok, heq⟩ := callV8Result_eq c report.status report.modulations
      have hreport : LineFrame c (callV8Result c report.status report.modulations) := by
        rw [heq]
        exact ⟨rfl, rfl, rfl, rfl, rfl, rfl, rfl, rfl, rfl, .inl rfl⟩
      exact hreport.trans (ih _)

theorem bmPoll_cases (c : SmCall) (n : Nat) (o : BmObservation) :
    bmPoll c n o = bmHandBack c ∨ (bmPoll c n o).bm = c.bm ∧ (bmPoll c n o).mode = c.mode ∧
      (bmPoll c n o).v8Done = c.v8Done ∧ (bmPoll c n o).rxGuard = c.rxGuard := by
  unfold bmPoll bmWatchCarrier bmConnect
  cases o.status with
  | agreedV22 => exact .inl rfl
  | agreedOther => exact .inl rfl
  | retraining =>
      simp only
      split <;> exact .inr ⟨rfl, rfl, rfl, rfl⟩
  | connected =>
      simp only
      split_ifs <;> exact .inr ⟨rfl, rfl, rfl, rfl⟩
  | _ => exact .inr ⟨rfl, rfl, rfl, rfl⟩

theorem engineEvents_bm (events : List EngineEvent) (c : SmCall) :
    (engineEvents c events).bm = c.bm := by
  induction events generalizing c with
  | nil => rfl
  | cons event events ih => exact (ih _).trans (engineEvent_engine c event).1

theorem soundFrom_bm (c : SmCall) (start length : Nat) (sample : Nat → Pcm) :
    (soundFrom c start length sample).bm = c.bm := rfl

theorem bmChunk_bm (c : SmCall) (n : Nat) (e : AudioEnv) : (bmChunk c n e).bm = c.bm := by
  unfold bmChunk
  rw [soundFrom_bm, (touch_line _ _ _ _).bm, engineEvents_bm]

theorem v8Transition_bm (c : SmCall) (e : AudioEnv) : (v8Transition c e).bm = c.bm := by
  have hcases := v8Transition_cases c e
  generalize v8Transition c e = d at hcases ⊢
  cases hcases <;> rfl

end Softmodem.Call

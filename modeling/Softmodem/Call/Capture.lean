import Softmodem.Call.AudioBounds
import Softmodem.Call.Due
import Softmodem.Call.Replies

namespace Softmodem.Call

open AudioSocket Serial V22bis

structure Spoken where
  samples : Nat
  heard : List (UInt8 × UInt8)
  sent : List Pcm

def captureLimit : Nat := 120 * smSampleRate

-- The messages that begin before 120 s are on the record.
def recorded (ms : List Spoken) : List Spoken :=
  ms.foldl (fun ks m =>
    if (ks.map Spoken.samples).sum < captureLimit then ks ++ [m] else ks) []

def recordedSamples (ms : List Spoken) : Nat := ((recorded ms).map Spoken.samples).sum

theorem recorded_snoc (ms : List Spoken) (m : Spoken) :
    recorded (ms ++ [m]) =
      if recordedSamples ms < captureLimit then recorded ms ++ [m]
      else recorded ms := by
  rw [recorded, List.foldl_append]
  rfl

def AudioTurn.heard (a : AudioTurn) : List (UInt8 × UInt8) :=
  (List.range (a.payload.length / 2)).map (inputSample a.payload)

structure Tape where
  run : CallRun
  messages : List Spoken
  capIn : Option (List (UInt8 × UInt8))
  capOut : Option (List Pcm)

def spoken (s : CallRun) (a : AudioTurn) (t : Turn) : Spoken :=
  { samples := a.samples
    heard := a.heard
    sent := if s.stage = .firstMessage then [] else a.played t.audio }

-- The files keep what they held when the call closes them.
def tapeTurn (T : Tape) (t : Turn) : Tape :=
  match audioOf T.run with
  | none => { T with run := smCallTurn T.run t }
  | some a =>
      { run := smCallTurn T.run t
        messages := T.messages ++ [spoken T.run a t]
        capIn := (a.after t.audio).capIn
        capOut := (a.after t.audio).capOut }

def tapeStart (c : SmCall) (peer : Peer) : Tape :=
  { run := smCallStart c peer, messages := [], capIn := c.capIn, capOut := c.capOut }

def InboundRight (T : Tape) : Prop :=
  ∀ file, T.capIn = some file → file = (recorded T.messages).flatMap Spoken.heard

def OutboundRight (value : Pcm → UInt8 × UInt8) (T : Tape) : Prop :=
  ∀ file, T.capOut = some file →
    file.map value = (recorded T.messages).flatMap fun m => m.sent.map value

structure CaptureRight (value : Pcm → UInt8 × UInt8) (T : Tape) : Prop where
  inbound : InboundRight T
  outbound : OutboundRight value T
  aligned : T.capIn.isSome = true → T.capOut.isSome = true →
    ∀ m ∈ recorded T.messages, m.heard.length = m.sent.length

def Capturing (c : SmCall) : Prop :=
  (c.capIn.isSome = true ∨ c.capOut.isSome = true) ∧ c.capCount < captureLimit

def NothingDue (value : Pcm → UInt8 × UInt8) (c : SmCall) (e : AudioEnv) (n : Nat) : Prop :=
  ∀ k < n, value (due c e k) = value .silence

structure CaptureSafe (value : Pcm → UInt8 × UInt8) (s : CallRun) (t : Turn) (a : AudioTurn) :
    Prop where
  whole : a.call.capIn.isSome = true → a.samples = a.payload.length / 2
  answered : a.call.capOut.isSome = true → s.stage = .firstMessage → a.samples = 0
  silent : a.call.capOut.isSome = true → NothingDue value a.call t.audio a.samples

def SafeToCapture (value : Pcm → UInt8 × UInt8) (T : Tape) (t : Turn) : Prop :=
  ∀ a, audioOf T.run = some a → Capturing a.call → CaptureSafe value T.run t a

structure CapFrame (c c' : SmCall) : Prop where
  capIn : c'.capIn = c.capIn
  capOut : c'.capOut = c.capOut
  capCount : c'.capCount = c.capCount

theorem CapFrame.refl (c : SmCall) : CapFrame c c := ⟨rfl, rfl, rfl⟩

theorem CapFrame.trans {a b c : SmCall} (h : CapFrame a b) (h' : CapFrame b c) : CapFrame a c :=
  ⟨h'.capIn.trans h.capIn, h'.capOut.trans h.capOut, h'.capCount.trans h.capCount⟩

theorem CapFrame.foldl {α : Type*} {f : SmCall → α → SmCall} (hf : ∀ c a, CapFrame c (f c a))
    (as : List α) (c : SmCall) : CapFrame c (as.foldl f c) := by
  induction as generalizing c with
  | nil => exact .refl c
  | cons a as ih => exact (hf c a).trans (ih (f c a))

section Pieces

variable (c : SmCall)

theorem touch_cap (buffer : AudioBuffer) (start length : Nat) :
    CapFrame c (touch c buffer start length) := ⟨rfl, rfl, rfl⟩

theorem sound_cap (start length : Nat) (sample : Nat → Pcm) :
    CapFrame c (sound c start length sample) := ⟨rfl, rfl, rfl⟩

theorem soundFrom_cap (start length : Nat) (sample : Nat → Pcm) :
    CapFrame c (soundFrom c start length sample) := ⟨rfl, rfl, rfl⟩

theorem callPutBit_cap (bit : Option Bool) (v34Rate : Nat) :
    CapFrame c (callPutBit c bit v34Rate) := by
  cases bit with
  | none => exact .refl c
  | some bit =>
      simp only [callPutBit]
      split_ifs <;> exact ⟨rfl, rfl, rfl⟩

theorem callStatus_cap (st : Status) : CapFrame c (callStatus c st) := by
  unfold callStatus
  split <;> exact ⟨rfl, rfl, rfl⟩

theorem engineEvents_cap (events : List EngineEvent) : CapFrame c (engineEvents c events) := by
  refine CapFrame.foldl (fun c event => ?_) events c
  cases event with
  | getBit => exact ⟨rfl, rfl, rfl⟩
  | putBit bit v34Rate => exact callPutBit_cap c bit v34Rate

theorem modemRx_cap (i m : Nat) (rx : Nat → RxObservation) : CapFrame c (modemRx c i m rx) := by
  refine CapFrame.foldl (fun c k => ?_) (List.range m) c
  have hreceived : CapFrame c (receiveSample c (rx (i + k))) := ⟨rfl, rfl, rfl⟩
  refine hreceived.trans (CapFrame.foldl (fun c out => ?_) _ _)
  cases out with
  | status st => exact callStatus_cap c st
  | bit b => exact callPutBit_cap c (some b) 0

theorem pulls_cap {c c' : SmCall} (h : Pulls callGetBit c c') : CapFrame c c' := by
  induction h with
  | refl => exact .refl c
  | tail _ hlast ih =>
      subst hlast
      exact ih.trans ⟨rfl, rfl, rfl⟩

theorem modemTx_cap (i m : Nat) : CapFrame c (modemTx c i m) := by
  obtain ⟨-, -, hpulls⟩ := v22bisTx_spec callGetBit m c.modem c
  rcases heq : v22bisTx callGetBit m c.modem c with ⟨sent, s, statuses, d⟩
  simp only [heq] at hpulls
  simp only [modemTx, heq]
  have hmodem : CapFrame d { d with modem := s } := ⟨rfl, rfl, rfl⟩
  have hsounded := ((pulls_cap hpulls).trans hmodem).trans (soundFrom_cap _ i sent .v22)
  exact hsounded.trans (CapFrame.foldl callStatus_cap statuses _)

theorem v8Reports_cap (reports : List V8Report) : CapFrame c (v8Reports c reports) := by
  refine CapFrame.foldl (fun d report => ?_) reports c
  obtain ⟨done, ok, heq⟩ := callV8Result_eq d report.status report.modulations
  rw [heq]
  exact ⟨rfl, rfl, rfl⟩

theorem v8Chunk_cap (i m : Nat) (e : AudioEnv) : CapFrame c (v8Chunk c i m e) := by
  simp only [v8Chunk]
  split
  · have hsounded := (soundFrom_cap c i (min e.v8Sent m) .v8).trans
      (sound_cap _ (i + min e.v8Sent m) (m - min e.v8Sent m) fun _ => .silence)
    exact (hsounded.trans (v8Reports_cap _ e.v8Reports)).trans (touch_cap _ .input i m)
  · exact sound_cap c i m _

theorem toneSample_cap (i : Nat) : CapFrame c (toneSample c i) := by
  simp only [toneSample, toneOutput]
  split_ifs <;> exact ⟨rfl, rfl, rfl⟩

theorem guardChunk_cap (i m : Nat) (e : AudioEnv) : CapFrame c (guardChunk c i m e).1 := by
  simp only [guardChunk]
  split
  · have htx := modemTx_cap c i (min m c.rxGuard)
    have hrx := modemRx_cap (touch (modemTx c i (min m c.rxGuard)) .rxsquelch 0 (min m c.rxGuard))
      i (min m c.rxGuard) e.rx
    have hall := (htx.trans (touch_cap _ .rxsquelch 0 _)).trans hrx
    exact ⟨hall.capIn, hall.capOut, hall.capCount⟩
  · exact .refl c

theorem engineChunk_cap (i m : Nat) (e : AudioEnv) : CapFrame c (engineChunk c i m e) := by
  simp only [engineChunk]
  split
  · exact .refl c
  split
  · have hsounded := (soundFrom_cap c i m .v34).trans (touch_cap _ .input i m)
    exact hsounded.trans (engineEvents_cap _ e.engine)
  · have hsent := (modemTx_cap c i m).trans (touch_cap _ .input i m)
    exact hsent.trans (modemRx_cap _ i m e.rx)

theorem audioLoop_cap (n left : Nat) (e : AudioEnv) : CapFrame c (audioLoop n e left c) := by
  induction left generalizing c with
  | zero => exact .refl c
  | succ left ih =>
      have hengine (i m : Nat) : CapFrame c
          (engineChunk (guardChunk c i m e).1 (i + (guardChunk c i m e).2)
            (m - (guardChunk c i m e).2) e) :=
        (guardChunk_cap c i m e).trans (engineChunk_cap _ _ _ e)
      simp only [audioLoop]
      split
      · exact v8Chunk_cap c _ _ e
      · exact (toneSample_cap c _).trans (ih _)
      · exact hengine _ _

theorem pollEngine_cap (n : Nat) (e : AudioEnv) : CapFrame c (pollEngine c n e) := by
  unfold pollEngine bmPoll bmWatchCarrier bmConnect
  split
  · cases e.bm.status with
    | retraining =>
        simp only
        split <;> exact ⟨rfl, rfl, rfl⟩
    | connected =>
        simp only
        split_ifs <;> exact ⟨rfl, rfl, rfl⟩
    | _ => exact ⟨rfl, rfl, rfl⟩
  · exact .refl c

theorem runEngine_cap (n : Nat) (e : AudioEnv) : CapFrame c (runEngine c n e) := by
  unfold runEngine
  split
  · have hevents := (engineEvents_cap c e.engine).trans (touch_cap _ .input 0 n)
    exact hevents.trans (soundFrom_cap _ 0 n .bm)
  · exact audioLoop_cap c n n e

theorem ending_cap (payload : List UInt8) (n : Nat) (e : AudioEnv) :
    CapFrame c (audioEnd (dataModeDetection (v8Transition c e)) payload n) := by
  have htransition : CapFrame c (v8Transition c e) := by
    have hcases := v8Transition_cases c e
    generalize v8Transition c e = d at hcases ⊢
    cases hcases <;> exact ⟨rfl, rfl, rfl⟩
  refine htransition.trans ?_
  unfold dataModeDetection
  split <;> exact ⟨rfl, rfl, rfl⟩

theorem processAudio_cap (payload : List UInt8) (n : Nat) (e : AudioEnv) :
    CapFrame (captureChunk (audioStart c) payload n) (processAudio c payload n e) :=
  ((pollEngine_cap _ n e).trans (runEngine_cap _ n e)).trans (ending_cap _ payload n e)

theorem pumpPpp_cap (e : PumpEnv) : CapFrame c (pumpPpp c e) := by
  rcases pumpPpp_outcome c e with ⟨hpumped, -⟩ | ⟨-, hfailed⟩
  · refine hpumped.invariant (fun _ _ hmove hc => hc.trans ?_) (fun d hd => hd.trans ?_) (.refl c)
    · cases hmove with
      | start spawned =>
          unfold startPppd
          split <;> exact ⟨rfl, rfl, rfl⟩
      | _ => exact ⟨rfl, rfl, rfl⟩
    · unfold takeBytes
      generalize smDeframerTake d.deframer 256 = taken
      exact ⟨rfl, rfl, rfl⟩
  · rw [hfailed]
    exact ⟨rfl, rfl, rfl⟩

end Pieces

theorem captureChunk_captured {c : SmCall} (h : Capturing c) (payload : List UInt8) (n : Nat) :
    (captureChunk c payload n).capIn = c.capIn.map (· ++ (List.range n).map (inputSample payload)) ∧
      (captureChunk c payload n).capOut = c.capOut.map (· ++ (List.range n).map c.txbuf) ∧
      (captureChunk c payload n).capCount = c.capCount + n := by
  have hopen : (c.capIn.isSome = true ∨ c.capOut.isSome = true) ∧
      c.capCount < 120 * smSampleRate := h
  simp only [captureChunk, if_pos hopen]
  split_ifs <;> exact ⟨rfl, rfl, rfl⟩

theorem captureChunk_skipped {c : SmCall} (h : ¬ Capturing c) (payload : List UInt8) (n : Nat) :
    captureChunk c payload n = c := if_neg h

structure Captured (c c' : SmCall) (payload : List UInt8) (n : Nat) : Prop where
  capIn : c'.capIn = c.capIn.map (· ++ (List.range n).map (inputSample payload))
  capOut : c'.capOut = c.capOut.map (· ++ (List.range n).map c.txbuf)
  capCount : c'.capCount = c.capCount + n

theorem AudioTurn.captured {a : AudioTurn} (h : Capturing a.call) (e : AudioEnv) :
    Captured a.call (a.after e) a.payload a.samples := by
  have hstart : Capturing (audioStart a.call) := h
  obtain ⟨hin, hout, hcount⟩ := captureChunk_captured hstart a.payload a.samples
  have hcap := processAudio_cap a.call a.payload a.samples e
  exact ⟨hcap.capIn.trans hin, hcap.capOut.trans hout, hcap.capCount.trans hcount⟩

theorem AudioTurn.skipped {a : AudioTurn} (h : ¬ Capturing a.call) (e : AudioEnv) :
    CapFrame a.call (a.after e) := by
  have hstart : ¬ Capturing (audioStart a.call) := h
  have hcap := processAudio_cap a.call a.payload a.samples e
  rw [captureChunk_skipped hstart] at hcap
  exact ⟨hcap.capIn, hcap.capOut, hcap.capCount⟩

section Turns

variable {s : CallRun} {a : AudioTurn}

theorem audioOf_message (h : audioOf s = some a) (hstage : s.stage ≠ .firstMessage) :
    a.samples = a.payload.length / 2 := by
  unfold audioOf at h
  split at h
  · exact absurd ‹_› hstage
  · next kind payload plen r _ hread =>
    split at h
    · obtain rfl := Option.some.inj h
      have hread' : (smAstRead s.call.as s.peer smAsMaxPayload).1 = .message kind payload plen :=
        congrArg Prod.fst hread
      simp only [smAstRead_stored hread', audioLength, txbufSize, smAsMaxPayload]
      split_ifs <;> omega
    · cases h
  · cases h

theorem audioOf_running (h : audioOf s = some a) : Running s := by
  intro rc hstage
  simp [audioOf, hstage] at h

theorem audioOf_leaves (h : audioOf s = some a) (t : Turn) :
    (smCallTurn s t).stage ≠ .firstMessage := by
  obtain ⟨-, ⟨-, hstage⟩ | ⟨-, hover⟩⟩ := audioOf_call h t
  · exact hstage
  · simp [hover]

theorem quiet_running (h : audioOf s = none) {t : Turn} (hup : Running (smCallTurn s t)) :
    Between s t (smCallTurn s t).call := by
  obtain ⟨stages, c, heffect, ⟨hcall, -⟩ | ⟨-, hover⟩⟩ := smCallTurn_turned s t
  · rw [hcall]
    cases heffect with
    | read as hstage => exact .read as hstage
    | firstAudio as hstage hread =>
        obtain ⟨-, -, hread'⟩ := readMessage_call s
        rcases hr : readMessage s with ⟨result, r⟩
        rw [hr, hread] at hread'
        dsimp only at hread'
        subst hread'
        simp [audioOf, hstage, hr] at h
    | audio as hstage hphase hread =>
        obtain ⟨-, -, hread'⟩ := readMessage_call s
        rcases hr : readMessage s with ⟨result, r⟩
        rw [hr, hread] at hread'
        dsimp only at hread'
        subst hread'
        simp [audioOf, hstage, hr, hphase] at h
    | pumped hstage => exact .pumped hstage
  · exact absurd hover (hup 0)

theorem audio_running (h : audioOf s = some a) {t : Turn} (hup : Running (smCallTurn s t)) :
    (smCallTurn s t).call = a.after t.audio := by
  obtain ⟨-, ⟨hcall, -⟩ | ⟨-, hover⟩⟩ := audioOf_call h t
  · exact hcall
  · exact absurd hover (hup 0)

theorem Closing.txbuf {c c' : SmCall} (h : Closing c c') : c'.txbuf = c.txbuf := by
  cases h with
  | going => rfl
  | closed => rfl

theorem quiet_txbuf (h : audioOf s = none) (t : Turn) :
    (smCallTurn s t).call.txbuf = s.call.txbuf := by
  obtain ⟨c, hbetween, hclosing⟩ := quiet_turn h t
  rw [hclosing.txbuf]
  cases hbetween with
  | read as _ => rfl
  | pumped _ => exact (pumpPpp_lineFrame s.call t.pump).txbuf

theorem audio_txbuf (h : RunPlaying s) (haudio : audioOf s = some a) (t : Turn) :
    (smCallTurn s t).call.txbuf = overwrite 0 a.samples (due a.call t.audio) s.call.txbuf ∧
      a.played t.audio = (List.range a.samples).map (due a.call t.audio) := by
  obtain ⟨⟨as, ha⟩, hclosing⟩ := audioOf_turn haudio t
  have hplaying : Playing a.call := ha ▸ h.playing.frame (socket_line s.call as)
  obtain ⟨hplayed, hbuf⟩ := AudioTurn.due_played hplaying t.audio
  have hbefore : a.call.txbuf = s.call.txbuf := by rw [ha]
  refine ⟨?_, hplayed⟩
  rw [← hbefore, ← hbuf, hclosing.txbuf]

end Turns

structure TapeInv (T : Tape) : Prop where
  playing : RunPlaying T.run
  capIn : Running T.run → T.run.call.capIn = T.capIn
  capOut : Running T.run → T.run.call.capOut = T.capOut
  capCount : Running T.run → T.capIn.isSome = true ∨ T.capOut.isSome = true →
    T.run.call.capCount = recordedSamples T.messages

structure Skipped (T T' : Tape) : Prop where
  capIn : T'.capIn = T.capIn
  capOut : T'.capOut = T.capOut
  kept : T.capIn.isSome = true ∨ T.capOut.isSome = true →
    recorded T'.messages = recorded T.messages

structure Taped (T T' : Tape) (a : AudioTurn) (m : Spoken) : Prop where
  capIn : T'.capIn = T.capIn.map (· ++ (List.range a.samples).map (inputSample a.payload))
  capOut : T'.capOut = T.capOut.map (· ++ (List.range a.samples).map T.run.call.txbuf)
  kept : recorded T'.messages = recorded T.messages ++ [m]

section Step

variable {T : Tape} {a : AudioTurn}

theorem TapeInv.attached (h : TapeInv T) (haudio : audioOf T.run = some a) :
    a.call.capIn = T.capIn ∧ a.call.capOut = T.capOut ∧ a.call.txbuf = T.run.call.txbuf ∧
      (Capturing a.call ↔ (T.capIn.isSome = true ∨ T.capOut.isSome = true) ∧
        recordedSamples T.messages < captureLimit) := by
  obtain ⟨⟨as, ha⟩, -⟩ := audioOf_turn haudio (idleTurn fun _ => ⟨.between, false, 0⟩)
  have hup := audioOf_running haudio
  have hcount : a.call.capCount = T.run.call.capCount := by rw [ha]
  have hin : a.call.capIn = T.capIn := by rw [ha, ← h.capIn hup]
  have hout : a.call.capOut = T.capOut := by rw [ha, ← h.capOut hup]
  refine ⟨hin, hout, by rw [ha], ?_⟩
  rw [Capturing, hin, hout, hcount]
  constructor
  · rintro ⟨hopen, hlt⟩
    exact ⟨hopen, h.capCount hup hopen ▸ hlt⟩
  · rintro ⟨hopen, hlt⟩
    exact ⟨hopen, (h.capCount hup hopen).symm ▸ hlt⟩

theorem tapeTurn_run (T : Tape) (t : Turn) : (tapeTurn T t).run = smCallTurn T.run t := by
  unfold tapeTurn
  split <;> rfl

theorem tapeTurn_audio (haudio : audioOf T.run = some a) (t : Turn) :
    tapeTurn T t =
      { run := smCallTurn T.run t
        messages := T.messages ++ [spoken T.run a t]
        capIn := (a.after t.audio).capIn
        capOut := (a.after t.audio).capOut } := by
  simp only [tapeTurn, haudio]

theorem TapeInv.taped (h : TapeInv T) (haudio : audioOf T.run = some a)
    (hcapturing : Capturing a.call) (t : Turn) :
    Taped T (tapeTurn T t) a (spoken T.run a t) := by
  obtain ⟨hin, hout, hbuf, hiff⟩ := h.attached haudio
  have hcaptured := AudioTurn.captured hcapturing t.audio
  rw [tapeTurn_audio haudio]
  refine ⟨?_, ?_, ?_⟩
  · exact hcaptured.capIn.trans (by rw [hin])
  · exact hcaptured.capOut.trans (by rw [hout, hbuf])
  · exact (recorded_snoc _ _).trans (if_pos (hiff.mp hcapturing).2)

theorem TapeInv.skipped (h : TapeInv T) {t : Turn}
    (hskipped : ∀ a, audioOf T.run = some a → ¬ Capturing a.call) : Skipped T (tapeTurn T t) := by
  rcases haudio : audioOf T.run with _ | a
  · simp only [tapeTurn, haudio]
    exact ⟨rfl, rfl, fun _ => rfl⟩
  · obtain ⟨hin, hout, -, hiff⟩ := h.attached haudio
    have hkept := AudioTurn.skipped (hskipped a haudio) t.audio
    rw [tapeTurn_audio haudio]
    refine ⟨hkept.capIn.trans hin, hkept.capOut.trans hout, fun hopen => ?_⟩
    have hfull : ¬ recordedSamples T.messages < captureLimit :=
      fun hlt => hskipped a haudio (hiff.mpr ⟨hopen, hlt⟩)
    exact (recorded_snoc _ _).trans (if_neg hfull)

theorem TapeInv.turn (h : TapeInv T) (t : Turn) : TapeInv (tapeTurn T t) := by
  have hplaying : RunPlaying (tapeTurn T t).run := tapeTurn_run T t ▸ h.playing.turn t
  rcases haudio : audioOf T.run with _ | a
  · simp only [tapeTurn, haudio] at hplaying ⊢
    have hkept (hup : Running (smCallTurn T.run t)) :
        CapFrame T.run.call (smCallTurn T.run t).call := by
      have hbetween := quiet_running haudio hup
      generalize (smCallTurn T.run t).call = c at hbetween ⊢
      cases hbetween with
      | read as _ => exact ⟨rfl, rfl, rfl⟩
      | pumped _ => exact pumpPpp_cap T.run.call t.pump
    refine ⟨hplaying, fun hup => ?_, fun hup => ?_, fun hup hopen => ?_⟩
    · exact (hkept hup).capIn.trans (h.capIn hup.before)
    · exact (hkept hup).capOut.trans (h.capOut hup.before)
    · exact (hkept hup).capCount.trans (h.capCount hup.before hopen)
  · have hsame (hup : Running (tapeTurn T t).run) :
        (tapeTurn T t).run.call = a.after t.audio := by
      rw [tapeTurn_run] at hup ⊢
      exact audio_running haudio hup
    refine ⟨hplaying, fun hup => ?_, fun hup => ?_, fun hup hopen => ?_⟩
    · rw [hsame hup, tapeTurn_audio haudio]
    · rw [hsame hup, tapeTurn_audio haudio]
    · obtain ⟨hin, hout, -, -⟩ := h.attached haudio
      have hbefore := audioOf_running haudio
      obtain ⟨⟨as, ha⟩, -⟩ := audioOf_turn haudio t
      have hcount : a.call.capCount = T.run.call.capCount := by rw [ha]
      rw [hsame hup, recordedSamples]
      by_cases hcapturing : Capturing a.call
      · have htaped := h.taped haudio hcapturing t
        rw [htaped.capIn, htaped.capOut, Option.isSome_map, Option.isSome_map] at hopen
        rw [(AudioTurn.captured hcapturing t.audio).capCount, htaped.kept, hcount,
          h.capCount hbefore hopen, List.map_append, List.sum_append, List.map_singleton,
          List.sum_singleton]
        rfl
      · have hskipped : Skipped T (tapeTurn T t) := by
          apply h.skipped
          intro a' haudio'
          rw [haudio] at haudio'
          exact Option.some.inj haudio' ▸ hcapturing
        rw [hskipped.capIn, hskipped.capOut] at hopen
        rw [(AudioTurn.skipped hcapturing t.audio).capCount, hskipped.kept hopen, hcount,
          h.capCount hbefore hopen]
        rfl

end Step

section Right

variable {value : Pcm → UInt8 × UInt8} {T T' : Tape} {a : AudioTurn} {m : Spoken}

theorem Skipped.inbound (h : Skipped T T') : InboundRight T' ↔ InboundRight T := by
  unfold InboundRight
  rw [h.capIn]
  refine forall_congr' fun file => forall_congr' fun hfile => ?_
  rw [h.kept (.inl (by simp [hfile]))]

theorem Skipped.outbound (h : Skipped T T') : OutboundRight value T' ↔ OutboundRight value T := by
  unfold OutboundRight
  rw [h.capOut]
  refine forall_congr' fun file => forall_congr' fun hfile => ?_
  rw [h.kept (.inr (by simp [hfile]))]

theorem Skipped.right (h : Skipped T T') (hright : CaptureRight value T) :
    CaptureRight value T' := by
  refine ⟨h.inbound.mpr hright.inbound, h.outbound.mpr hright.outbound, ?_⟩
  rw [h.capIn, h.capOut]
  intro hin hout
  rw [h.kept (.inl hin)]
  exact hright.aligned hin hout

theorem Taped.inbound (h : Taped T T' a m) (hheard : m.heard = a.heard) :
    InboundRight T' ↔ ∀ file, T.capIn = some file →
      file ++ (List.range a.samples).map (inputSample a.payload) =
        (recorded T.messages).flatMap Spoken.heard ++ a.heard := by
  unfold InboundRight
  rw [h.capIn, h.kept, List.flatMap_append, List.flatMap_singleton, hheard]
  simp

theorem Taped.outbound (h : Taped T T' a m) :
    OutboundRight value T' ↔ ∀ file, T.capOut = some file →
      file.map value ++ (List.range a.samples).map (value ∘ T.run.call.txbuf) =
        ((recorded T.messages).flatMap fun m => m.sent.map value) ++ m.sent.map value := by
  unfold OutboundRight
  rw [h.capOut, h.kept, List.flatMap_append, List.flatMap_singleton]
  simp

theorem heard_eq_iff (a : AudioTurn) :
    (List.range a.samples).map (inputSample a.payload) = a.heard ↔
      a.samples = a.payload.length / 2 := by
  constructor
  · intro h
    simpa [AudioTurn.heard] using congrArg List.length h
  · intro h
    rw [AudioTurn.heard, h]

theorem Taped.inbound_iff (h : Taped T T' a m) (hheard : m.heard = a.heard)
    (hright : InboundRight T) :
    InboundRight T' ↔ (T.capIn.isSome = true → a.samples = a.payload.length / 2) := by
  rw [h.inbound hheard, Option.isSome_iff_exists]
  constructor
  · rintro hall ⟨file, hfile⟩
    have heq := hall file hfile
    rw [hright file hfile, List.append_cancel_left_eq, heard_eq_iff] at heq
    exact heq
  · intro hwhole file hfile
    rw [hright file hfile, List.append_cancel_left_eq, heard_eq_iff]
    exact hwhole ⟨file, hfile⟩

theorem Taped.outbound_iff (h : Taped T T' a m) (hright : OutboundRight value T) :
    OutboundRight value T' ↔ (T.capOut.isSome = true →
      (List.range a.samples).map (value ∘ T.run.call.txbuf) = m.sent.map value) := by
  rw [h.outbound, Option.isSome_iff_exists]
  constructor
  · rintro hall ⟨file, hfile⟩
    have heq := hall file hfile
    rwa [hright file hfile, List.append_cancel_left_eq] at heq
  · intro hsame file hfile
    rw [hright file hfile, List.append_cancel_left_eq]
    exact hsame ⟨file, hfile⟩

-- A file that has gone wrong stays wrong: what follows is as long as what was said.
theorem Taped.inbound_stays (h : Taped T T' a m) (hheard : m.heard = a.heard)
    (hwhole : a.samples = a.payload.length / 2) (hright : InboundRight T') : InboundRight T := by
  intro file hfile
  have heq := (h.inbound hheard).mp hright file hfile
  rw [(heard_eq_iff a).mpr hwhole] at heq
  exact List.append_cancel_right heq

theorem Taped.outbound_stays (h : Taped T T' a m) (hsent : m.sent.length = a.samples)
    (hright : OutboundRight value T') : OutboundRight value T := by
  intro file hfile
  exact (List.append_inj' (h.outbound.mp hright file hfile) (by simp [hsent])).1

end Right

-- Nothing but silence has been played while the outbound file still takes samples.
def SilentSoFar (value : Pcm → UInt8 × UInt8) (T : Tape) : Prop :=
  T.capOut.isSome = true → recordedSamples T.messages < captureLimit →
    ∀ k, value (T.run.call.txbuf k) = value .silence

structure Faithful (value : Pcm → UInt8 × UInt8) (T : Tape) : Prop where
  inv : TapeInv T
  right : CaptureRight value T
  silent : SilentSoFar value T

structure Spoiled (value : Pcm → UInt8 × UInt8) (T : Tape) : Prop where
  inv : TapeInv T
  wrong : ¬ (InboundRight T ∧ OutboundRight value T)
  later : T.run.stage ≠ .firstMessage

section Runs

variable {value : Pcm → UInt8 × UInt8} {T : Tape} {a : AudioTurn}

theorem spoken_sent (h : TapeInv T) (haudio : audioOf T.run = some a) (t : Turn) :
    (spoken T.run a t).sent =
      if T.run.stage = .firstMessage then []
      else (List.range a.samples).map (due a.call t.audio) := by
  rw [spoken, (audio_txbuf h.playing haudio t).2]

theorem captureSafe_iff (h : Faithful value T) (haudio : audioOf T.run = some a)
    (hcapturing : Capturing a.call) (t : Turn) :
    InboundRight (tapeTurn T t) ∧ OutboundRight value (tapeTurn T t) ↔
      CaptureSafe value T.run t a := by
  obtain ⟨hin, hout, -, hiff⟩ := h.inv.attached haudio
  have htaped := h.inv.taped haudio hcapturing t
  have hlt := (hiff.mp hcapturing).2
  rw [htaped.inbound_iff rfl h.right.inbound, htaped.outbound_iff h.right.outbound,
    spoken_sent h.inv haudio]
  have hsilent (hopen : T.capOut.isSome = true) :
      (List.range a.samples).map (value ∘ T.run.call.txbuf) =
        (List.range a.samples).map fun _ => value .silence :=
    List.map_congr_left fun k _ => h.silent hopen hlt k
  constructor
  · rintro ⟨hwhole, hsame⟩
    rw [← hin] at hwhole
    rw [← hout] at hsame hsilent
    refine ⟨hwhole, fun hopen hfirst => ?_, fun hopen k hk => ?_⟩
    · have heq := hsame hopen
      rw [if_pos hfirst] at heq
      simpa using congrArg List.length heq
    · have heq := hsame hopen
      rw [hsilent hopen] at heq
      split at heq
      · have hzero : a.samples = 0 := by simpa using congrArg List.length heq
        omega
      · rw [List.map_map] at heq
        exact (List.map_inj_left.mp heq k (List.mem_range.mpr hk)).symm
  · rintro ⟨hwhole, hanswered, hquiet⟩
    rw [hin] at hwhole
    rw [hout] at hanswered hquiet
    refine ⟨hwhole, fun hopen => ?_⟩
    rw [hsilent hopen]
    split
    · next hfirst =>
      rw [hanswered hopen hfirst]
      rfl
    · rw [List.map_map]
      exact List.map_congr_left fun k hk => (hquiet hopen k (List.mem_range.mp hk)).symm

theorem Faithful.skipped (h : Faithful value T) {t : Turn}
    (hskipped : ∀ a, audioOf T.run = some a → ¬ Capturing a.call) :
    Faithful value (tapeTurn T t) := by
  have hkept := h.inv.skipped (t := t) hskipped
  refine ⟨h.inv.turn t, hkept.right h.right, fun hopen hlt k => ?_⟩
  rw [hkept.capOut] at hopen
  rw [recordedSamples, hkept.kept (.inr hopen)] at hlt
  rcases haudio : audioOf T.run with _ | a
  · rw [tapeTurn_run, quiet_txbuf haudio]
    exact h.silent hopen hlt k
  · obtain ⟨-, -, -, hiff⟩ := h.inv.attached haudio
    exact absurd (hiff.mpr ⟨.inr hopen, hlt⟩) (hskipped a haudio)

theorem Faithful.captured (h : Faithful value T) (haudio : audioOf T.run = some a)
    (hcapturing : Capturing a.call) {t : Turn} (hsafe : CaptureSafe value T.run t a) :
    Faithful value (tapeTurn T t) := by
  obtain ⟨hin, hout, -, hiff⟩ := h.inv.attached haudio
  have htaped := h.inv.taped haudio hcapturing t
  have hlt := (hiff.mp hcapturing).2
  obtain ⟨hinbound, houtbound⟩ := (captureSafe_iff h haudio hcapturing t).mpr hsafe
  refine ⟨h.inv.turn t, ⟨hinbound, houtbound, ?_⟩, ?_⟩
  · rw [htaped.capIn, htaped.capOut, Option.isSome_map, Option.isSome_map, htaped.kept]
    intro hopenIn hopenOut m hm
    rcases List.mem_append.mp hm with hm | hm
    · exact h.right.aligned hopenIn hopenOut m hm
    · rw [List.mem_singleton.mp hm, spoken_sent h.inv haudio]
      have hheard : (spoken T.run a t).heard.length = a.payload.length / 2 := by
        simp [spoken, AudioTurn.heard]
      have hwhole := hsafe.whole (hin ▸ hopenIn)
      have hanswered := hsafe.answered (hout ▸ hopenOut)
      rw [hheard, ← hwhole]
      split
      · exact hanswered ‹_›
      · simp
  · intro hopen _ k
    rw [htaped.capOut, Option.isSome_map] at hopen
    rw [tapeTurn_run, (audio_txbuf h.inv.playing haudio t).1, overwrite]
    split
    · exact hsafe.silent (hout ▸ hopen) _ (by omega)
    · exact h.silent hopen hlt k

theorem Faithful.turn (h : Faithful value T) {t : Turn} (hsafe : SafeToCapture value T t) :
    Faithful value (tapeTurn T t) := by
  by_cases hcapturing : ∃ a, audioOf T.run = some a ∧ Capturing a.call
  · obtain ⟨a, haudio, hcapturing⟩ := hcapturing
    exact h.captured haudio hcapturing (hsafe a haudio hcapturing)
  · exact h.skipped fun a haudio hcap => hcapturing ⟨a, haudio, hcap⟩

theorem Faithful.spoiled (h : Faithful value T) {t : Turn} (hbroken : ¬ SafeToCapture value T t) :
    Spoiled value (tapeTurn T t) := by
  simp only [SafeToCapture, not_forall] at hbroken
  obtain ⟨a, haudio, hcapturing, hbroken⟩ := hbroken
  refine ⟨h.inv.turn t, fun hright => hbroken ?_, ?_⟩
  · exact (captureSafe_iff h haudio hcapturing t).mp hright
  · rw [tapeTurn_run]
    exact audioOf_leaves haudio t

theorem Spoiled.turn (h : Spoiled value T) (t : Turn) : Spoiled value (tapeTurn T t) := by
  refine ⟨h.inv.turn t, ?_, ?_⟩
  · rintro ⟨hinbound, houtbound⟩
    by_cases hcapturing : ∃ a, audioOf T.run = some a ∧ Capturing a.call
    · obtain ⟨a, haudio, hcapturing⟩ := hcapturing
      have htaped := h.inv.taped haudio hcapturing t
      have hsent : (spoken T.run a t).sent.length = a.samples := by
        rw [spoken_sent h.inv haudio, if_neg h.later, List.length_map, List.length_range]
      exact h.wrong ⟨htaped.inbound_stays rfl (audioOf_message haudio h.later) hinbound,
        htaped.outbound_stays hsent houtbound⟩
    · have hskipped := h.inv.skipped (t := t) fun a haudio hcap => hcapturing ⟨a, haudio, hcap⟩
      exact h.wrong ⟨hskipped.inbound.mp hinbound, hskipped.outbound.mp houtbound⟩
  · rw [tapeTurn_run]
    intro hstage
    exact h.later (turn_waiting hstage).1

end Runs

theorem start_faithful (value : Pcm → UInt8 × UInt8) (cfg : SmCallConfig) (r : InitResults)
    (peer : Peer) : Faithful value (tapeStart (smCallInit cfg r) peer) := by
  have hinit : (smCallInit cfg r).capIn = (if r.capInOpened then some [] else none) ∧
      (smCallInit cfg r).capOut = (if r.capOutOpened then some [] else none) ∧
      (smCallInit cfg r).capCount = 0 ∧ (smCallInit cfg r).txbuf = fun _ => .silence := by
    simp only [smCallInit, startAnswer]
    split_ifs <;> exact ⟨rfl, rfl, rfl, rfl⟩
  obtain ⟨hin, hout, hcount, hbuf⟩ := hinit
  refine ⟨⟨start_playing cfg r peer, fun _ => rfl, fun _ => rfl, fun _ _ => hcount⟩,
    ⟨?_, ?_, ?_⟩, ?_⟩
  · intro file hfile
    rw [tapeStart, hin] at hfile
    split at hfile <;> simp_all [tapeStart, recorded]
  · intro file hfile
    rw [tapeStart, hout] at hfile
    split at hfile <;> simp_all [tapeStart, recorded]
  · intro _ _ m hm
    exact absurd hm List.not_mem_nil
  · intro _ _ k
    exact congrArg value (congrFun hbuf k)

theorem capture_right_iff (value : Pcm → UInt8 × UInt8) (cfg : SmCallConfig) (r : InitResults)
    (peer : Peer) (turns : List Turn) :
    CaptureRight value (Transition.run tapeTurn (tapeStart (smCallInit cfg r) peer) turns) ↔
      Transition.Along tapeTurn (SafeToCapture value) (tapeStart (smCallInit cfg r) peer)
        turns := by
  have hstart := start_faithful value cfg r peer
  have hends : Faithful value (Transition.run tapeTurn (tapeStart (smCallInit cfg r) peer) turns) ∨
      Spoiled value (Transition.run tapeTurn (tapeStart (smCallInit cfg r) peer) turns) := by
    refine Transition.run_invariant (P := fun T => Faithful value T ∨ Spoiled value T) ?_ turns
      (.inl hstart)
    rintro T t (h | h)
    · by_cases hsafe : SafeToCapture value T t
      · exact .inl (h.turn hsafe)
      · exact .inr (h.spoiled hsafe)
    · exact .inr (h.turn t)
  rw [← Transition.along_iff (P := Faithful value) (B := Spoiled value)
    (fun T t h hsafe => h.turn hsafe) (fun T t h hbroken => h.spoiled hbroken)
    (fun T t h => h.turn t) (fun T h hfaithful => h.wrong ⟨hfaithful.right.inbound,
      hfaithful.right.outbound⟩) turns hstart]
  constructor
  · intro hright
    rcases hends with h | h
    · exact h
    · exact absurd ⟨hright.inbound, hright.outbound⟩ h.wrong
  · exact Faithful.right

def tonePcm : Pcm → UInt8 × UInt8
  | .tone 1 => (0x5E, 0x17)
  | _ => (0, 0)

def captureInit : InitResults := { plainInit with capInOpened := true, capOutOpened := true }

def answeringConfig : SmCallConfig := { v22Config with answerToneMs := 3300 }

def twoSamples : Message := ⟨smAsKindAudio, [0, 0, 0, 0]⟩

theorem answer_tone_is_captured_as_silence :
    ¬ CaptureRight tonePcm (Transition.run tapeTurn
      (tapeStart (smCallInit answeringConfig captureInit) (promptPeer [uuidMessage, twoSamples]))
      (List.replicate 2 (idleTurn fun _ => ⟨.between, false, 0⟩))) := by
  intro h
  have hfile := h.outbound [.silence, .silence] (by decide)
  revert hfile
  decide

end Softmodem.Call

import Softmodem.Call.Audio

namespace Softmodem.Call

open AudioSocket Serial V22bis

def SmCall.core (c : SmCall) : SmCall :=
  { c with
    capIn := none, capOut := none, capCount := 0, bmNocarrier := 0, toneSamplesLeft := 0
    silenceSamplesLeft := 0, tonePhase := 0, v8Ok := 0, rxGuard := 0, negotiatedRate := 0
    samplesIn := 0, samplesOut := 0 }

inductive EngineStep (n : Nat) : SmCall → SmCall → Prop where
  | bookkeeping {c c' : SmCall} (h : c'.core = c.core) : EngineStep n c c'
  | touch (c : SmCall) (buffer : AudioBuffer) (start length : Nat) (h : start + length ≤ n) :
      EngineStep n c (touch c buffer start length)
  | sounded (c : SmCall) (txbuf : Nat → Pcm) (k : Nat) :
      EngineStep n c { c with txbuf := txbuf, history := { c.history with sounded := k } }
  | getBit (c : SmCall) : EngineStep n c (callGetBit c).2
  | putBit (c : SmCall) (bit : Option Bool) (v34Rate : Nat) (h : c.bm = true ∨ c.mode = .v34) :
      EngineStep n c (callPutBit c bit v34Rate)
  | modemTx (c : SmCall) {s : V22bisState} (h : TxStep c.modem s) :
      EngineStep n c { c with modem := s }
  | status (c : SmCall) (st : Status) : EngineStep n c (callStatus c st)
  | modemRx (c : SmCall) (o : RxObservation) : EngineStep n c (modemRxSample c o)
  | answered (c : SmCall) (h : c.phase = .answerTone) :
      EngineStep n c { c with phase := .handshake }
  | v8Result (c : SmCall) (done : Bool) (ok : Nat) (h : c.v8 = true) :
      EngineStep n c { c with v8Done := done, v8Ok := ok }

inductive AudioStep (n : Nat) : SmCall → SmCall → Prop where
  | engine {c c' : SmCall} (h : EngineStep n c c') : AudioStep n c c'
  | hangup (c : SmCall) (h : c.bm = true) : AudioStep n c { c with phase := .hangup }
  | handBack (c : SmCall) (h : c.bm = true) : AudioStep n c (bmHandBack c)
  | startV34 (c : SmCall) (h : c.phase = .v8) (hdone : c.v8Done = true) :
      AudioStep n c (startV34 c)
  | startV22 (c : SmCall) (h : c.phase = .v8) : AudioStep n c (startV22 c)
  | bmRetrain (c : SmCall) (h : c.phase = .data) :
      AudioStep n c { c with deframer := smDeframerInit, phase := .handshake }
  | bmConnect (c : SmCall) (rate : Nat) (h : c.bm = true) :
      AudioStep n c (enterData { c with deframer := smDeframerInit } rate)
  | detect (c : SmCall) (h : c.mode = .v22) (hbm : c.bm = false)
      (htx : c.modem.tx.training = .normalOperation)
      (hrx : c.modem.rx.training = .normalOperation) :
      AudioStep n c
        (enterData { c with deframer := smDeframerInit } c.modem.negotiatedBitRate)

def EngineSteps (n : Nat) : SmCall → SmCall → Prop := Relation.ReflTransGen (EngineStep n)

def AudioSteps (n : Nat) : SmCall → SmCall → Prop := Relation.ReflTransGen (AudioStep n)

variable {n : Nat}

theorem EngineSteps.audio {c c' : SmCall} (h : EngineSteps n c c') : AudioSteps n c c' := by
  induction h with
  | refl => exact .refl
  | tail _ hlast ih => exact ih.tail (.engine hlast)

theorem EngineSteps.invariant {P : SmCall → Prop} (hstep : ∀ c c', EngineStep n c c' → P c → P c')
    {c c' : SmCall} (h : EngineSteps n c c') (hc : P c) : P c' := by
  induction h with
  | refl => exact hc
  | tail _ hlast ih => exact hstep _ _ hlast ih

theorem AudioSteps.invariant {P : SmCall → Prop} (hstep : ∀ c c', AudioStep n c c' → P c → P c')
    {c c' : SmCall} (h : AudioSteps n c c') (hc : P c) : P c' := by
  induction h with
  | refl => exact hc
  | tail _ hlast ih => exact hstep _ _ hlast ih

theorem EngineSteps.foldl {α : Type*} {f : SmCall → α → SmCall} (as : List α)
    (hf : ∀ c, ∀ a ∈ as, EngineSteps n c (f c a)) (c : SmCall) :
    EngineSteps n c (as.foldl f c) := by
  induction as generalizing c with
  | nil => exact .refl
  | cons a as ih =>
      have hhead := hf c a (List.mem_cons_self ..)
      exact hhead.trans (ih (fun c b hb => hf c b (List.mem_cons_of_mem _ hb)) (f c a))

structure RxFrame (c c' : SmCall) : Prop where
  cfg : c'.cfg = c.cfg
  mode : c'.mode = c.mode
  modem : c'.modem = c.modem
  bm : c'.bm = c.bm
  rxGuard : c'.rxGuard = c.rxGuard
  txbits : c'.txbits = c.txbits
  audioCalls : c'.history.audioCalls = c.history.audioCalls
  spans : c'.history.spans = c.history.spans
  popped : c'.history.popped = c.history.popped
  carrierLostInData : c'.history.carrierLostInData = c.history.carrierLostInData

theorem RxFrame.refl (c : SmCall) : RxFrame c c :=
  ⟨rfl, rfl, rfl, rfl, rfl, rfl, rfl, rfl, rfl, rfl⟩

theorem RxFrame.trans {a b c : SmCall} (h : RxFrame a b) (h' : RxFrame b c) : RxFrame a c :=
  ⟨h'.cfg.trans h.cfg, h'.mode.trans h.mode, h'.modem.trans h.modem, h'.bm.trans h.bm,
    h'.rxGuard.trans h.rxGuard, h'.txbits.trans h.txbits, h'.audioCalls.trans h.audioCalls,
    h'.spans.trans h.spans, h'.popped.trans h.popped, h'.carrierLostInData.trans h.carrierLostInData⟩

theorem callPutBit_frame (c : SmCall) (bit : Option Bool) (v34Rate : Nat) :
    RxFrame c (callPutBit c bit v34Rate) := by
  cases bit with
  | none => exact .refl c
  | some bit =>
      simp only [callPutBit]
      split_ifs <;> exact ⟨rfl, rfl, rfl, rfl, rfl, rfl, rfl, rfl, rfl, rfl⟩

theorem callStatus_frame (c : SmCall) (st : Status) : RxFrame c (callStatus c st) := by
  unfold callStatus
  split <;> exact ⟨rfl, rfl, rfl, rfl, rfl, rfl, rfl, rfl, rfl, rfl⟩

theorem rxOut_frame (c : SmCall) (out : RxOut) : RxFrame c (rxOut c out) := by
  cases out with
  | status st => exact callStatus_frame c st
  | bit b => exact callPutBit_frame c (some b) 0

theorem rxOuts_frame (outs : List RxOut) (c : SmCall) : RxFrame c (outs.foldl rxOut c) := by
  induction outs generalizing c with
  | nil => exact .refl c
  | cons out outs ih => exact (rxOut_frame c out).trans (ih _)

theorem engineEvent_engine (c : SmCall) (event : EngineEvent) :
    (engineEvent c event).bm = c.bm ∧ (engineEvent c event).mode = c.mode := by
  cases event with
  | getBit => exact ⟨rfl, rfl⟩
  | putBit bit v34Rate =>
      have h := callPutBit_frame c bit v34Rate
      exact ⟨h.bm, h.mode⟩

theorem engineEvent_step {c : SmCall} (h : c.bm = true ∨ c.mode = .v34) (event : EngineEvent) :
    EngineStep n c (engineEvent c event) := by
  cases event with
  | getBit => exact .getBit c
  | putBit bit v34Rate => exact .putBit c bit v34Rate h

theorem engineEvents_steps (events : List EngineEvent) {c : SmCall}
    (h : c.bm = true ∨ c.mode = .v34) : EngineSteps n c (engineEvents c events) := by
  induction events generalizing c with
  | nil => exact .refl
  | cons event events ih =>
      obtain ⟨hbm, hmode⟩ := engineEvent_engine c event
      have hnext : (engineEvent c event).bm = true ∨ (engineEvent c event).mode = .v34 := by
        rwa [hbm, hmode]
      exact .head (engineEvent_step h event) (ih hnext)

theorem sound_steps (c : SmCall) (start length : Nat) (h : start + length ≤ n)
    (sample : Nat → Pcm) : EngineSteps n c (sound c start length sample) :=
  .tail (.single (.touch c .txbuf start length h)) (.sounded (touch c .txbuf start length) _ c.history.sounded)

theorem soundFrom_steps (c : SmCall) (start length : Nat) (h : start + length ≤ n)
    (sample : Nat → Pcm) : EngineSteps n c (soundFrom c start length sample) :=
  .tail (sound_steps c start length h _) (.sounded (sound c start length _) _ _)

theorem modemRx_steps (c : SmCall) (start len : Nat) (rx : Nat → RxObservation) :
    EngineSteps n c (modemRx c start len rx) :=
  EngineSteps.foldl _ (fun c k _ => .single (.modemRx c (rx (start + k)))) c

theorem callGetBit_pulls {c c' : SmCall} (h : Pulls callGetBit c c') :
    EngineSteps n c c' ∧ c'.modem = c.modem := by
  induction h with
  | refl => exact ⟨.refl, rfl⟩
  | tail _ hlast ih =>
      subst hlast
      exact ⟨ih.1.tail (.getBit _), ih.2⟩

theorem modemTx_steps (c : SmCall) (start len : Nat) (h : start + len ≤ n) :
    EngineSteps n c (modemTx c start len) := by
  obtain ⟨hsent, htx, hpulls⟩ := v22bisTx_spec callGetBit len c.modem c
  rcases heq : v22bisTx callGetBit len c.modem c with ⟨sent, s, statuses, c'⟩
  simp only [heq] at hsent htx hpulls
  simp only [modemTx, heq]
  obtain ⟨hsteps, hmodem⟩ := callGetBit_pulls (n := n) hpulls
  rw [← hmodem] at htx
  have hmoved := hsteps.tail (.modemTx c' htx)
  have hsounded := hmoved.trans (soundFrom_steps { c' with modem := s } start sent (by omega) .v22)
  exact hsounded.trans (EngineSteps.foldl statuses (fun c st _ => .single (.status c st)) _)

theorem bmConnect_steps {c : SmCall} (h : c.bm = true) (rate : Nat) :
    AudioSteps n c (bmConnect c rate) := by
  unfold bmConnect
  split
  · exact .single (.bmConnect c rate h)
  · exact .single (.engine (.bookkeeping rfl))

theorem bmWatchCarrier_steps {c : SmCall} (h : c.bm = true) (k : Nat) (carrier : Bool) :
    AudioSteps n c (bmWatchCarrier c k carrier) := by
  unfold bmWatchCarrier
  split_ifs
  · exact .single (.engine (.bookkeeping rfl))
  · exact .tail (.single (.hangup c h)) (.engine (.bookkeeping rfl))
  · exact .single (.engine (.bookkeeping rfl))

theorem bmPoll_steps {c : SmCall} (h : c.bm = true) (k : Nat) (o : BmObservation) :
    AudioSteps n c (bmPoll c k o) := by
  unfold bmPoll
  cases o.status with
  | running => exact .refl
  | failed => exact .single (.hangup c h)
  | agreedV22 => exact .single (.handBack c h)
  | agreedOther => exact .single (.handBack c h)
  | retraining =>
      simp only
      split
      · exact .tail (.single (.bmRetrain c ‹_›)) (.engine (.bookkeeping rfl))
      · exact .refl
  | connected =>
      have hbm : (bmConnect c o.rateRx).bm = true := by
        unfold bmConnect
        split <;> exact h
      exact (bmConnect_steps h o.rateRx).trans (bmWatchCarrier_steps hbm k o.carrier)

theorem toneOutput_steps (c : SmCall) {i : Nat} (hi : i < n) :
    EngineSteps n c (toneOutput c i) ∧ (toneOutput c i).phase = c.phase := by
  unfold toneOutput
  split_ifs
  · exact ⟨.tail (sound_steps c i 1 hi fun _ => .silence) (.bookkeeping rfl), rfl⟩
  · exact ⟨.tail (sound_steps c i 1 hi fun _ => .tone c.tonePhase) (.bookkeeping rfl), rfl⟩
  · exact ⟨.refl, rfl⟩

theorem toneSample_steps {c : SmCall} (h : c.phase = .answerTone) {i : Nat} (hi : i < n) :
    EngineSteps n c (toneSample c i) := by
  obtain ⟨hout, hphase⟩ := toneOutput_steps c hi
  simp only [toneSample]
  split
  · exact hout.tail (.answered _ (hphase.trans h))
  · exact hout

theorem guardChunk_steps (c : SmCall) {i m : Nat} (h : i + m ≤ n) (e : AudioEnv) :
    EngineSteps n c (guardChunk c i m e).1 ∧ (guardChunk c i m e).2 ≤ m := by
  simp only [guardChunk]
  split
  · have hskip : min m c.rxGuard ≤ m := min_le_left _ _
    have htx := modemTx_steps (n := n) c i (min m c.rxGuard) (by omega)
    have hsquelch := htx.tail (.touch _ .rxsquelch 0 (min m c.rxGuard) (by omega))
    have hrx := hsquelch.trans (modemRx_steps _ i (min m c.rxGuard) e.rx)
    exact ⟨hrx.tail (.bookkeeping rfl), hskip⟩
  · exact ⟨.refl, Nat.zero_le m⟩

theorem touch_mode (c : SmCall) (buffer : AudioBuffer) (start length : Nat) :
    (touch c buffer start length).mode = c.mode := rfl

theorem soundFrom_mode (c : SmCall) (start length : Nat) (sample : Nat → Pcm) :
    (soundFrom c start length sample).mode = c.mode := rfl

theorem engineChunk_steps (c : SmCall) {i m : Nat} (h : i + m ≤ n) (e : AudioEnv) :
    EngineSteps n c (engineChunk c i m e) := by
  simp only [engineChunk]
  split
  · exact .refl
  · split
    · next hv34 =>
        have hsound := (soundFrom_steps c i m h .v34).tail (.touch _ .input i m h)
        have hmode : (touch (soundFrom c i m .v34) .input i m).mode = .v34 := by
          rw [touch_mode, soundFrom_mode, hv34]
        exact hsound.trans (engineEvents_steps e.engine (.inr hmode))
    · have hsound := (modemTx_steps c i m h).tail (.touch _ .input i m h)
      exact hsound.trans (modemRx_steps _ i m e.rx)

theorem callV8Result_eq (c : SmCall) (status modulations : Nat) :
    ∃ done ok, callV8Result c status modulations = { c with v8Done := done, v8Ok := ok } := by
  unfold callV8Result
  split <;> exact ⟨_, _, rfl⟩

theorem v8Reports_steps (reports : List V8Report) {c : SmCall} (h : c.v8 = true) :
    EngineSteps n c (v8Reports c reports) := by
  induction reports generalizing c with
  | nil => exact .refl
  | cons r reports ih =>
      obtain ⟨done, ok, heq⟩ := callV8Result_eq c r.status r.modulations
      have hrest := ih (c := { c with v8Done := done, v8Ok := ok }) h
      rw [← heq] at hrest
      exact .head (heq ▸ .v8Result c done ok h) hrest

theorem sound_v8 (c : SmCall) (start length : Nat) (sample : Nat → Pcm) :
    (sound c start length sample).v8 = c.v8 := rfl

theorem soundFrom_v8 (c : SmCall) (start length : Nat) (sample : Nat → Pcm) :
    (soundFrom c start length sample).v8 = c.v8 := rfl

theorem v8Chunk_steps (c : SmCall) {i m : Nat} (h : i + m ≤ n) (e : AudioEnv) :
    EngineSteps n c (v8Chunk c i m e) := by
  simp only [v8Chunk]
  split
  · have hsent : min e.v8Sent m ≤ m := min_le_right _ _
    have hgot := soundFrom_steps (n := n) c i (min e.v8Sent m) (by omega) .v8
    have hrest := hgot.trans (sound_steps _ (i + min e.v8Sent m) (m - min e.v8Sent m) (by omega)
      fun _ => .silence)
    have hreports := hrest.trans
      (v8Reports_steps e.v8Reports (by rwa [sound_v8, soundFrom_v8]))
    exact hreports.tail (.touch _ .input i m h)
  · exact sound_steps c i m h _

theorem audioLoop_steps (e : AudioEnv) {left : Nat} (hleft : left ≤ n) (c : SmCall) :
    EngineSteps n c (audioLoop n e left c) := by
  induction left generalizing c with
  | zero => exact .refl
  | succ left ih =>
      have hi : n - (left + 1) + (left + 1) ≤ n := by omega
      have hengine (d : SmCall) : EngineSteps n d
          (engineChunk (guardChunk d (n - (left + 1)) (left + 1) e).1
            (n - (left + 1) + (guardChunk d (n - (left + 1)) (left + 1) e).2)
            (left + 1 - (guardChunk d (n - (left + 1)) (left + 1) e).2) e) := by
        obtain ⟨hguard, hskip⟩ := guardChunk_steps d hi e
        exact hguard.trans (engineChunk_steps _ (by omega) e)
      simp only [audioLoop]
      cases hphase : c.phase with
      | v8 => exact v8Chunk_steps c hi e
      | answerTone => exact (toneSample_steps hphase (by omega)).trans (ih (by omega) _)
      | idle => exact hengine c
      | handshake => exact hengine c
      | data => exact hengine c
      | hangup => exact hengine c

theorem v8Transition_steps (c : SmCall) (e : AudioEnv) : AudioSteps n c (v8Transition c e) := by
  simp only [v8Transition]
  split
  · rename_i h
    split_ifs
    · exact .single (.startV34 c h.1 h.2)
    · have hset : AudioSteps n c { c with v8Ok := 1 } := .single (.engine (.bookkeeping rfl))
      exact hset.tail (.startV22 _ h.1)
    · exact .single (.startV34 c h.1 h.2)
    · exact .refl
    · exact .single (.startV22 c h.1)
  · exact .refl

theorem dataModeDetection_steps (c : SmCall) : AudioSteps n c (dataModeDetection c) := by
  simp only [dataModeDetection]
  split
  · rename_i h
    exact .single (.detect c h.1 h.2.2.1 h.2.2.2.1 h.2.2.2.2)
  · exact .refl

theorem captureChunk_steps (c : SmCall) (payload : List UInt8) :
    EngineSteps n c (captureChunk c payload n) := by
  simp only [captureChunk]
  split
  · have hin : EngineSteps n c (if c.capIn.isSome then touch c .input 0 n else c) := by
      split
      · exact .single (.touch c .input 0 n (by omega))
      · exact .refl
    generalize (if c.capIn.isSome then touch c .input 0 n else c) = d at hin
    have hout : EngineSteps n c (if d.capOut.isSome then touch d .txbuf 0 n else d) := by
      split
      · exact hin.tail (.touch d .txbuf 0 n (by omega))
      · exact hin
    exact hout.tail (.bookkeeping rfl)
  · exact .refl

theorem bmChunk_steps {c : SmCall} (h : c.bm = true) (e : AudioEnv) :
    EngineSteps n c (bmChunk c n e) := by
  have hengine := (engineEvents_steps (n := n) e.engine (.inl h)).tail
    (.touch _ .input 0 n (by omega))
  exact hengine.trans (soundFrom_steps _ 0 n (by omega) .bm)

theorem pollEngine_steps (c : SmCall) (k : Nat) (e : AudioEnv) :
    AudioSteps n c (pollEngine c k e) := by
  unfold pollEngine
  split
  · exact bmPoll_steps ‹_› k e.bm
  · exact .refl

theorem runEngine_steps (c : SmCall) (e : AudioEnv) : EngineSteps n c (runEngine c n e) := by
  unfold runEngine
  split
  · exact bmChunk_steps ‹_› e
  · exact audioLoop_steps e le_rfl c

theorem processAudio_steps (c : SmCall) (payload : List UInt8) (n : Nat) (e : AudioEnv) :
    ∃ c', AudioSteps n (audioStart c) c' ∧ processAudio c payload n e = audioEnd c' payload n := by
  refine ⟨_, ?_, rfl⟩
  have hcapture := (captureChunk_steps (n := n) (audioStart c) payload).audio
  have hpolled := hcapture.trans (pollEngine_steps _ n e)
  have hran := hpolled.trans (runEngine_steps _ e).audio
  exact (hran.trans (v8Transition_steps _ e)).trans (dataModeDetection_steps _)

structure AudioFrame (c c' : SmCall) : Prop where
  cfg : c'.cfg = c.cfg
  as : c'.as = c.as
  pppFd : c'.pppFd = c.pppFd
  pppStarted : c'.pppStarted = c.pppStarted
  ppyOut : c'.ppyOut = c.ppyOut
  pppRead : c'.history.pppRead = c.history.pppRead
  framed : c'.history.framed = c.history.framed
  taken : c'.history.taken = c.history.taken
  written : c'.history.written = c.history.written
  stagingFull : c'.history.stagingFull = c.history.stagingFull

theorem AudioFrame.refl (c : SmCall) : AudioFrame c c :=
  ⟨rfl, rfl, rfl, rfl, rfl, rfl, rfl, rfl, rfl, rfl⟩

theorem AudioFrame.trans {a b c : SmCall} (h : AudioFrame a b) (h' : AudioFrame b c) :
    AudioFrame a c :=
  ⟨h'.cfg.trans h.cfg, h'.as.trans h.as, h'.pppFd.trans h.pppFd,
    h'.pppStarted.trans h.pppStarted, h'.ppyOut.trans h.ppyOut, h'.pppRead.trans h.pppRead,
    h'.framed.trans h.framed, h'.taken.trans h.taken, h'.written.trans h.written,
    h'.stagingFull.trans h.stagingFull⟩

theorem AudioFrame.of_core {c c' : SmCall} (h : c'.core = c.core) : AudioFrame c c' :=
  ⟨congrArg (·.cfg) h, congrArg (·.as) h, congrArg (·.pppFd) h, congrArg (·.pppStarted) h,
    congrArg (·.ppyOut) h, congrArg (·.history.pppRead) h, congrArg (·.history.framed) h,
    congrArg (·.history.taken) h, congrArg (·.history.written) h,
    congrArg (·.history.stagingFull) h⟩

theorem callPutBit_audioFrame (c : SmCall) (bit : Option Bool) (v34Rate : Nat) :
    AudioFrame c (callPutBit c bit v34Rate) := by
  cases bit with
  | none => exact .refl c
  | some bit =>
      simp only [callPutBit]
      split_ifs <;> exact ⟨rfl, rfl, rfl, rfl, rfl, rfl, rfl, rfl, rfl, rfl⟩

theorem callStatus_audioFrame (c : SmCall) (st : Status) : AudioFrame c (callStatus c st) := by
  unfold callStatus
  split <;> exact ⟨rfl, rfl, rfl, rfl, rfl, rfl, rfl, rfl, rfl, rfl⟩

theorem rxOuts_audioFrame (outs : List RxOut) (c : SmCall) :
    AudioFrame c (outs.foldl rxOut c) := by
  induction outs generalizing c with
  | nil => exact .refl c
  | cons out outs ih =>
      refine AudioFrame.trans ?_ (ih _)
      cases out with
      | status st => exact callStatus_audioFrame c st
      | bit b => exact callPutBit_audioFrame c (some b) 0

theorem engineStep_frame {c c' : SmCall} (h : EngineStep n c c') : AudioFrame c c' := by
  cases h with
  | bookkeeping h => exact .of_core h
  | putBit bit v34Rate _ => exact callPutBit_audioFrame c bit v34Rate
  | status st => exact callStatus_audioFrame c st
  | modemRx o =>
      have hreceived : AudioFrame c (receiveSample c o) :=
        ⟨rfl, rfl, rfl, rfl, rfl, rfl, rfl, rfl, rfl, rfl⟩
      exact hreceived.trans (rxOuts_audioFrame _ _)
  | _ => exact ⟨rfl, rfl, rfl, rfl, rfl, rfl, rfl, rfl, rfl, rfl⟩

theorem audioStep_frame {c c' : SmCall} (h : AudioStep n c c') : AudioFrame c c' := by
  cases h with
  | engine h => exact engineStep_frame h
  | _ => exact ⟨rfl, rfl, rfl, rfl, rfl, rfl, rfl, rfl, rfl, rfl⟩

theorem processAudio_frame (c : SmCall) (payload : List UInt8) (k : Nat) (e : AudioEnv) :
    AudioFrame c (processAudio c payload k e) := by
  obtain ⟨c', hsteps, heq⟩ := processAudio_steps c payload k e
  have hstart : AudioFrame c (audioStart c) := ⟨rfl, rfl, rfl, rfl, rfl, rfl, rfl, rfl, rfl, rfl⟩
  have hkept : AudioFrame c c' :=
    hsteps.invariant (P := AudioFrame c) (fun _ _ hstep hc => hc.trans (audioStep_frame hstep)) hstart
  rw [heq]
  exact hkept.trans ⟨rfl, rfl, rfl, rfl, rfl, rfl, rfl, rfl, rfl, rfl⟩

end Softmodem.Call

import Softmodem.Call.AllowedEvents
import Softmodem.Call.Sequencing

namespace Softmodem.Call

open AudioSocket Serial V22bis

def HandsBack (o : BmObservation) : Prop := o.status = .agreedV22 ∨ o.status = .agreedOther

instance (o : BmObservation) : Decidable (HandsBack o) := inferInstanceAs (Decidable (_ ∨ _))

def answerDue (c : SmCall) (k : Nat) : Pcm :=
  let silence := c.silenceSamplesLeft.toNat
  let tone := c.toneSamplesLeft.toNat
  if k < silence then .silence
  else if k < silence + tone then .tone (c.tonePhase + (k - silence))
  else .v22 (c.history.sounded + (k - (silence + tone)))

def engineDue (c : SmCall) (k : Nat) : Pcm :=
  if c.mode = .v34 then .v34 (c.history.sounded + k) else .v22 (c.history.sounded + k)

-- The sample the line is owed k samples into the next message.
def due (c : SmCall) (e : AudioEnv) (k : Nat) : Pcm :=
  if c.bm then
    if HandsBack e.bm then .v22 (c.history.sounded + k) else .bm (c.history.sounded + k)
  else
    match c.phase with
    | .v8 => if c.v8 = true ∧ k < e.v8Sent then .v8 (c.history.sounded + k) else .silence
    | .answerTone => answerDue c k
    | _ => engineDue c k

def InAnswer (c : SmCall) : Prop :=
  c.phase = .answerTone → ∃ pre tone k, Answering pre tone k c

theorem InAnswer.frame {c c' : SmCall} (h : InAnswer c) (hf : LineFrame c c') : InAnswer c' := by
  intro hphase
  rcases hf.phase with hkept | ⟨-, hon⟩
  · obtain ⟨pre, tone, k, hanswering⟩ := h (hkept.symm.trans hphase)
    exact ⟨pre, tone, k, hanswering.frame hf⟩
  · exact absurd hphase hon.2

structure Playing (c : SmCall) : Prop where
  running : TxRunning c
  guard : c.mode = .v34 → c.rxGuard = 0
  answering : InAnswer c

theorem answerDue_answering {pre tone k : Nat} {c : SmCall} (h : Answering pre tone k c) (j : Nat) :
    answerDue c j = answerSample pre tone (k + j) := by
  have hgoing := h.going
  simp only [answerDue, answerSample, h.counters.silenceLeft, h.counters.toneLeft,
    h.counters.tonePhase, h.sounded]
  split_ifs <;> first | rfl | omega | (congr 1; omega)

theorem overwrite_congr {i m : Nat} {sample sample' : Nat → Pcm} (buffer : Nat → Pcm)
    (h : ∀ j < m, sample j = sample' j) :
    overwrite i m sample buffer = overwrite i m sample' buffer := by
  funext j
  unfold overwrite
  split
  · exact h _ (by omega)
  · rfl

theorem soundFrom_txbuf (c : SmCall) (i m : Nat) (sample : Nat → Pcm) :
    (soundFrom c i m sample).txbuf =
      overwrite i m (fun j => sample (c.history.sounded + j)) c.txbuf := rfl

theorem sound_txbuf (c : SmCall) (i m : Nat) (sample : Nat → Pcm) :
    (sound c i m sample).txbuf = overwrite i m sample c.txbuf := rfl

structure BufferFrame (c c' : SmCall) : Prop where
  txbuf : c'.txbuf = c.txbuf
  sounded : c'.history.sounded = c.history.sounded

theorem BufferFrame.trans {a b c : SmCall} (h : BufferFrame a b) (h' : BufferFrame b c) :
    BufferFrame a c := ⟨h'.txbuf.trans h.txbuf, h'.sounded.trans h.sounded⟩

theorem LineFrame.buffer {c c' : SmCall} (h : LineFrame c c') : BufferFrame c c' :=
  ⟨h.txbuf, h.sounded⟩

theorem engineEvents_buffer (events : List EngineEvent) (c : SmCall) :
    BufferFrame c (engineEvents c events) := by
  induction events generalizing c with
  | nil => exact ⟨rfl, rfl⟩
  | cons event events ih =>
      refine BufferFrame.trans ?_ (ih _)
      cases event with
      | getBit => exact ⟨rfl, rfl⟩
      | putBit bit v34Rate =>
          cases bit with
          | none => exact ⟨rfl, rfl⟩
          | some bit =>
              simp only [engineEvent, callPutBit]
              split_ifs <;> exact ⟨rfl, rfl⟩

theorem bmPoll_buffer (c : SmCall) (n : Nat) (o : BmObservation) :
    BufferFrame c (bmPoll c n o) := by
  unfold bmPoll bmWatchCarrier bmConnect
  cases o.status with
  | retraining =>
      simp only
      split <;> exact ⟨rfl, rfl⟩
  | connected =>
      simp only
      split_ifs <;> exact ⟨rfl, rfl⟩
  | _ => exact ⟨rfl, rfl⟩

theorem v8Transition_buffer (c : SmCall) (e : AudioEnv) : BufferFrame c (v8Transition c e) := by
  have hcases := v8Transition_cases c e
  generalize v8Transition c e = d at hcases ⊢
  cases hcases <;> exact ⟨rfl, rfl⟩

theorem ending_buffer (c : SmCall) (payload : List UInt8) (n : Nat) (e : AudioEnv) :
    BufferFrame c (audioEnd (dataModeDetection (v8Transition c e)) payload n) :=
  (v8Transition_buffer c e).trans
    ((dataModeDetection_line _).trans (audioEnd_line _ payload n)).buffer

theorem bmPoll_handsBack {c : SmCall} (n : Nat) {o : BmObservation} (h : HandsBack o) :
    bmPoll c n o = bmHandBack c := by
  unfold bmPoll
  rcases h with h | h <;> rw [h]

theorem bmPoll_keeps {c : SmCall} (n : Nat) {o : BmObservation} (h : ¬ HandsBack o) :
    (bmPoll c n o).bm = c.bm := by
  unfold bmPoll bmWatchCarrier bmConnect
  cases hstatus : o.status with
  | agreedV22 => exact absurd (.inl hstatus) h
  | agreedOther => exact absurd (.inr hstatus) h
  | retraining =>
      simp only
      split <;> rfl
  | connected =>
      simp only
      split_ifs <;> rfl
  | _ => rfl

section Loop

variable {c : SmCall}

theorem bmChunk_txbuf (n : Nat) (e : AudioEnv) :
    (bmChunk c n e).txbuf = overwrite 0 n (fun j => .bm (c.history.sounded + j)) c.txbuf := by
  have hevents := engineEvents_buffer e.engine c
  rw [bmChunk, soundFrom_txbuf, (touch_line _ .input 0 n).txbuf, (touch_line _ .input 0 n).sounded,
    hevents.txbuf, hevents.sounded]

theorem v8Chunk_txbuf (m : Nat) (e : AudioEnv) :
    (v8Chunk c 0 m e).txbuf = overwrite 0 m
      (fun j => if c.v8 = true ∧ j < e.v8Sent then .v8 (c.history.sounded + j) else .silence)
      c.txbuf := by
  unfold v8Chunk
  split
  · next hv8 =>
    simp only [(touch_line _ .input 0 m).txbuf, (v8Reports_line e.v8Reports _).txbuf, sound_txbuf,
      soundFrom_txbuf]
    funext j
    simp only [overwrite, hv8, true_and]
    split_ifs <;> first | rfl | omega
  · next hv8 =>
    rw [sound_txbuf]
    exact overwrite_congr _ fun j _ => by simp [hv8]

theorem audioLoop_v34 {n : Nat} (hmode : c.mode = .v34) (hguard : c.rxGuard = 0)
    (hengine : OnEngine c) (e : AudioEnv) :
    (audioLoop n e n c).txbuf = overwrite 0 n (fun j => .v34 (c.history.sounded + j)) c.txbuf := by
  cases n with
  | zero => exact (overwrite_zero 0 _ c.txbuf).symm
  | succ left =>
      have hloop : audioLoop (left + 1) e (left + 1) c = engineChunk c 0 (left + 1) e := by
        unfold audioLoop
        split
        · exact absurd ‹_› hengine.1
        · exact absurd ‹_› hengine.2
        · simp [guardChunk, hguard]
      rw [hloop]
      simp only [engineChunk, if_neg (Nat.succ_ne_zero left), if_pos hmode]
      rw [(engineEvents_buffer e.engine _).txbuf, (touch_line _ .input 0 _).txbuf, soundFrom_txbuf]

theorem audioLoop_txbuf (h : Playing c) (hbm : c.bm = false) (n : Nat) (e : AudioEnv) :
    (audioLoop n e n c).txbuf = overwrite 0 n (due c e) c.txbuf := by
  have hengine (hon : OnEngine c) :
      (audioLoop n e n c).txbuf = overwrite 0 n (engineDue c) c.txbuf := by
    by_cases hmode : c.mode = .v34
    · rw [audioLoop_v34 hmode (h.guard hmode) hon e]
      exact overwrite_congr _ fun j _ => by simp [engineDue, hmode]
    · have hv22 : InV22 c.rxGuard c.history.sounded c := by
        refine ⟨?_, hbm, rfl, h.running, rfl, hon⟩
        cases hc : c.mode with
        | v22 => rfl
        | v34 => exact absurd hc hmode
      rw [(audioLoop_inV22 hv22 0 n n e).2.1, Nat.sub_self]
      exact overwrite_congr _ fun j _ => by simp [engineDue, hmode]
  have hdue (hon : OnEngine c) : due c e = engineDue c := by
    funext k
    unfold due
    rw [hbm, if_neg (by decide)]
    split
    · exact absurd ‹_› hon.1
    · exact absurd ‹_› hon.2
    · rfl
  by_cases hv8 : c.phase = .v8
  · have hdue : due c e = fun j =>
        if c.v8 = true ∧ j < e.v8Sent then .v8 (c.history.sounded + j) else .silence := by
      funext k
      simp [due, hbm, hv8]
    cases n with
    | zero => exact (overwrite_zero 0 _ c.txbuf).symm
    | succ left =>
        rw [hdue, ← v8Chunk_txbuf]
        simp only [audioLoop, hv8, Nat.sub_self]
  · by_cases htone : c.phase = .answerTone
    · obtain ⟨pre, tone, k, hanswering⟩ := h.answering htone
      rw [(audioLoop_answerAt le_rfl (.inl hanswering) 0 e).2.1, Nat.sub_self]
      refine overwrite_congr _ fun j _ => ?_
      rw [← answerDue_answering hanswering]
      simp [due, hbm, htone]
    · rw [hdue ⟨hv8, htone⟩]
      exact hengine ⟨hv8, htone⟩

end Loop

theorem Playing.frame {c c' : SmCall} (h : Playing c) (hf : LineFrame c c') : Playing c' := by
  refine ⟨hf.shutdown.trans h.running, ?_, h.answering.frame hf⟩
  rw [hf.mode, hf.rxGuard]
  exact h.guard

theorem LineFrame.due {c c' : SmCall} (h : LineFrame c c') (hv8 : c'.v8 = c.v8)
    (hphase : c'.phase = c.phase) (e : AudioEnv) : due c' e = due c e := by
  funext k
  simp only [Call.due, answerDue, engineDue, h.bm, hphase, hv8, h.sounded, h.mode, h.silence,
    h.tone, h.tonePhase]

theorem processAudio_txbuf {c : SmCall} (h : Playing c) (payload : List UInt8) (n : Nat)
    (e : AudioEnv) :
    (processAudio c payload n e).txbuf = overwrite 0 n (due c e) c.txbuf := by
  have hbegin := beginning_line c payload n
  have hv8 : (captureChunk (audioStart c) payload n).v8 = c.v8 := by
    simp only [captureChunk]
    split_ifs <;> rfl
  have hphase : (captureChunk (audioStart c) payload n).phase = c.phase := by
    simp only [captureChunk]
    split_ifs <;> rfl
  have hdue := hbegin.due hv8 hphase e
  have hplaying := h.frame hbegin
  rw [processAudio, (ending_buffer _ payload n e).txbuf, ← hdue, ← hbegin.txbuf]
  generalize captureChunk (audioStart c) payload n = b at hplaying ⊢
  rcases Bool.eq_false_or_eq_true b.bm with hbm | hbm
  · rw [pollEngine, if_pos hbm]
    by_cases hback : HandsBack e.bm
    · have hv22 : InV22 (smSampleRate * 500 / 1000) b.history.sounded (bmHandBack b) :=
        ⟨rfl, rfl, rfl, hplaying.running, rfl, by simp [OnEngine, bmHandBack]⟩
      rw [bmPoll_handsBack n hback, runEngine, if_neg (by simp [bmHandBack]),
        (audioLoop_inV22 hv22 0 n n e).2.1, Nat.sub_self]
      exact overwrite_congr _ fun j _ => by simp [due, hbm, hback]
    · have hpolled := bmPoll_buffer b n e.bm
      rw [runEngine, if_pos ((bmPoll_keeps n hback).trans hbm), bmChunk_txbuf, hpolled.txbuf,
        hpolled.sounded]
      exact overwrite_congr _ fun j _ => by simp [due, hbm, hback]
  · rw [pollEngine, if_neg (by simp [hbm]), runEngine, if_neg (by simp [hbm])]
    exact audioLoop_txbuf hplaying hbm n e

theorem audioStep_toneOver {n : Nat} {c c' : SmCall} (h : AudioStep n c c')
    (hc : c.phase ≠ .answerTone) : c'.phase ≠ .answerTone := by
  cases h with
  | engine h =>
      cases h with
      | bookkeeping hcore =>
          have hphase : c'.phase = c.phase := (congrArg SmCall.phase hcore :)
          rwa [hphase]
      | putBit bit v34Rate _ =>
          cases bit with
          | none => exact hc
          | some bit =>
              simp only [callPutBit]
              split_ifs <;> first | exact hc | simp [deliverBit, enterData]
      | status st =>
          unfold callStatus
          split
          · simp
          · exact hc
      | modemRx o =>
          refine List.foldlRecOn (motive := fun d : SmCall => d.phase ≠ .answerTone) _ rxOut hc ?_
          intro d hd out _
          cases out with
          | status st =>
              simp only [rxOut, callStatus]
              split
              · simp
              · exact hd
          | bit b =>
              simp only [rxOut, callPutBit]
              split_ifs <;> first | exact hd | simp [deliverBit, enterData]
      | answered h => exact absurd h hc
      | _ => exact hc
  | _ => simp [bmHandBack, startV34, startV22, enterData]

theorem processAudio_toneOver {c : SmCall} (h : c.phase ≠ .answerTone) (payload : List UInt8)
    (n : Nat) (e : AudioEnv) : (processAudio c payload n e).phase ≠ .answerTone := by
  obtain ⟨c', hsteps, heq⟩ := processAudio_steps c payload n e
  rw [heq]
  exact hsteps.invariant (P := fun d => d.phase ≠ .answerTone)
    (fun _ _ hstep hd => audioStep_toneOver hstep hd) h

theorem Closing.inAnswer {c c' : SmCall} (h : Closing c c') (hc : InAnswer c) : InAnswer c' := by
  intro hphase
  have hbefore : c.phase = .answerTone := by
    cases h with
    | going => exact hphase
    | closed => exact hphase
  obtain ⟨pre, tone, k, hanswering⟩ := hc hbefore
  exact ⟨pre, tone, k, hanswering.frame (h.line hanswering.bm)⟩

theorem processAudio_inAnswer {a : AudioTurn} (h : InAnswer a.call) (e : AudioEnv) :
    InAnswer (a.after e) := by
  intro hphase
  by_cases htone : a.call.phase = .answerTone
  · obtain ⟨pre, tone, k, hanswering⟩ := h htone
    obtain ⟨hnext | ⟨-, hengine⟩, -⟩ := chunk_answerAt (.inl hanswering) 0 e
    · exact ⟨pre, tone, k + a.samples, hnext⟩
    · exact absurd hphase hengine.engine.2
  · exact absurd hphase (processAudio_toneOver htone a.payload a.samples e)

theorem turn_inAnswer {s : CallRun} (t : Turn) (h : InAnswer s.call) :
    InAnswer (smCallTurn s t).call := by
  rcases haudio : audioOf s with _ | a
  · obtain ⟨c, hbetween, hclosing⟩ := quiet_turn haudio t
    apply hclosing.inAnswer
    cases hbetween with
    | read as _ => exact h.frame (socket_line s.call as)
    | pumped _ => exact h.frame (pumpPpp_lineFrame s.call t.pump)
  · obtain ⟨⟨as, ha⟩, hclosing⟩ := audioOf_turn haudio t
    have hbegin : InAnswer a.call := ha ▸ h.frame (socket_line s.call as)
    exact hclosing.inAnswer (processAudio_inAnswer hbegin t.audio)

theorem startAnswer_phase {c : SmCall} (h : (startAnswer c).phase = .answerTone) :
    c.cfg.answerToneMs > 0 ∨ c.cfg.preToneSilenceMs > 0 := by
  unfold startAnswer at h
  split at h
  · assumption
  · cases h

theorem init_inAnswer (cfg : SmCallConfig) (r : InitResults) : InAnswer (smCallInit cfg r) := by
  by_cases hplain : PlainAnswer cfg r
  · intro _
    exact ⟨_, _, _, init_answering hplain⟩
  · intro hphase
    refine absurd ?_ hplain
    by_cases hbm : cfg.useBinmodem = true ∧ r.bmCreated = true
    · simp [smCallInit, hbm] at hphase
    by_cases hv8 : cfg.useV8 = true ∧ r.v8Created = true
    · simp [smCallInit, hbm, hv8] at hphase
    refine ⟨hbm, hv8, ?_⟩
    simp only [smCallInit, if_neg hbm, if_neg hv8] at hphase
    exact startAnswer_phase hphase

structure RunPlaying (s : CallRun) : Prop where
  running : TxRunning s.call
  inv : RunInv s
  answering : InAnswer s.call

theorem RunPlaying.playing {s : CallRun} (h : RunPlaying s) : Playing s.call :=
  ⟨h.running, fun hmode => h.inv.call.guard (.inr hmode), h.answering⟩

theorem RunPlaying.turn {s : CallRun} (h : RunPlaying s) (t : Turn) :
    RunPlaying (smCallTurn s t) :=
  ⟨turn_running t h.running, (turn_allowed h.inv t).2, turn_inAnswer t h.answering⟩

theorem start_playing (cfg : SmCallConfig) (r : InitResults) (peer : Peer) :
    RunPlaying (smCallStart (smCallInit cfg r) peer) :=
  ⟨run_running cfg r peer [], start_runInv cfg r peer,
    (init_inAnswer cfg r).frame (socket_line _ smAstInit)⟩

theorem AudioTurn.due_played {a : AudioTurn} (h : Playing a.call) (e : AudioEnv) :
    a.played e = (List.range a.samples).map (due a.call e) ∧
      (a.after e).txbuf = overwrite 0 a.samples (due a.call e) a.call.txbuf := by
  have hbuf : (a.after e).txbuf = _ := processAudio_txbuf h a.payload a.samples e
  refine ⟨?_, hbuf⟩
  rw [AudioTurn.played, hbuf]
  have hall := overwrite_played (n := a.samples) (due a.call e) a.call.txbuf
  rwa [Nat.sub_self] at hall

end Softmodem.Call

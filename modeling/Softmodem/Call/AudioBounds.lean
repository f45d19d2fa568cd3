import Softmodem.Call.Run
import Softmodem.Call.Steps

namespace Softmodem.Call

open AudioSocket Serial V22bis

def AudioBuffer.size (stored : Nat) : AudioBuffer → Nat
  | .input => stored / 2
  | .txbuf => txbufSize
  | .rxsquelch => txbufSize

structure AudioCall.InBounds (a : AudioCall) : Prop where
  samples : a.n ≤ txbufSize
  payload : 2 * a.n ≤ a.stored
  spans : ∀ sp ∈ a.spans, sp.start + sp.length ≤ sp.buffer.size a.stored

def AudioInBounds (s : CallRun) : Prop := ∀ a ∈ s.call.history.audioCalls, a.InBounds

def FirstAudioFits (s : CallRun) (_ : Turn) : Prop :=
  s.stage = .firstMessage → ∀ payload plen,
    (smAstRead s.call.as s.peer smAsMaxPayload).1 = .message smAsKindAudio payload plen →
      plen ≤ smAsMaxPayload + 1

theorem smAstRead_stored {s : SmAstSocket} {p : Peer} {kind : UInt8} {payload : List UInt8}
    {plen : Nat} (h : (smAstRead s p smAsMaxPayload).1 = .message kind payload plen) :
    payload.length = min plen smAsMaxPayload := by
  have hpayload (s : SmAstSocket) (p : Peer)
      (h : (smAstReadPayload s p smAsMaxPayload).1 = .message kind payload plen) :
      payload.length = min plen smAsMaxPayload := by
    unfold smAstReadPayload at h
    rcases hr : payloadLoop (s.rxExpected - s.rxlen) s p with ⟨_ | why, s', p'⟩
    · simp only [hr, SmAstRead.message.injEq] at h
      rw [← h.2.1, ← h.2.2, Buffer.first_length]
      omega
    · simp [hr] at h
  unfold smAstRead at h
  split at h
  · exact hpayload s p h
  · rcases hr : headerLoop (3 - s.rxhdr) s p with ⟨_ | why, s', p'⟩
    · exact hpayload _ _ (by simpa only [hr] using h)
    · simp [hr] at h

structure SpansWithin (n : Nat) (calls : List AudioCall) (c : SmCall) : Prop where
  calls : c.history.audioCalls = calls
  spans : ∀ sp ∈ c.history.spans, sp.start + sp.length ≤ n

section Spans

variable {n : Nat} {calls : List AudioCall}

theorem SpansWithin.of_history {c c' : SmCall} (h : SpansWithin n calls c)
    (hcalls : c'.history.audioCalls = c.history.audioCalls)
    (hspans : c'.history.spans = c.history.spans) : SpansWithin n calls c' := by
  refine ⟨hcalls.trans h.calls, ?_⟩
  rw [hspans]
  exact h.spans

theorem SpansWithin.of_rxFrame {c c' : SmCall} (h : SpansWithin n calls c) (hf : RxFrame c c') :
    SpansWithin n calls c' := h.of_history hf.audioCalls hf.spans

theorem engineStep_spans {c c' : SmCall} (hstep : EngineStep n c c') (h : SpansWithin n calls c) :
    SpansWithin n calls c' := by
  cases hstep with
  | bookkeeping hcore =>
      have hhistory : c'.core.history = c.core.history := congrArg SmCall.history hcore
      exact h.of_history (congrArg CallHistory.audioCalls hhistory)
        (congrArg CallHistory.spans hhistory)
  | touch buffer start length hle =>
      refine ⟨h.calls, ?_⟩
      intro sp hsp
      rcases List.mem_append.mp hsp with hsp | hsp
      · exact h.spans sp hsp
      · rw [List.mem_singleton.mp hsp]
        exact hle
  | putBit bit v34Rate _ => exact h.of_rxFrame (callPutBit_frame c bit v34Rate)
  | status st => exact h.of_rxFrame (callStatus_frame c st)
  | modemRx o =>
      have hreceived : SpansWithin n calls (receiveSample c o) := h.of_history rfl rfl
      exact hreceived.of_rxFrame (rxOuts_frame _ _)
  | _ => exact h.of_history rfl rfl

theorem audioStep_spans {c c' : SmCall} (hstep : AudioStep n c c') (h : SpansWithin n calls c) :
    SpansWithin n calls c' := by
  cases hstep with
  | engine hstep => exact engineStep_spans hstep h
  | _ => exact h.of_history rfl rfl

end Spans

theorem processAudio_spans (c : SmCall) (payload : List UInt8) (n : Nat) (e : AudioEnv) :
    ∃ spans, (∀ sp ∈ spans, sp.start + sp.length ≤ n) ∧
      (processAudio c payload n e).history.audioCalls =
        c.history.audioCalls ++ [⟨n, payload.length, spans⟩] := by
  obtain ⟨c', hsteps, heq⟩ := processAudio_steps c payload n e
  have hstart : SpansWithin n c.history.audioCalls (audioStart c) :=
    ⟨rfl, by simp [audioStart]⟩
  have h := hsteps.invariant (fun _ _ hstep => audioStep_spans hstep) hstart
  refine ⟨c'.history.spans, h.spans, ?_⟩
  rw [heq, ← h.calls]
  rfl

structure AudioCall.From (a : AudioCall) (plen n : Nat) : Prop where
  samples : a.n = n
  stored : a.stored = min plen smAsMaxPayload
  spans : ∀ sp ∈ a.spans, sp.start + sp.length ≤ a.n

theorem AudioCall.From.inBounds {a : AudioCall} {plen n : Nat} (h : a.From plen n)
    (hn : n ≤ txbufSize) (hplen : 2 * n ≤ min plen smAsMaxPayload) : a.InBounds := by
  refine ⟨h.samples ▸ hn, by rw [h.samples, h.stored]; exact hplen, ?_⟩
  intro sp hsp
  have hend := h.spans sp hsp
  rw [h.samples] at hend
  cases hbuffer : sp.buffer with
  | input =>
      simp only [AudioBuffer.size, h.stored]
      omega
  | txbuf => exact hend.trans hn
  | rxsquelch => exact hend.trans hn

theorem processAudio_calls (c : SmCall) {payload : List UInt8} {plen : Nat} (n : Nat)
    (e : AudioEnv) (h : payload.length = min plen smAsMaxPayload) :
    ∃ a : AudioCall, a.From plen n ∧
      (processAudio c payload n e).history.audioCalls = c.history.audioCalls ++ [a] := by
  obtain ⟨spans, hspans, heq⟩ := processAudio_spans c payload n e
  exact ⟨⟨n, payload.length, spans⟩, ⟨rfl, h, hspans⟩, heq⟩

theorem audioLength_le (plen : Nat) : audioLength plen / 2 ≤ txbufSize ∧
    2 * (audioLength plen / 2) ≤ min plen smAsMaxPayload := by
  have hsize : txbufSize = 2048 := rfl
  simp only [audioLength, hsize, smAsMaxPayload]
  split_ifs <;> omega

theorem turn_calls (s : CallRun) (t : Turn) :
    (smCallTurn s t).call.history.audioCalls = s.call.history.audioCalls ∨
      ∃ (a : AudioCall) (payload : List UInt8) (plen n : Nat), a.From plen n ∧
        (smAstRead s.call.as s.peer smAsMaxPayload).1 = .message smAsKindAudio payload plen ∧
        (s.stage = .firstMessage ∧ n = plen / 2 ∨
          s.stage = .message ∧ n = audioLength plen / 2) ∧
        (smCallTurn s t).call.history.audioCalls = s.call.history.audioCalls ++ [a] := by
  obtain ⟨stages, c, heffect, hcall⟩ := smCallTurn_turned s t
  have hhistory : (smCallTurn s t).call.history = c.history := by
    rcases hcall with ⟨hcall, -⟩ | ⟨hcall, -⟩
    · rw [hcall]
    · rw [hcall]
      rfl
  rw [hhistory]
  cases heffect with
  | read as _ => exact .inl rfl
  | firstAudio as h hread =>
      obtain ⟨a, hfrom, hcalls⟩ := processAudio_calls { s.call with as := as } _ t.audio
        (smAstRead_stored hread)
      exact .inr ⟨a, _, _, _, hfrom, hread, .inl ⟨h, rfl⟩, hcalls⟩
  | audio as h _ hread =>
      obtain ⟨a, hfrom, hcalls⟩ := processAudio_calls { s.call with as := as } _ t.audio
        (smAstRead_stored hread)
      exact .inr ⟨a, _, _, _, hfrom, hread, .inr ⟨h, rfl⟩, hcalls⟩
  | pumped h =>
      rcases pumpPpp_cases s.call t.pump with hframe | hfailed
      · exact .inl hframe.audioCalls
      · exact .inl (by rw [hfailed])

theorem turn_inBounds {s : CallRun} {t : Turn} (h : AudioInBounds s) (hfits : FirstAudioFits s t) :
    AudioInBounds (smCallTurn s t) := by
  rcases turn_calls s t with hcalls | ⟨a, payload, plen, n, hfrom, hread, hn, hcalls⟩
  · intro a ha
    rw [hcalls] at ha
    exact h a ha
  · intro b hb
    rw [hcalls] at hb
    rcases List.mem_append.mp hb with hb | hb
    · exact h b hb
    · rw [List.mem_singleton.mp hb]
      rcases hn with ⟨hstage, rfl⟩ | ⟨-, rfl⟩
      · have hplen := hfits hstage payload plen hread
        have hsize : txbufSize = 2048 := rfl
        simp only [smAsMaxPayload] at hplen
        exact hfrom.inBounds (by omega) (by simp only [smAsMaxPayload]; omega)
      · exact hfrom.inBounds (audioLength_le plen).1 (audioLength_le plen).2

theorem turn_outOfBounds {s : CallRun} {t : Turn} (h : ¬ AudioInBounds s) :
    ¬ AudioInBounds (smCallTurn s t) := by
  intro hin
  apply h
  intro a ha
  rcases turn_calls s t with hcalls | ⟨b, payload, plen, n, hfrom, hread, hn, hcalls⟩
  · exact hin a (hcalls ▸ ha)
  · exact hin a (hcalls ▸ List.mem_append_left [b] ha)

theorem firstMessage_audio {s : CallRun} {payload : List UInt8} {plen : Nat} (t : Turn)
    (hstage : s.stage = .firstMessage)
    (hread : (smAstRead s.call.as s.peer smAsMaxPayload).1 =
      .message smAsKindAudio payload plen) :
    ∃ a : AudioCall, a.From plen (plen / 2) ∧ a ∈ (smCallTurn s t).call.history.audioCalls := by
  obtain ⟨as, hcall, hfst⟩ := readMessage_call s
  rcases hr : readMessage s with ⟨r, s'⟩
  simp only [hr] at hcall hfst
  have hr' : r = .message smAsKindAudio payload plen := hfst.trans hread
  subst hr'
  obtain ⟨a, hfrom, hcalls⟩ := processAudio_calls s'.call (plen / 2) t.audio
    (smAstRead_stored hread)
  have hmem : a ∈ (processAudio s'.call payload (plen / 2) t.audio).history.audioCalls := by
    rw [hcalls]
    simp
  refine ⟨a, hfrom, ?_⟩
  simpa [smCallTurn, hstage, firstMessage, hr, smAsKindAudio, smAsKindUuid] using hmem

theorem turn_overrun {s : CallRun} {t : Turn} (h : ¬ FirstAudioFits s t) :
    ¬ AudioInBounds (smCallTurn s t) := by
  simp only [FirstAudioFits, not_forall, not_le] at h
  obtain ⟨hstage, payload, plen, hread, hlong⟩ := h
  obtain ⟨a, hfrom, hmem⟩ := firstMessage_audio t hstage hread
  intro hin
  have hn := (hin a hmem).samples
  have hsize : txbufSize = 2048 := rfl
  simp only [smAsMaxPayload] at hlong
  rw [hfrom.samples] at hn
  omega

theorem audio_in_bounds_iff_first_audio_fits (cfg : SmCallConfig) (r : InitResults) (peer : Peer)
    (turns : List Turn) :
    AudioInBounds (smCallRun cfg r peer turns) ↔
      Transition.Along smCallTurn FirstAudioFits (smCallStart (smCallInit cfg r) peer) turns := by
  have hstart : AudioInBounds (smCallStart (smCallInit cfg r) peer) := by
    have hcalls : (smCallStart (smCallInit cfg r) peer).call.history.audioCalls = [] := by
      simp only [smCallStart, smCallInit, startAnswer]
      split_ifs <;> rfl
    intro a ha
    rw [hcalls] at ha
    cases ha
  exact Transition.along_iff (fun _ _ h hfits => turn_inBounds h hfits)
    (fun _ _ _ hover => turn_overrun hover) (fun _ _ h => turn_outOfBounds h) (fun _ h => h)
    turns hstart

def longAudioPeer : Peer :=
  ⟨[0x10, 0x10, 0x02] ++ List.replicate 4098 0, [.data 3, .data 4096, .data 2]⟩

def isAudioOf (len : Nat) : SmAstRead → Bool
  | .message kind _ plen => kind == smAsKindAudio && plen == len
  | .interrupted _ => false

theorem longAudioPeer_read :
    ∃ payload, (smAstRead smAstInit longAudioPeer smAsMaxPayload).1 =
      .message smAsKindAudio payload 4098 := by
  have hmessage : isAudioOf 4098 (smAstRead smAstInit longAudioPeer smAsMaxPayload).1 = true := by
    decide +kernel
  generalize (smAstRead smAstInit longAudioPeer smAsMaxPayload).1 = r at hmessage
  cases r with
  | interrupted why => cases hmessage
  | message kind payload plen =>
      simp only [isAudioOf, Bool.and_eq_true, beq_iff_eq] at hmessage
      exact ⟨payload, by rw [hmessage.1, hmessage.2]⟩

theorem first_audio_of_4098_bytes_overruns :
    ¬ AudioInBounds (smCallRun v22Config plainInit longAudioPeer
      [idleTurn fun _ => ⟨.between, true, 0⟩]) := by
  obtain ⟨payload, hread⟩ := longAudioPeer_read
  have hover : ¬ FirstAudioFits (smCallStart (smCallInit v22Config plainInit) longAudioPeer)
      (idleTurn fun _ => ⟨.between, true, 0⟩) := by
    intro hfits
    exact absurd (hfits rfl payload _ hread) (by decide)
  simpa only [smCallRun, Transition.run_cons, Transition.run_nil] using turn_overrun hover

end Softmodem.Call

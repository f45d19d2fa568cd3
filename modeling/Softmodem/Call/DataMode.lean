import Softmodem.Call.Run
import Softmodem.Call.Steps
import Softmodem.V22bis.Idle

namespace Softmodem.Call

open AudioSocket Serial V22bis

def ModemNormal (s : V22bisState) : Prop :=
  s.tx.training = .normalOperation ∧ s.rx.training = .normalOperation

def DataMeansNormal (c : SmCall) : Prop :=
  c.phase = .data → c.mode = .v22 → c.bm = false → ModemNormal c.modem

theorem callPutBit_v22 {c : SmCall} (hmode : c.mode = .v22) (bit : Option Bool) (v34Rate : Nat) :
    (callPutBit c bit v34Rate).phase = c.phase := by
  cases bit with
  | none => rfl
  | some bit =>
      have hne : c.mode ≠ .v34 := by simp [hmode]
      simp only [callPutBit, if_neg hne]
      split <;> rfl

theorem rxOut_phase {c : SmCall} (hmode : c.mode = .v22) (out : RxOut)
    (h : (rxOut c out).phase = .data) : c.phase = .data ∧ out ≠ retrain := by
  cases out with
  | status st =>
      simp only [rxOut, callStatus] at h
      split at h
      · cases h
      · exact ⟨h, by simpa [retrain] using ‹_›⟩
  | bit b =>
      simp only [rxOut, callPutBit_v22 hmode] at h
      exact ⟨h, by simp [retrain]⟩

theorem rxOuts_phase {outs : List RxOut} {c : SmCall} (hmode : c.mode = .v22)
    (h : (outs.foldl rxOut c).phase = .data) : c.phase = .data ∧ retrain ∉ outs := by
  induction outs generalizing c with
  | nil => exact ⟨h, by simp⟩
  | cons out outs ih =>
      obtain ⟨hphase, hrest⟩ := ih ((rxOut_frame c out).mode.trans hmode) h
      obtain ⟨hdata, hne⟩ := rxOut_phase hmode out hphase
      refine ⟨hdata, ?_⟩
      rintro (_ | ⟨_, hmem⟩)
      · exact hne rfl
      · exact hrest hmem

theorem processBaud_normal {s : V22bisState} (nearest : Symbol) (h : ModemNormal s) :
    ModemNormal (processBaud s nearest).1 ∨ retrain ∈ (processBaud s nearest).2 := by
  obtain ⟨htx, hrx⟩ := h
  simp only [processBaud, trainingSwitch, hrx, rxNormalOperation]
  split
  · exact .inl ⟨htx, by simp [decodeBaud_training]⟩
  · split
    · exact .inr (by simp [retrain])
    · exact .inl ⟨htx, by simp [decodeBaud_training, hrx]⟩

theorem symbolSync_training (r : Rx) (early : Bool) :
    (symbolSync r early).training = r.training := by
  simp only [symbolSync]
  split_ifs <;> rfl

theorem rxCarrier_normal {s : V22bisState} (o : RxObservation) (h : ModemNormal s) :
    ModemNormal (rxCarrier s o).1 ∨ retrain ∈ (rxCarrier s o).2 := by
  obtain ⟨htx, hrx⟩ := h
  simp only [rxCarrier, rxStrobe, processHalfBaud]
  split
  · exact .inl ⟨htx, hrx⟩
  · split
    · split
      · exact .inl ⟨htx, hrx⟩
      · exact processBaud_normal _ ⟨htx, (symbolSync_training _ o.early).trans hrx⟩
    · exact .inl ⟨htx, hrx⟩

theorem v22bisRxSample_normal {s : V22bisState} {o : RxObservation} (h : ModemNormal s)
    (hcarrier : ¬ CarrierLost s o) :
    ModemNormal (v22bisRxSample s o).1 ∨ retrain ∈ (v22bisRxSample s o).2 := by
  simp only [v22bisRxSample]
  split
  · split
    · split
      · exact absurd ⟨‹_›, ‹_›, ‹_›⟩ hcarrier
      · exact rxCarrier_normal o h
    · exact rxCarrier_normal o h
  · split
    · rcases rxCarrier_normal o
        (s := { s with rx := { s.rx with signalPresent := true, carrierDownCount := 0 } }) h
        with hn | hr
      · exact .inl hn
      · exact .inr (List.mem_cons_of_mem _ hr)
    · exact .inl h

def CarrierKept (c : SmCall) : Prop := c.history.carrierLostInData = false → DataMeansNormal c

theorem modemRxSample_kept {c : SmCall} (o : RxObservation) (h : CarrierKept c) :
    CarrierKept (modemRxSample c o) := by
  intro hflag hdata hmode hbm
  have hframe := rxOuts_frame (v22bisRxSample c.modem o).2 (receiveSample c o)
  have hlost := hframe.carrierLostInData.symm.trans hflag
  have hv22 : c.mode = .v22 := hframe.mode.symm.trans hmode
  obtain ⟨hphase, hretrain⟩ := rxOuts_phase (c := receiveSample c o) hv22 hdata
  have hphase : c.phase = .data := hphase
  simp only [receiveSample, hphase, Bool.or_eq_false_iff, Bool.and_eq_false_iff,
    decide_eq_false_iff_not] at hlost
  have hnormal := h hlost.1 hphase hv22 (hframe.bm.symm.trans hbm)
  have hkept : ¬ CarrierLost c.modem o := by simpa using hlost.2
  rcases v22bisRxSample_normal hnormal hkept with hn | hr
  · exact hframe.modem ▸ hn
  · exact absurd hr hretrain

theorem CarrierKept.of_fields {c c' : SmCall} (h : CarrierKept c) (hphase : c'.phase = c.phase)
    (hmode : c'.mode = c.mode) (hbm : c'.bm = c.bm) (hmodem : c'.modem = c.modem)
    (hflag : c'.history.carrierLostInData = c.history.carrierLostInData) : CarrierKept c' := by
  unfold CarrierKept DataMeansNormal
  rw [hphase, hmode, hbm, hmodem, hflag]
  exact h

theorem CarrierKept.of_phase {c : SmCall} (h : c.phase ≠ .data) : CarrierKept c :=
  fun _ hdata => absurd hdata h

theorem engineStep_kept {n : Nat} {c c' : SmCall} (hstep : EngineStep n c c')
    (h : CarrierKept c) : CarrierKept c' := by
  cases hstep with
  | bookkeeping hcore =>
      have hhistory : c'.core.history = c.core.history := congrArg SmCall.history hcore
      exact h.of_fields (congrArg SmCall.phase hcore :) (congrArg SmCall.mode hcore :)
        (congrArg SmCall.bm hcore :) (congrArg SmCall.modem hcore :)
        (congrArg CallHistory.carrierLostInData hhistory)
  | touch buffer start length _ => exact h
  | sounded txbuf k => exact h
  | getBit => exact h
  | putBit bit v34Rate hengine =>
      have hframe := callPutBit_frame c bit v34Rate
      intro _ _ hv22 hnobm
      rcases hengine with hbm | hv34
      · rw [hframe.bm, hbm] at hnobm
        cases hnobm
      · rw [hframe.mode, hv34] at hv22
        cases hv22
  | modemTx htx =>
      intro hflag hdata hmode hbm
      obtain ⟨htx', hrx'⟩ := h hflag hdata hmode hbm
      exact ⟨htx.normal htx', htx.rx ▸ hrx'⟩
  | status st =>
      unfold callStatus
      split
      · exact .of_phase (by simp)
      · exact h
  | modemRx o => exact modemRxSample_kept o h
  | answered _ => exact .of_phase (by simp)
  | v8Result done ok _ => exact h

theorem audioStep_kept {n : Nat} {c c' : SmCall} (hstep : AudioStep n c c') (h : CarrierKept c) :
    CarrierKept c' := by
  cases hstep with
  | engine hstep => exact engineStep_kept hstep h
  | hangup _ => exact .of_phase (by simp)
  | handBack _ => exact .of_phase (by simp [bmHandBack])
  | startV34 _ _ => exact .of_phase (by simp [startV34])
  | startV22 _ => exact .of_phase (by simp [startV22])
  | bmRetrain _ => exact .of_phase (by simp)
  | bmConnect rate hbm =>
      intro _ _ _ hnobm
      rw [show (enterData { c with deframer := smDeframerInit } rate).bm = c.bm from rfl, hbm]
        at hnobm
      cases hnobm
  | detect _ _ htx hrx => exact fun _ _ _ _ => ⟨htx, hrx⟩

theorem processAudio_kept {c : SmCall} (payload : List UInt8) (n : Nat) (e : AudioEnv)
    (h : CarrierKept c) : CarrierKept (processAudio c payload n e) := by
  obtain ⟨c', hsteps, heq⟩ := processAudio_steps c payload n e
  have hkept : CarrierKept c' :=
    hsteps.invariant (fun _ _ hstep => audioStep_kept hstep) (h : CarrierKept (audioStart c))
  rw [heq]
  exact hkept

theorem pumpPpp_kept {c : SmCall} (e : PumpEnv) (h : CarrierKept c) :
    CarrierKept (pumpPpp c e) := by
  rcases pumpPpp_cases c e with hframe | hfailed
  · exact h.of_fields hframe.phase hframe.mode hframe.bm hframe.modem hframe.carrierLostInData
  · rw [hfailed]
    exact .of_phase (by simp)

theorem turn_kept {s : CallRun} (t : Turn) (h : Running s → CarrierKept s.call) :
    Running (smCallTurn s t) → CarrierKept (smCallTurn s t).call := by
  intro hrunning
  have hs := h hrunning.before
  obtain ⟨stages, c, heffect, ⟨hcall, -⟩ | ⟨-, hfinished⟩⟩ := smCallTurn_turned s t
  · rw [hcall]
    cases heffect with
    | read as _ => exact hs
    | firstAudio as _ _ =>
        exact processAudio_kept _ _ t.audio (hs : CarrierKept { s.call with as := as })
    | audio as _ _ _ =>
        exact processAudio_kept _ _ t.audio (hs : CarrierKept { s.call with as := as })
    | pumped _ => exact pumpPpp_kept t.pump hs
  · exact absurd hfinished (hrunning 0)

theorem run_kept (cfg : SmCallConfig) (r : InitResults) (peer : Peer) (turns : List Turn)
    (hrunning : Running (smCallRun cfg r peer turns)) :
    CarrierKept (smCallRun cfg r peer turns).call := by
  have hstart : CarrierKept (smCallStart (smCallInit cfg r) peer).call := by
    apply CarrierKept.of_phase
    simp only [smCallStart, smCallInit, startAnswer]
    split_ifs <;> simp
  have hrun := Transition.run_invariant (P := fun s => Running s → CarrierKept s.call)
    (fun _ t => turn_kept t) turns (fun _ => hstart)
  exact hrun hrunning

inductive EndOfAudio (s : CallRun) (t : Turn) : SmCall → Prop where
  | firstMessage {payload : List UInt8} {plen : Nat} (h : s.stage = .firstMessage)
      (hread : (readMessage s).1 = .message smAsKindAudio payload plen) :
      EndOfAudio s t (processAudio (readMessage s).2.call payload (plen / 2) t.audio)
  | message {payload : List UInt8} {plen : Nat} (h : s.stage = .message)
      (hup : s.call.phase ≠ .hangup)
      (hread : (readMessage s).1 = .message smAsKindAudio payload plen) :
      EndOfAudio s t (processAudio (readMessage s).2.call payload (audioLength plen / 2) t.audio)

theorem endOfAudio_kept {s : CallRun} {t : Turn} {c : SmCall} (h : EndOfAudio s t c)
    (hs : Running s → CarrierKept s.call) : CarrierKept c := by
  cases h with
  | firstMessage hstage hread =>
      have hkept : CarrierKept s.call := hs (by simp [Running, hstage])
      exact processAudio_kept _ _ t.audio (hkept : CarrierKept (readMessage s).2.call)
  | message hstage hup hread =>
      have hkept : CarrierKept s.call := hs (by simp [Running, hstage])
      exact processAudio_kept _ _ t.audio (hkept : CarrierKept (readMessage s).2.call)

theorem carrier_loss_keeps_data {c : SmCall} {o : RxObservation} (h : c.phase = .data)
    (hlost : CarrierLost c.modem o) :
    (modemRxSample c o).phase = .data ∧ ¬ ModemNormal (modemRxSample c o).modem := by
  obtain ⟨hpresent, hlevel, hcount⟩ := hlost
  have hrestart : v22bisRxSample c.modem o =
      (v22bisRxRestart { c.modem with rx := { c.modem.rx with
        carrierDownCount := c.modem.rx.carrierDownCount + 1 } }, [.status .carrierDown]) := by
    simp only [v22bisRxSample, if_pos hpresent, if_pos hlevel]
    rw [if_pos hcount]
  simp only [modemRxSample, receiveSample, hrestart, List.foldl_cons, List.foldl_nil, rxOut,
    callStatus]
  rw [if_neg (by decide)]
  refine ⟨h, ?_⟩
  rintro ⟨-, hrx⟩
  cases hrx

end Softmodem.Call

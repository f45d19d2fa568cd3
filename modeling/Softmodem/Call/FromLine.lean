import Softmodem.Call.Run
import Softmodem.Call.Steps

namespace Softmodem.Call

open AudioSocket Serial V22bis

structure DeframerInv (c : SmCall) : Prop where
  bm : c.bm = true → c.mode = .v22 ∧ c.v8 = false ∧ c.v8Done = false
  v8 : c.phase = .v8 → c.mode = .v22 ∧ c.deframer.out = []
  v34 : c.mode = .v34 → c.phase ≠ .data → c.deframer.out = []
  period : c.phase = .data → c.history.deframerFull = false →
    c.history.periodTaken ++ c.deframer.out = c.history.periodCompleted

theorem DeframerInv.of_core {c c' : SmCall} (h : DeframerInv c) (hcore : c'.core = c.core) :
    DeframerInv c' := by
  have hbm : c'.bm = c.bm := (congrArg SmCall.bm hcore :)
  have hmode : c'.mode = c.mode := (congrArg SmCall.mode hcore :)
  have hv8 : c'.v8 = c.v8 := (congrArg SmCall.v8 hcore :)
  have hdone : c'.v8Done = c.v8Done := (congrArg SmCall.v8Done hcore :)
  have hphase : c'.phase = c.phase := (congrArg SmCall.phase hcore :)
  have hdeframer : c'.deframer = c.deframer := (congrArg SmCall.deframer hcore :)
  have hhistory : c'.history = c.history := (congrArg SmCall.history hcore :)
  constructor
  · rw [hbm, hmode, hv8, hdone]
    exact h.bm
  · rw [hphase, hmode, hdeframer]
    exact h.v8
  · rw [hmode, hphase, hdeframer]
    exact h.v34
  · rw [hphase, hhistory, hdeframer]
    exact h.period

theorem deliverBit_out {c : SmCall} (bit : Bool) (h : c.deframer.out.length < smDeframerOut) :
    (deliverBit c bit).deframer.out = c.deframer.out ++ completed c.deframer bit :=
  smDeframerBit_out bit h

theorem deliverBit_inv {c : SmCall} (bit : Bool) (h : DeframerInv c) (hdata : c.phase = .data) :
    DeframerInv (deliverBit c bit) := by
  refine ⟨h.bm, ?_, ?_, ?_⟩
  · intro hv8
    exact absurd (hdata.symm.trans hv8) (by decide)
  · intro _ hphase
    exact absurd hdata hphase
  · intro _ hfull
    simp only [deliverBit, Bool.or_eq_false_iff, decide_eq_false_iff_not, not_le] at hfull
    rw [deliverBit_out bit hfull.2]
    simp only [deliverBit, ← h.period hdata hfull.1, List.append_assoc]

theorem enterData_inv {c : SmCall} (rate : Nat)
    (hbm : c.bm = true → c.mode = .v22 ∧ c.v8 = false ∧ c.v8Done = false)
    (hout : c.deframer.out = []) : DeframerInv (enterData c rate) := by
  refine ⟨hbm, ?_, ?_, ?_⟩
  · rintro ⟨⟩
  · intro _ hphase
    exact absurd rfl hphase
  · intro _ _
    exact hout

theorem callPutBit_inv {c : SmCall} (bit : Option Bool) (v34Rate : Nat) (h : DeframerInv c) :
    DeframerInv (callPutBit c bit v34Rate) := by
  cases bit with
  | none => exact h
  | some bit =>
      simp only [callPutBit]
      split_ifs with hv34 hphase hphase
      · exact deliverBit_inv bit (enterData_inv v34Rate h.bm (h.v34 hv34 hphase)) rfl
      · exact deliverBit_inv bit h (not_not.mp hphase)
      · exact h
      · exact deliverBit_inv bit h (not_not.mp hphase)

theorem retrained_inv {c : SmCall} (h : DeframerInv c) :
    DeframerInv { c with deframer := smDeframerInit, phase := .handshake } := by
  refine ⟨h.bm, ?_, ?_, ?_⟩
  · rintro ⟨⟩
  · intro _ _
    rfl
  · rintro ⟨⟩

theorem callStatus_inv {c : SmCall} (st : Status) (h : DeframerInv c) :
    DeframerInv (callStatus c st) := by
  unfold callStatus
  split
  · exact retrained_inv h
  · exact h

theorem rxOuts_inv {outs : List RxOut} {c : SmCall} (h : DeframerInv c) :
    DeframerInv (outs.foldl rxOut c) := by
  induction outs generalizing c with
  | nil => exact h
  | cons out outs ih =>
      apply ih
      cases out with
      | status st => exact callStatus_inv st h
      | bit b => exact callPutBit_inv (some b) 0 h

variable {n : Nat}

theorem engineStep_inv {c c' : SmCall} (hstep : EngineStep n c c') (h : DeframerInv c) :
    DeframerInv c' := by
  cases hstep with
  | bookkeeping hcore => exact h.of_core hcore
  | putBit bit v34Rate _ => exact callPutBit_inv bit v34Rate h
  | status st => exact callStatus_inv st h
  | modemRx o =>
      have hreceived : DeframerInv (receiveSample c o) := ⟨h.bm, h.v8, h.v34, h.period⟩
      exact rxOuts_inv hreceived
  | answered hphase =>
      refine ⟨h.bm, ?_, ?_, ?_⟩
      · rintro ⟨⟩
      · intro hv34 _
        exact h.v34 hv34 (by simp [hphase])
      · rintro ⟨⟩
  | v8Result done ok hv8 =>
      refine ⟨?_, h.v8, h.v34, h.period⟩
      intro hbm
      exact absurd (hv8.symm.trans (h.bm hbm).2.1) (by decide)
  | _ => exact ⟨h.bm, h.v8, h.v34, h.period⟩

theorem audioStep_inv {c c' : SmCall} (hstep : AudioStep n c c') (h : DeframerInv c) :
    DeframerInv c' := by
  cases hstep with
  | engine hstep => exact engineStep_inv hstep h
  | hangup hbm =>
      refine ⟨h.bm, ?_, ?_, ?_⟩
      · rintro ⟨⟩
      · intro hv34 _
        exact absurd ((h.bm hbm).1.symm.trans hv34) (by decide)
      · rintro ⟨⟩
  | handBack _ => exact ⟨by rintro ⟨⟩, by rintro ⟨⟩, by rintro ⟨⟩, by rintro ⟨⟩⟩
  | startV34 hphase hdone =>
      refine ⟨?_, ?_, ?_, ?_⟩
      · intro hbm
        exact absurd (hdone.symm.trans (h.bm hbm).2.2) (by decide)
      · rintro ⟨⟩
      · intro _ _
        exact (h.v8 hphase).2
      · rintro ⟨⟩
  | startV22 _ =>
      exact ⟨fun hbm => ⟨rfl, (h.bm hbm).2⟩, by rintro ⟨⟩, by rintro ⟨⟩, by rintro ⟨⟩⟩
  | bmRetrain _ => exact retrained_inv h
  | bmConnect rate _ => exact enterData_inv rate h.bm rfl
  | detect _ _ _ _ => exact enterData_inv c.modem.negotiatedBitRate h.bm rfl

theorem processAudio_inv {c : SmCall} (payload : List UInt8) (n : Nat) (e : AudioEnv)
    (h : DeframerInv c) : DeframerInv (processAudio c payload n e) := by
  obtain ⟨c', hsteps, heq⟩ := processAudio_steps c payload n e
  have hkept : DeframerInv c' :=
    hsteps.invariant (fun _ _ hstep hc => audioStep_inv hstep hc)
      (⟨h.bm, h.v8, h.v34, h.period⟩ : DeframerInv (audioStart c))
  rw [heq]
  exact ⟨hkept.bm, hkept.v8, hkept.v34, hkept.period⟩

structure Bounded (base : Nat) (c : SmCall) : Prop where
  overflowed : c.history.deframerOverflowed = false
  out : c.deframer.out.length ≤ 256
  fresh : c.phase = .data ∨ c.mode = .v34 →
    base + c.deframer.out.length ≤ c.history.completed.length

structure BoundedWithin (base : Nat) (c : SmCall) : Prop where
  started : base ≤ c.history.completed.length
  within : c.history.completed.length ≤ base + 256 → Bounded base c

variable {base : Nat}

theorem BoundedWithin.reset {c c' : SmCall} (h : BoundedWithin base c)
    (hcompleted : c'.history.completed = c.history.completed) (hout : c'.deframer.out = [])
    (hflag : c'.history.deframerOverflowed = c.history.deframerOverflowed) :
    BoundedWithin base c' := by
  have hbase := h.started
  refine ⟨hcompleted ▸ h.started, ?_⟩
  intro hle
  have hc := h.within (hcompleted ▸ hle)
  refine ⟨hflag.trans hc.overflowed, by simp [hout], ?_⟩
  intro _
  simpa [hout, hcompleted] using hbase

theorem BoundedWithin.of_fields {c c' : SmCall} (h : BoundedWithin base c)
    (hcompleted : c'.history.completed = c.history.completed)
    (hflag : c'.history.deframerOverflowed = c.history.deframerOverflowed)
    (hdeframer : c'.deframer = c.deframer)
    (hactive : c'.phase = .data ∨ c'.mode = .v34 → c.phase = .data ∨ c.mode = .v34) :
    BoundedWithin base c' := by
  refine ⟨hcompleted ▸ h.started, ?_⟩
  intro hle
  have hc := h.within (hcompleted ▸ hle)
  refine ⟨hflag.trans hc.overflowed, hdeframer ▸ hc.out, ?_⟩
  intro hnow
  rw [hdeframer, hcompleted]
  exact hc.fresh (hactive hnow)

theorem deliverBit_bounded {c : SmCall} (bit : Bool) (h : BoundedWithin base c)
    (hactive : c.phase = .data ∨ c.mode = .v34) : BoundedWithin base (deliverBit c bit) := by
  have hcompleted : (deliverBit c bit).history.completed.length =
      c.history.completed.length + (completed c.deframer bit).length :=
    List.length_append
  have hbase := h.started
  refine ⟨by omega, ?_⟩
  intro hle
  have hc := h.within (by omega)
  have hfresh := hc.fresh hactive
  have hsize : smDeframerOut = 4096 := rfl
  have hroom : c.deframer.out.length < smDeframerOut := by omega
  have hout := congrArg List.length (deliverBit_out bit hroom)
  rw [List.length_append] at hout
  refine ⟨?_, by omega, fun _ => by omega⟩
  simp [deliverBit, hc.overflowed, hroom]

theorem callPutBit_bounded {c : SmCall} (bit : Option Bool) (v34Rate : Nat)
    (h : BoundedWithin base c) : BoundedWithin base (callPutBit c bit v34Rate) := by
  cases bit with
  | none => exact h
  | some bit =>
      simp only [callPutBit]
      split_ifs with hv34 hphase hphase
      · exact deliverBit_bounded bit (h.of_fields rfl rfl rfl fun _ => .inr hv34) (.inl rfl)
      · exact deliverBit_bounded bit h (.inr hv34)
      · exact h
      · exact deliverBit_bounded bit h (.inl (not_not.mp hphase))

theorem callStatus_bounded {c : SmCall} (st : Status) (h : BoundedWithin base c) :
    BoundedWithin base (callStatus c st) := by
  unfold callStatus
  split
  · exact h.reset rfl rfl rfl
  · exact h

theorem rxOuts_bounded {outs : List RxOut} {c : SmCall} (h : BoundedWithin base c) :
    BoundedWithin base (outs.foldl rxOut c) := by
  induction outs generalizing c with
  | nil => exact h
  | cons out outs ih =>
      apply ih
      cases out with
      | status st => exact callStatus_bounded st h
      | bit b => exact callPutBit_bounded (some b) 0 h

theorem engineStep_bounded {c c' : SmCall} (hstep : EngineStep n c c') (h : BoundedWithin base c) :
    BoundedWithin base c' := by
  cases hstep with
  | bookkeeping hcore =>
      have hhistory : c'.history = c.history := (congrArg SmCall.history hcore :)
      have hphase : c'.phase = c.phase := (congrArg SmCall.phase hcore :)
      have hmode : c'.mode = c.mode := (congrArg SmCall.mode hcore :)
      refine h.of_fields (by rw [hhistory]) (by rw [hhistory]) (congrArg SmCall.deframer hcore :) ?_
      rw [hphase, hmode]
      exact id
  | putBit bit v34Rate _ => exact callPutBit_bounded bit v34Rate h
  | status st => exact callStatus_bounded st h
  | modemRx o =>
      have hreceived : BoundedWithin base (receiveSample c o) := h.of_fields rfl rfl rfl id
      exact rxOuts_bounded hreceived
  | answered _ =>
      refine h.of_fields rfl rfl rfl ?_
      rintro (⟨⟨⟩⟩ | hv34)
      exact .inr hv34
  | _ => exact h.of_fields rfl rfl rfl id

theorem audioStep_bounded {c c' : SmCall} (hstep : AudioStep n c c') (hinv : DeframerInv c)
    (h : BoundedWithin base c) : BoundedWithin base c' := by
  cases hstep with
  | engine hstep => exact engineStep_bounded hstep h
  | hangup _ =>
      refine h.of_fields rfl rfl rfl ?_
      rintro (⟨⟨⟩⟩ | hv34)
      exact .inr hv34
  | handBack _ =>
      refine h.of_fields rfl rfl rfl ?_
      rintro (⟨⟨⟩⟩ | ⟨⟨⟩⟩)
  | startV34 hphase _ => exact h.reset rfl (hinv.v8 hphase).2 rfl
  | startV22 _ =>
      refine h.of_fields rfl rfl rfl ?_
      rintro (⟨⟨⟩⟩ | ⟨⟨⟩⟩)
  | bmRetrain _ => exact h.reset rfl rfl rfl
  | bmConnect rate _ => exact h.reset rfl rfl rfl
  | detect _ _ _ _ => exact h.reset rfl rfl rfl

theorem processAudio_bounded {c : SmCall} (payload : List UInt8) (n : Nat) (e : AudioEnv)
    (hinv : DeframerInv c) (hflag : c.history.deframerOverflowed = false)
    (hout : c.deframer.out.length ≤ 256) (hdata : c.phase = .data → c.deframer.out = [])
    (hle : (processAudio c payload n e).history.completed.length ≤
      c.history.completed.length + 256) :
    (processAudio c payload n e).history.deframerOverflowed = false ∧
      (processAudio c payload n e).deframer.out.length ≤ 256 := by
  obtain ⟨c', hsteps, heq⟩ := processAudio_steps c payload n e
  have hstart : BoundedWithin c.history.completed.length (audioStart c) := by
    refine ⟨le_rfl, fun _ => ⟨hflag, hout, ?_⟩⟩
    intro hactive
    have hempty : c.deframer.out = [] := by
      by_cases hphase : c.phase = .data
      · exact hdata hphase
      · exact hinv.v34 (hactive.resolve_left hphase) hphase
    have hout' : (audioStart c).deframer.out = [] := hempty
    rw [hout']
    exact le_rfl
  have hkept := hsteps.invariant
    (P := fun d => DeframerInv d ∧ BoundedWithin c.history.completed.length d)
    (fun _ _ hstep hd => ⟨audioStep_inv hstep hd.1, audioStep_bounded hstep hd.1 hd.2⟩)
    ⟨⟨hinv.bm, hinv.v8, hinv.v34, hinv.period⟩, hstart⟩
  rw [heq] at hle ⊢
  have hbounded := hkept.2.within hle
  exact ⟨hbounded.overflowed, hbounded.out⟩

structure Silent (c : SmCall) : Prop where
  mode : c.mode = .v22
  phase : c.phase ≠ .data
  out : c.deframer.out = []

theorem callStatus_silent {c : SmCall} (st : Status) (h : Silent c) : Silent (callStatus c st) := by
  unfold callStatus
  split
  · exact ⟨h.mode, by simp, rfl⟩
  · exact h

theorem callPutBit_silent {c : SmCall} (bit : Option Bool) (v34Rate : Nat) (h : Silent c) :
    callPutBit c bit v34Rate = c := by
  cases bit with
  | none => rfl
  | some bit => simp [callPutBit, h.mode, h.phase]

theorem rxOuts_silent {outs : List RxOut} {c : SmCall} (h : Silent c) :
    Silent (outs.foldl rxOut c) := by
  induction outs generalizing c with
  | nil => exact h
  | cons out outs ih =>
      apply ih
      cases out with
      | status st => exact callStatus_silent st h
      | bit b =>
          rw [rxOut, callPutBit_silent (some b) 0 h]
          exact h

theorem engineStep_silent {c c' : SmCall} (hstep : EngineStep n c c') (h : Silent c) :
    Silent c' := by
  cases hstep with
  | bookkeeping hcore =>
      have hphase : c'.phase = c.phase := (congrArg SmCall.phase hcore :)
      have hdeframer : c'.deframer = c.deframer := (congrArg SmCall.deframer hcore :)
      exact ⟨(congrArg SmCall.mode hcore :).trans h.mode, hphase ▸ h.phase, hdeframer ▸ h.out⟩
  | putBit bit v34Rate _ =>
      rw [callPutBit_silent bit v34Rate h]
      exact h
  | status st => exact callStatus_silent st h
  | modemRx o =>
      have hreceived : Silent (receiveSample c o) := ⟨h.mode, h.phase, h.out⟩
      exact rxOuts_silent hreceived
  | answered _ => exact ⟨h.mode, by simp, h.out⟩
  | _ => exact ⟨h.mode, h.phase, h.out⟩

theorem bmPoll_silent {c : SmCall} {o : BmObservation} (k : Nat) (h : Silent c)
    (hstatus : o.status ≠ .connected) : Silent (bmPoll c k o) := by
  unfold bmPoll
  cases hs : o.status with
  | running => exact h
  | connected => exact absurd hs hstatus
  | failed => exact ⟨h.mode, by simp, h.out⟩
  | agreedV22 => exact ⟨rfl, by simp [bmHandBack], h.out⟩
  | agreedOther => exact ⟨rfl, by simp [bmHandBack], h.out⟩
  | retraining =>
      simp only [if_neg h.phase]
      exact h

theorem v8Transition_out (c : SmCall) (e : AudioEnv) :
    (v8Transition c e).deframer.out = c.deframer.out := by
  simp only [v8Transition]
  split_ifs <;> rfl

theorem dataModeDetection_out {c : SmCall} (h : c.deframer.out = []) :
    (dataModeDetection c).deframer.out = [] := by
  unfold dataModeDetection
  split
  · rfl
  · exact h

theorem processAudio_silent {c : SmCall} (payload : List UInt8) (n : Nat) {e : AudioEnv}
    (h : Silent c) (hstatus : e.bm.status ≠ .connected) :
    (processAudio c payload n e).deframer.out = [] := by
  have hstart : Silent (audioStart c) := ⟨h.mode, h.phase, h.out⟩
  have hcaptured := (captureChunk_steps (n := n) (audioStart c) payload).invariant
    (fun _ _ hstep hc => engineStep_silent hstep hc) hstart
  have hpolled : Silent (pollEngine (captureChunk (audioStart c) payload n) n e) := by
    unfold pollEngine
    split
    · exact bmPoll_silent n hcaptured hstatus
    · exact hcaptured
  have hran := (runEngine_steps (n := n) _ e).invariant
    (fun _ _ hstep hc => engineStep_silent hstep hc) hpolled
  exact dataModeDetection_out ((v8Transition_out _ e).trans hran.out)

structure SameStaging (c c' : SmCall) : Prop where
  deframer : c'.deframer = c.deframer
  ppyOut : c'.ppyOut = c.ppyOut
  taken : c'.history.taken = c.history.taken
  periodTaken : c'.history.periodTaken = c.history.periodTaken
  written : c'.history.written = c.history.written
  stagingFull : c'.history.stagingFull = c.history.stagingFull

theorem SameStaging.refl (c : SmCall) : SameStaging c c := ⟨rfl, rfl, rfl, rfl, rfl, rfl⟩

theorem SameStaging.trans {a b c : SmCall} (h : SameStaging a b) (h' : SameStaging b c) :
    SameStaging a c :=
  ⟨h'.deframer.trans h.deframer, h'.ppyOut.trans h.ppyOut, h'.taken.trans h.taken,
    h'.periodTaken.trans h.periodTaken, h'.written.trans h.written,
    h'.stagingFull.trans h.stagingFull⟩

theorem pushRead_staging (c : SmCall) (bytes : List UInt8) :
    SameStaging c (pushRead c bytes).1 := by
  induction bytes generalizing c with
  | nil => exact .refl c
  | cons byte bytes ih =>
      have hpush : SameStaging c (pushByte c byte).1 := ⟨rfl, rfl, rfl, rfl, rfl, rfl⟩
      simp only [pushRead]
      split
      · exact hpush
      · exact hpush.trans (ih _)

theorem pumpTransmit_staging (c : SmCall) (e : PumpEnv) : SameStaging c (pumpTransmit c e) := by
  unfold pumpTransmit
  split
  · cases e.read with
    | none => exact .refl c
    | some bytes =>
        simp only
        split
        · exact ⟨rfl, rfl, rfl, rfl, rfl, rfl⟩
        · have hnoted : SameStaging c (noteRead c (bytes.take 256)) :=
            ⟨rfl, rfl, rfl, rfl, rfl, rfl⟩
          have hpushed := hnoted.trans (pushRead_staging _ (bytes.take 256))
          exact hpushed.trans ⟨rfl, rfl, rfl, rfl, rfl, rfl⟩
  · exact .refl c

structure Flushed (c c' : SmCall) : Prop where
  deframer : c'.deframer = c.deframer
  taken : c'.history.taken = c.history.taken
  periodTaken : c'.history.periodTaken = c.history.periodTaken
  stagingFull : c'.history.stagingFull = c.history.stagingFull
  staged : c'.history.written ++ c'.ppyOut = c.history.written ++ c.ppyOut

theorem Flushed.refl (c : SmCall) : Flushed c c := ⟨rfl, rfl, rfl, rfl, rfl⟩

theorem Flushed.trans {a b c : SmCall} (h : Flushed a b) (h' : Flushed b c) : Flushed a c :=
  ⟨h'.deframer.trans h.deframer, h'.taken.trans h.taken, h'.periodTaken.trans h.periodTaken,
    h'.stagingFull.trans h.stagingFull, h'.staged.trans h.staged⟩

theorem acceptWrite_flushed (c : SmCall) (w : Nat) : Flushed c (acceptWrite c w) := by
  refine ⟨rfl, rfl, rfl, rfl, ?_⟩
  simp [acceptWrite]

theorem pppFlush_flushed (c : SmCall) (writes : List WriteResult) :
    Flushed c (pppFlush c writes) := by
  induction writes generalizing c with
  | nil => exact .refl c
  | cons w writes ih =>
      unfold pppFlush
      split
      · cases w with
        | eintr => exact ih c
        | eagain => exact .refl c
        | error => exact .refl c
        | took n => exact (acceptWrite_flushed c (max n 1)).trans (ih _)
      · exact .refl c

theorem pppFlush_empty {c : SmCall} (writes : List WriteResult) (h : c.ppyOut = []) :
    pppFlush c writes = c := by
  cases writes with
  | nil => rfl
  | cons w writes => simp [pppFlush, h]

theorem pppFlush_all {c : SmCall} {k : Nat} (rest : List WriteResult) (hfd : c.pppFd = true)
    (hk : c.ppyOut.length ≤ k) : (pppFlush c (.took k :: rest)).ppyOut = [] := by
  unfold pppFlush
  split
  · have hdone : (acceptWrite c (max k 1)).ppyOut = [] := by
      simp only [acceptWrite, List.drop_eq_nil_iff]
      omega
    simp only [pppFlush_empty rest hdone, hdone]
  · rename_i hidle
    simpa [hfd] using hidle

structure Relayed (c c' : SmCall) : Prop where
  out : c'.deframer.out = c.deframer.out.drop 256
  taken : c'.history.taken = c.history.taken ++ c.deframer.out.take 256
  periodTaken : c'.history.periodTaken = c.history.periodTaken ++ c.deframer.out.take 256
  stagingFull : c'.history.stagingFull =
    (c.history.stagingFull ||
      decide (ppyOutSize - c.ppyOut.length < (c.deframer.out.take 256).length))
  staged : c'.history.written ++ c'.ppyOut = c.history.written ++ c.ppyOut ++
    (c.deframer.out.take 256).take (ppyOutSize - c.ppyOut.length)

theorem takeBytes_eq (c : SmCall) :
    takeBytes c =
      ({ c with
          deframer := { c.deframer with out := c.deframer.out.drop 256 }
          history :=
            { c.history with
              taken := c.history.taken ++ c.deframer.out.take 256
              periodTaken := c.history.periodTaken ++ c.deframer.out.take 256 } },
        c.deframer.out.take 256) := by
  have htake : c.deframer.out.take (min (256 : Int) c.deframer.out.length).toNat =
      c.deframer.out.take 256 := by
    rw [List.take_eq_take_iff]
    omega
  have hdrop : c.deframer.out.drop (min (256 : Int) c.deframer.out.length).toNat =
      c.deframer.out.drop 256 := by
    rcases Nat.le_total c.deframer.out.length 256 with hle | hle
    · rw [List.drop_eq_nil_of_le (by omega), List.drop_eq_nil_of_le hle]
    · congr 1
      omega
  simp only [takeBytes, smDeframerTake_eq, htake, hdrop]

theorem relay_relayed (c : SmCall) (writes : List WriteResult) : Relayed c (relay c writes) := by
  have hstaged : Relayed c (staged c) := by
    simp only [staged, takeBytes_eq]
    refine ⟨rfl, rfl, rfl, rfl, ?_⟩
    simp [stageBytes, countRx]
  have hflushed := pppFlush_flushed (staged c) writes
  rw [← relay] at hflushed
  exact ⟨by rw [hflushed.deframer, hstaged.out], hflushed.taken.trans hstaged.taken,
    hflushed.periodTaken.trans hstaged.periodTaken,
    hflushed.stagingFull.trans hstaged.stagingFull, hflushed.staged.trans hstaged.staged⟩

theorem Relayed.of_same {b c c' d : SmCall} (h : Relayed c c') (hbefore : SameStaging b c)
    (hafter : SameStaging c' d) : Relayed b d := by
  constructor
  · rw [hafter.deframer, h.out, hbefore.deframer]
  · rw [hafter.taken, h.taken, hbefore.taken, hbefore.deframer]
  · rw [hafter.periodTaken, h.periodTaken, hbefore.periodTaken, hbefore.deframer]
  · rw [hafter.stagingFull, h.stagingFull, hbefore.stagingFull, hbefore.deframer, hbefore.ppyOut]
  · rw [hafter.written, hafter.ppyOut, h.staged, hbefore.written, hbefore.ppyOut,
      hbefore.deframer]

theorem relay_ppyOut {c : SmCall} {k : Nat} (rest : List WriteResult) (hfd : c.pppFd = true)
    (hk : ppyOutSize ≤ k) (hempty : c.ppyOut = []) : (relay c (.took k :: rest)).ppyOut = [] := by
  refine pppFlush_all (c := staged c) rest ?_ ?_
  · simp only [staged, takeBytes_eq]
    exact hfd
  · simp only [staged, takeBytes_eq, stageBytes, countRx, hempty, List.nil_append,
      List.length_take]
    omega

theorem pumpPpp_quiet {c : SmCall} (e : PumpEnv) (hphase : c.phase ≠ .data) :
    SameStaging c (pumpPpp c e) := by
  have hneeds : ¬ needsPppd c := fun hneeds => hphase hneeds.1
  by_cases hidle : c.phase ≠ .data ∧ c.pppFd = false ∧ c.cfg.echoData = false
  · rw [pumpPpp, if_pos hidle]
    exact .refl c
  · rw [pumpPpp_running e hneeds hidle, pumpBytes, if_neg hphase]
    exact pumpTransmit_staging c e

theorem pumpPpp_data {c : SmCall} {e : PumpEnv} (hecho : c.cfg.echoData = false)
    (hphase : c.phase = .data) (hspawned : needsPppd c → e.spawned = true) :
    ∃ d, SameStaging c d ∧ (PppFdOpen c e → d.pppFd = true) ∧
      pumpPpp c e = pumpTransmit (relay d e.writes) e := by
  by_cases hneeds : needsPppd c
  · refine ⟨(startPppd c true).1, ⟨rfl, rfl, rfl, rfl, rfl, rfl⟩, fun _ => rfl, ?_⟩
    have hdata : (startPppd c true).1.phase = .data := hphase
    rw [pumpPpp_spawned hneeds (hspawned hneeds), pumpBytes, if_pos hdata, pumpReceive_relay]
    exact hecho
  · refine ⟨c, .refl c, ?_, ?_⟩
    · intro hopen
      simpa [PppFdOpen, hneeds] using hopen
    · rw [pumpPpp_running e hneeds (by simp [hphase]), pumpBytes, if_pos hphase,
        pumpReceive_relay e hecho]

theorem pumpPpp_relayed {c : SmCall} {e : PumpEnv} (hecho : c.cfg.echoData = false)
    (hphase : c.phase = .data) (hspawned : needsPppd c → e.spawned = true) :
    Relayed c (pumpPpp c e) := by
  obtain ⟨d, hsame, -, heq⟩ := pumpPpp_data hecho hphase hspawned
  rw [heq]
  exact (relay_relayed d e.writes).of_same hsame (pumpTransmit_staging _ e)

end Softmodem.Call

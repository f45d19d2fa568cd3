import Softmodem.V22bis.Idle
import Softmodem.V22bis.RateCoherence

namespace Softmodem.V22bis

abbrev withTraining (s : V22bisState) (x : TxTraining) : V22bisState :=
  { s with tx := { s.tx with training := x } }

-- Whatever segment the transmitter was in, the receiver hands it back.
def LeavesTraining (s : V22bisState) (o : RxObservation) : Prop :=
  ∀ x, (v22bisRxSample (withTraining s x) o).1.tx.training = x

structure SameTransmitter (s s' : V22bisState) : Prop where
  tx : s'.tx = s.tx
  negotiated : s'.negotiatedBitRate = s.negotiatedBitRate
  callingParty : s'.callingParty = s.callingParty

inductive LineOp where
  | symbol
  | sample (o : RxObservation)

section Line

variable {σ : Type*} (getBit : σ → Option Bool × σ)

def lineStep (m : V22bisState × σ) : LineOp → V22bisState × σ
  | .symbol => ((getbaud getBit m.1 m.2).2.1, (getbaud getBit m.1 m.2).2.2.2)
  | .sample o => ((v22bisRxSample m.1 o).1, m.2)

def sentSymbols (m : V22bisState × σ) : List LineOp → List (Option Symbol)
  | [] => []
  | .symbol :: ops =>
      (getbaud getBit m.1 m.2).1 :: sentSymbols (lineStep getBit m .symbol) ops
  | .sample o :: ops => sentSymbols (lineStep getBit m (.sample o)) ops

def sentAlone (m : V22bisState × σ) : List LineOp → List (Option Symbol)
  | [] => []
  | .symbol :: ops =>
      (getbaud getBit m.1 m.2).1 :: sentAlone (lineStep getBit m .symbol) ops
  | .sample _ :: ops => sentAlone m ops

def TrainingLeft (m : V22bisState × σ) : LineOp → Prop
  | .symbol => True
  | .sample o => LeavesTraining m.1 o

def TransmitterUnaware (s : V22bisState) (o : RxObservation) : Prop :=
  SameTransmitter s (v22bisRxSample s o).1 ∧
    ∀ u ops, Transition.Along (lineStep getBit) TrainingLeft ((v22bisRxSample s o).1, u) ops →
      sentSymbols getBit ((v22bisRxSample s o).1, u) ops = sentAlone getBit (s, u) ops

end Line

structure Acquiring (s : V22bisState) : Prop where
  negotiated : s.negotiatedBitRate = 1200
  training : s.rx.training = .symbolAcquisition ∨ s.rx.training = .unscrambledOnes ∨
    s.rx.training = .unscrambledOnesSustaining ∨
      s.callingParty = false ∧ s.rx.training = .scrambledOnesAt1200

def Starts (f : V22bisState → V22bisState) (s : V22bisState) : Prop :=
  ∃ t, ∀ x, (f (withTraining s x)).tx.training = t

def Waits (f : V22bisState → V22bisState) (s : V22bisState) : Prop :=
  SameTransmitter s (f s) ∧ Acquiring (f s)

theorem Acquiring.waits_rx {s : V22bisState} (h : Acquiring s) {r : Rx}
    (hr : r.training = s.rx.training) :
    SameTransmitter s { s with rx := r } ∧ Acquiring { s with rx := r } := by
  refine ⟨⟨rfl, rfl, rfl⟩, h.negotiated, ?_⟩
  rw [hr]
  exact h.training

theorem restart_acquiring (s : V22bisState) : Acquiring (v22bisRxRestart s) := ⟨rfl, .inl rfl⟩

section Receiver

variable {s : V22bisState} (nearest : Symbol)

theorem rxSymbolAcquisition_waits (h : Acquiring s) :
    Waits (fun s => (rxSymbolAcquisition s).1) s := by
  simp only [Waits, rxSymbolAcquisition]
  split
  · refine ⟨⟨rfl, h.negotiated.symm, rfl⟩, rfl, ?_⟩
    cases hcall : s.callingParty with
    | false => exact .inr (.inr (.inr ⟨rfl, rfl⟩))
    | true => exact .inr (.inl rfl)
  · split
    · exact h.waits_rx rfl
    · exact h.waits_rx rfl

theorem rxUnscrambledOnes_waits (h : Acquiring s) :
    Starts (fun s => (rxUnscrambledOnes s nearest).1) s ∨
      Waits (fun s => (rxUnscrambledOnes s nearest).1) s := by
  by_cases hend : s.rx.trainingCount + 1 = msToSymbols (155 + 456)
  · by_cases hs : rawBits s.rx nearest = s.rx.lastRawBits ∧ isS1Edge (rawBits s.rx nearest) ∧
        (if rawBits s.rx nearest ≠ s.rx.lastRawBits then 0 else s.rx.patternRepeats + 1) ≥
          msToSymbols 456
    · refine .inl ⟨if s.bitRate = 2400 then .u0011 else .s11, ?_⟩
      intro x
      simp only [rxUnscrambledOnes, if_pos hend, if_pos hs]
    · refine .inr ?_
      simp only [Waits, rxUnscrambledOnes, if_pos hend, if_neg hs]
      exact ⟨⟨rfl, rfl, rfl⟩, h.negotiated, .inr (.inr (.inl rfl))⟩
  · refine .inr ?_
    simp only [Waits, rxUnscrambledOnes, if_neg hend]
    exact h.waits_rx rfl

theorem rxUnscrambledOnesSustaining_waits (h : Acquiring s) :
    Starts (fun s => (rxUnscrambledOnesSustaining s nearest).1) s ∨
      Waits (fun s => (rxUnscrambledOnesSustaining s nearest).1) s := by
  simp only [Starts, Waits, rxUnscrambledOnesSustaining]
  by_cases hend : rawBits s.rx nearest ≠ s.rx.lastRawBits
  · simp only [if_pos hend]
    exact .inl ⟨_, fun _ => rfl⟩
  · simp only [if_neg hend]
    exact .inr (h.waits_rx rfl)

theorem rxScrambledOnesAt1200_waits (h : Acquiring s) (hcall : s.callingParty = false) :
    Starts (fun s => (rxScrambledOnesAt1200 s nearest).1) s ∨
      Waits (fun s => (rxScrambledOnesAt1200 s nearest).1) s := by
  have hanswer : ¬ s.callingParty = true := by simp [hcall]
  simp only [Starts, Waits, rxScrambledOnesAt1200, if_neg hanswer, if_pos h.negotiated]
  generalize hr : searchS1 { (decodeBaudx s.rx nearest).1 with
    trainingCount := (decodeBaudx s.rx nearest).1.trainingCount + 1 } (rawBits s.rx nearest) = r
  have htr : r.training = s.rx.training := by
    rw [← hr, searchS1_training]
    exact decodeBaudx_training ..
  by_cases hedge : r.patternRepeats ≥ 23 ∧ isS1Edge r.lastRawBits
  · simp only [if_pos hedge]
    by_cases hfast : s.bitRate = 2400
    · simp only [if_pos hfast]
      exact .inl ⟨_, fun _ => rfl⟩
    · simp only [if_neg hfast]
      exact .inr (h.waits_rx htr)
  · simp only [if_neg hedge]
    by_cases hend : r.trainingCount ≥ msToSymbols 400
    · simp only [if_pos hend]
      exact .inl ⟨_, fun _ => rfl⟩
    · simp only [if_neg hend]
      exact .inr (h.waits_rx htr)

theorem processBaud_waits (h : Acquiring s) :
    Starts (fun s => (processBaud s nearest).1) s ∨ Waits (fun s => (processBaud s nearest).1) s := by
  have hswitch : Starts (fun s => (trainingSwitch s nearest).1) s ∨
      Waits (fun s => (trainingSwitch s nearest).1) s := by
    simp only [Starts, Waits, trainingSwitch]
    rcases h.training with htr | htr | htr | ⟨hcall, htr⟩
    · simp only [withTraining, htr]
      exact .inr (rxSymbolAcquisition_waits h)
    · simp only [withTraining, htr]
      exact rxUnscrambledOnes_waits nearest h
    · simp only [withTraining, htr]
      exact rxUnscrambledOnesSustaining_waits nearest h
    · simp only [withTraining, htr]
      exact rxScrambledOnesAt1200_waits nearest h hcall
  rcases hswitch with hstart | ⟨hsame, hacq⟩
  · exact .inl hstart
  · exact .inr ⟨⟨hsame.tx, hsame.negotiated, hsame.callingParty⟩, hacq.negotiated, hacq.training⟩

theorem processHalfBaud_waits (h : Acquiring s) (o : RxObservation) :
    Starts (fun s => (processHalfBaud s o).1) s ∨ Waits (fun s => (processHalfBaud s o).1) s := by
  simp only [Starts, Waits, processHalfBaud]
  by_cases hhalf : (!s.rx.baudPhase) = true
  · simp only [if_pos hhalf]
    exact .inr (h.waits_rx rfl)
  · simp only [if_neg hhalf]
    have hsync := (h.waits_rx (symbolSync_kept { s.rx with baudPhase := !s.rx.baudPhase } o.early).1).2
    rcases processBaud_waits (slice _ o.decision) hsync with hstart | ⟨hsame, hacq⟩
    · exact .inl hstart
    · exact .inr ⟨⟨hsame.tx, hsame.negotiated, hsame.callingParty⟩, hacq⟩

theorem rxCarrier_waits (h : Acquiring s) (o : RxObservation) :
    Starts (fun s => (rxCarrier s o).1) s ∨ Waits (fun s => (rxCarrier s o).1) s := by
  simp only [Starts, Waits, rxCarrier, rxStrobe]
  by_cases hpark : s.rx.training = .parked
  · simp only [if_pos hpark]
    exact .inr ⟨⟨rfl, rfl, rfl⟩, h⟩
  · simp only [if_neg hpark]
    by_cases hput : s.rx.eqPutStep - 12 ≤ 0
    · simp only [if_pos hput]
      have hstrobe := (h.waits_rx (r := { s.rx with eqPutStep := s.rx.eqPutStep - 12 + 80 }) rfl).2
      rcases processHalfBaud_waits hstrobe o with hstart | ⟨hsame, hacq⟩
      · exact .inl hstart
      · exact .inr ⟨⟨hsame.tx, hsame.negotiated, hsame.callingParty⟩, hacq⟩
    · simp only [if_neg hput]
      exact .inr (h.waits_rx rfl)

theorem rxSample_waits (h : Acquiring s) (o : RxObservation) :
    Starts (fun s => (v22bisRxSample s o).1) s ∨ Waits (fun s => (v22bisRxSample s o).1) s := by
  have hcarrier : ∀ r, r.training = s.rx.training →
      Starts (fun s => (rxCarrier { s with rx := r } o).1) s ∨
        Waits (fun s => (rxCarrier { s with rx := r } o).1) s := by
    intro r hr
    rcases rxCarrier_waits (h.waits_rx hr).2 o with hstart | ⟨hsame, hacq⟩
    · exact .inl hstart
    · exact .inr ⟨⟨hsame.tx, hsame.negotiated, hsame.callingParty⟩, hacq⟩
  simp only [Starts, Waits, v22bisRxSample]
  by_cases hsignal : s.rx.signalPresent = true
  · simp only [if_pos hsignal]
    by_cases hlow : o.level = .belowOff
    · simp only [if_pos hlow]
      by_cases hlost : s.rx.carrierDownCount + 1 ≥ 800
      · simp only [if_pos hlost]
        exact .inr ⟨⟨rfl, h.negotiated.symm, rfl⟩, restart_acquiring _⟩
      · simp only [if_neg hlost]
        exact hcarrier _ rfl
    · simp only [if_neg hlow]
      exact hcarrier _ rfl
  · simp only [if_neg hsignal]
    by_cases hon : o.level = .aboveOn
    · simp only [if_pos hon]
      exact hcarrier _ rfl
    · simp only [if_neg hon]
      exact .inr ⟨⟨rfl, rfl, rfl⟩, h⟩

theorem LeavesTraining.waits {o : RxObservation} (hleft : LeavesTraining s o) (h : Acquiring s) :
    Waits (fun s => (v22bisRxSample s o).1) s := by
  rcases rxSample_waits h o with ⟨t, ht⟩ | hwait
  · have hs11 : t = .s11 := (ht .s11).symm.trans (hleft .s11)
    have hparked : t = .parked := (ht .parked).symm.trans (hleft .parked)
    rw [hs11] at hparked
    cases hparked
  · exact hwait

end Receiver

section Line

variable {σ : Type*} {getBit : σ → Option Bool × σ}

theorem trainingGet_transmitter {s s' : V22bisState} (h : SameTransmitter s s') :
    (trainingGet s').1 = (trainingGet s).1 ∧
      SameTransmitter (trainingGet s).2.1 (trainingGet s').2.1 := by
  obtain ⟨bitRate, callingParty, negotiated, rx, tx⟩ := s
  obtain ⟨bitRate', callingParty', negotiated', rx', tx'⟩ := s'
  obtain ⟨rfl, rfl, rfl⟩ := h
  unfold trainingGet
  dsimp only
  cases tx'.training <;> exact ⟨rfl, rfl, rfl, rfl⟩

theorem getbaud_transmitter {s s' : V22bisState} (h : SameTransmitter s s') (u : σ) :
    (getbaud getBit s' u).1 = (getbaud getBit s u).1 ∧
      SameTransmitter (getbaud getBit s u).2.1 (getbaud getBit s' u).2.1 ∧
      (getbaud getBit s' u).2.2.2 = (getbaud getBit s u).2.2.2 := by
  rcases eq_or_ne s.tx.training .normalOperation with hn | hn
  · obtain ⟨bitRate, callingParty, negotiated, rx, tx⟩ := s
    obtain ⟨bitRate', callingParty', negotiated', rx', tx'⟩ := s'
    obtain ⟨rfl, rfl, rfl⟩ := h
    have htx : tx'.training = .normalOperation := hn
    unfold getbaud
    simp only [htx, ne_eq, not_true_eq_false, if_false]
    split_ifs <;> exact ⟨rfl, ⟨rfl, rfl, rfl⟩, rfl⟩
  · have hn' : s'.tx.training ≠ .normalOperation := by
      rw [h.tx]
      exact hn
    rw [getbaud_training getBit u hn, getbaud_training getBit u hn']
    exact ⟨(trainingGet_transmitter h).1, (trainingGet_transmitter h).2, rfl⟩

theorem getbaud_acquiring {s : V22bisState} (h : Acquiring s) (u : σ) :
    Acquiring (getbaud getBit s u).2.1 := by
  obtain ⟨hrx, -, hneg⟩ := getbaud_frame getBit s u
  refine ⟨hneg.trans h.negotiated, ?_⟩
  rw [hrx, getbaud_callingParty]
  exact h.training

theorem sentSymbols_alone {s s' : V22bisState} (h : SameTransmitter s s') (hacq : Acquiring s')
    (u : σ) (ops : List LineOp)
    (hleft : Transition.Along (lineStep getBit) TrainingLeft (s', u) ops) :
    sentSymbols getBit (s', u) ops = sentAlone getBit (s, u) ops := by
  induction ops generalizing s s' u with
  | nil => rfl
  | cons op ops ih =>
      cases op with
      | symbol =>
          obtain ⟨hsym, hsame, hu⟩ := @getbaud_transmitter _ getBit _ _ h u
          have hrest := ih hsame (getbaud_acquiring hacq u) _ hleft.2
          simp only [sentSymbols, sentAlone, lineStep, hsym, hu] at hrest ⊢
          rw [hrest]
      | sample o =>
          obtain ⟨hsame, hacq'⟩ := LeavesTraining.waits hleft.1 hacq
          exact ih ⟨hsame.tx.trans h.tx, hsame.negotiated.trans h.negotiated,
            hsame.callingParty.trans h.callingParty⟩ hacq' u hleft.2

theorem carrierLost_sample {s : V22bisState} {o : RxObservation} (h : CarrierLost s o) :
    (v22bisRxSample s o).1 =
      v22bisRxRestart { s with rx :=
        { s.rx with carrierDownCount := s.rx.carrierDownCount + 1 } } := by
  obtain ⟨hsignal, hlow, hcount⟩ := h
  simp only [v22bisRxSample, if_pos hsignal, if_pos hlow, if_pos hcount]

theorem TransmitterUnaware.slow {s : V22bisState} {o : RxObservation}
    (h : TransmitterUnaware getBit s o) (hlost : CarrierLost s o) :
    s.negotiatedBitRate = 1200 := by
  have hneg := h.1.negotiated
  rw [carrierLost_sample hlost] at hneg
  exact hneg.symm

theorem carrier_loss_unnoticed_iff (getBit : σ → Option Bool × σ) (s : V22bisState)
    (o : RxObservation) (hlost : CarrierLost s o) :
    TransmitterUnaware getBit s o ↔ s.negotiatedBitRate = 1200 := by
  constructor
  · intro h
    exact h.slow hlost
  · intro hneg
    have hsame : SameTransmitter s (v22bisRxSample s o).1 := by
      rw [carrierLost_sample hlost]
      exact ⟨rfl, hneg.symm, rfl⟩
    refine ⟨hsame, ?_⟩
    intro u ops hleft
    apply sentSymbols_alone hsame ?_ u ops hleft
    rw [carrierLost_sample hlost]
    exact restart_acquiring _

end Line

def silence : RxObservation := { level := .belowOff, early := false, decision := 1 }

def fading (s : V22bisState) : V22bisState :=
  { s with rx := { s.rx with signalPresent := true, carrierDownCount := 799 } }

theorem fresh_modem_loses_the_carrier_unnoticed :
    TransmitterUnaware idleBit (fading (v22bisInit false 2400)) silence :=
  (carrier_loss_unnoticed_iff idleBit _ silence ⟨rfl, rfl, by decide⟩).mpr rfl

def s1Line (k : Nat) : RxObservation :=
  let j := k * 3 / 40
  { level := .aboveOn, early := j % 2 = 0, decision := if j % 2 = 0 then 1 else 5 }

def fadedAnswerer : ModemRun :=
  Transition.run modemOp ⟨v22bisInit false 2400, false⟩
    (chunkOps 900 s1Line ++ chunkOps 799 fun _ => silence)

theorem fadedAnswerer_fast : CarrierLost fadedAnswerer.modem silence ∧
    fadedAnswerer.modem.negotiatedBitRate = 2400 := by
  have hrun : Transition.runStrict 50 modemOp
      (fun m => decide (CarrierLost m.modem silence ∧ m.modem.negotiatedBitRate = 2400))
      0 ⟨v22bisInit false 2400, false⟩
      (chunkOps 900 s1Line ++ chunkOps 799 fun _ => silence) = true := by
    decide +kernel
  simpa only [fadedAnswerer, Transition.runStrict_eq, decide_eq_true_eq] using hrun

theorem carrier_loss_slows_the_transmitter :
    CarrierLost fadedAnswerer.modem silence ∧
      ¬ TransmitterUnaware idleBit fadedAnswerer.modem silence := by
  obtain ⟨hlost, hfast⟩ := fadedAnswerer_fast
  refine ⟨hlost, ?_⟩
  intro h
  have hslow := (h.slow hlost).symm.trans hfast
  omega

end Softmodem.V22bis

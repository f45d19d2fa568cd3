import Softmodem.V22bis.Transmitter
import Softmodem.V22bis.Receiver

namespace Softmodem.V22bis

inductive Level where
  | belowOff
  | between
  | aboveOn
  deriving DecidableEq, Repr

structure RxObservation where
  level : Level
  early : Bool
  decision : Symbol
  deriving DecidableEq, Repr

def symbolSync (r : Rx) (early : Bool) : Rx :=
  let integrate := r.gardnerIntegrate + (if early then r.gardnerStep else -r.gardnerStep)
  if integrate.natAbs ≥ 16 then
    { r with
      eqPutStep := r.eqPutStep + integrate.tdiv 16
      totalBaudTimingCorrection := r.totalBaudTimingCorrection + integrate.tdiv 16
      gardnerIntegrate := 0 }
  else { r with gardnerIntegrate := integrate }

def slice (r : Rx) (decision : Symbol) : Symbol :=
  if r.sixteenWayDecisions then decision else constellationIndex (quadrant decision) 1

def processHalfBaud (s : V22bisState) (o : RxObservation) : V22bisState × List RxOut :=
  let s := { s with rx := { s.rx with baudPhase := !s.rx.baudPhase } }
  if s.rx.baudPhase then (s, [])
  else
    let s := { s with rx := symbolSync s.rx o.early }
    processBaud s (slice s.rx o.decision)

def rxStrobe (s : V22bisState) (o : RxObservation) : V22bisState × List RxOut :=
  let put : Int := s.rx.eqPutStep - 12
  if put ≤ 0 then processHalfBaud { s with rx := { s.rx with eqPutStep := put + 80 } } o
  else ({ s with rx := { s.rx with eqPutStep := put } }, [])

def rxCarrier (s : V22bisState) (o : RxObservation) : V22bisState × List RxOut :=
  if s.rx.training = .parked then (s, []) else rxStrobe s o

def v22bisRxSample (s : V22bisState) (o : RxObservation) : V22bisState × List RxOut :=
  if s.rx.signalPresent then
    if o.level = .belowOff then
      let r := { s.rx with carrierDownCount := s.rx.carrierDownCount + 1 }
      if r.carrierDownCount ≥ 800 then
        (v22bisRxRestart { s with rx := r }, [.status .carrierDown])
      else rxCarrier { s with rx := r } o
    else rxCarrier { s with rx := { s.rx with carrierDownCount := 0 } } o
  else if o.level = .aboveOn then
    let (s, outs) :=
      rxCarrier { s with rx := { s.rx with signalPresent := true, carrierDownCount := 0 } } o
    (s, .status .carrierUp :: outs)
  else (s, [])

def CarrierLost (s : V22bisState) (o : RxObservation) : Prop :=
  s.rx.signalPresent = true ∧ o.level = .belowOff ∧ s.rx.carrierDownCount + 1 ≥ 800

instance (s : V22bisState) (o : RxObservation) : Decidable (CarrierLost s o) :=
  inferInstanceAs (Decidable (_ ∧ _ ∧ _))

variable {σ : Type*}

def v22bisTxSample (getBit : σ → Option Bool × σ) (s : V22bisState) (u : σ) :
    V22bisState × List Status × σ :=
  let phase := s.tx.baudPhase + 3
  if phase ≥ 40 then
    let (_, s, statuses, u) :=
      getbaud getBit { s with tx := { s.tx with baudPhase := phase - 40 } } u
    (s, statuses, u)
  else ({ s with tx := { s.tx with baudPhase := phase } }, [], u)

def v22bisTxSamples (getBit : σ → Option Bool × σ) :
    Nat → V22bisState → σ → V22bisState × List Status × σ
  | 0, s, u => (s, [], u)
  | len + 1, s, u =>
      let (s, statuses, u) := v22bisTxSample getBit s u
      let (s, more, u) := v22bisTxSamples getBit len s u
      (s, statuses ++ more, u)

def v22bisTx (getBit : σ → Option Bool × σ) (len : Nat) (s : V22bisState) (u : σ) :
    Nat × V22bisState × List Status × σ :=
  if s.tx.shutdown > 10 then (0, s, [], u) else (len, v22bisTxSamples getBit len s u)

structure TxStep (s s' : V22bisState) : Prop where
  rx : s'.rx = s.rx
  rate : s'.bitRate = s.bitRate
  negotiated : s'.negotiatedBitRate = s.negotiatedBitRate
  normal : s.tx.training = .normalOperation → s'.tx.training = .normalOperation

theorem TxStep.refl (s : V22bisState) : TxStep s s := ⟨rfl, rfl, rfl, id⟩

theorem TxStep.trans {s t u : V22bisState} (h : TxStep s t) (h' : TxStep t u) : TxStep s u :=
  ⟨h'.rx.trans h.rx, h'.rate.trans h.rate, h'.negotiated.trans h.negotiated,
    fun hn => h'.normal (h.normal hn)⟩

theorem getbaud_txStep (getBit : σ → Option Bool × σ) (s : V22bisState) (u : σ) :
    TxStep s (getbaud getBit s u).2.1 := by
  obtain ⟨hrx, hrate, hneg⟩ := getbaud_frame getBit s u
  refine ⟨hrx, hrate, hneg, ?_⟩
  intro hn
  obtain ⟨sym, t, u', heq, ht, -⟩ := getbaud_normal getBit u hn
  rw [heq]
  exact ht

theorem v22bisTxSample_spec (getBit : σ → Option Bool × σ) (s : V22bisState) (u : σ) :
    TxStep s (v22bisTxSample getBit s u).1 ∧ Pulls getBit u (v22bisTxSample getBit s u).2.2 := by
  simp only [v22bisTxSample]
  split
  · have h := getbaud_txStep getBit { s with tx := { s.tx with baudPhase := s.tx.baudPhase + 3 - 40 } } u
    exact ⟨⟨h.rx, h.rate, h.negotiated, h.normal⟩, getbaud_pulls getBit _ u⟩
  · exact ⟨⟨rfl, rfl, rfl, id⟩, .refl⟩

theorem v22bisTxSamples_spec (getBit : σ → Option Bool × σ) (len : Nat) (s : V22bisState) (u : σ) :
    TxStep s (v22bisTxSamples getBit len s u).1 ∧
      Pulls getBit u (v22bisTxSamples getBit len s u).2.2 := by
  induction len generalizing s u with
  | zero => exact ⟨.refl s, .refl⟩
  | succ len ih =>
      obtain ⟨hstep, hpulls⟩ := v22bisTxSample_spec getBit s u
      obtain ⟨hrest, hmore⟩ := ih (v22bisTxSample getBit s u).1 (v22bisTxSample getBit s u).2.2
      exact ⟨hstep.trans hrest, hpulls.trans hmore⟩

theorem v22bisTx_spec (getBit : σ → Option Bool × σ) (len : Nat) (s : V22bisState) (u : σ) :
    (v22bisTx getBit len s u).1 ≤ len ∧ TxStep s (v22bisTx getBit len s u).2.1 ∧
      Pulls getBit u (v22bisTx getBit len s u).2.2.2 := by
  unfold v22bisTx
  split
  · exact ⟨Nat.zero_le _, .refl s, .refl⟩
  · obtain ⟨hstep, hpulls⟩ := v22bisTxSamples_spec getBit len s u
    exact ⟨le_rfl, hstep, hpulls⟩

theorem trainingGet_retrain (s : V22bisState) : .retrainOccurred ∉ (trainingGet s).2.2 := by
  unfold trainingGet
  cases s.tx.training with
  | timedS11 =>
      simp only
      split_ifs <;> simp
  | s1111 =>
      simp only
      split_ifs <;> simp
  | _ => simp

theorem getbaud_retrain (getBit : σ → Option Bool × σ) (s : V22bisState) (u : σ) :
    .retrainOccurred ∉ (getbaud getBit s u).2.2.1 := by
  rcases eq_or_ne s.tx.training .normalOperation with hn | hn
  · obtain ⟨sym, t, u', heq, -⟩ := getbaud_normal getBit u hn
    simp [heq]
  · unfold getbaud
    rw [if_pos hn]
    exact trainingGet_retrain s

theorem v22bisTxSample_retrain (getBit : σ → Option Bool × σ) (s : V22bisState) (u : σ) :
    .retrainOccurred ∉ (v22bisTxSample getBit s u).2.1 := by
  simp only [v22bisTxSample]
  split
  · exact getbaud_retrain getBit _ u
  · simp

theorem v22bisTxSamples_retrain (getBit : σ → Option Bool × σ) (len : Nat) (s : V22bisState)
    (u : σ) : .retrainOccurred ∉ (v22bisTxSamples getBit len s u).2.1 := by
  induction len generalizing s u with
  | zero => simp [v22bisTxSamples]
  | succ len ih =>
      have hsample := v22bisTxSample_retrain getBit s u
      have hrest := ih (v22bisTxSample getBit s u).1 (v22bisTxSample getBit s u).2.2
      simp only [v22bisTxSamples]
      intro hmem
      rcases List.mem_append.mp hmem with hmem | hmem
      · exact hsample hmem
      · exact hrest hmem

theorem v22bisTx_retrain (getBit : σ → Option Bool × σ) (len : Nat) (s : V22bisState) (u : σ) :
    .retrainOccurred ∉ (v22bisTx getBit len s u).2.2.1 := by
  unfold v22bisTx
  split
  · simp
  · exact v22bisTxSamples_retrain getBit len s u

theorem processHalfBaud_shutdown (s : V22bisState) (o : RxObservation) :
    (processHalfBaud s o).1.tx.shutdown = s.tx.shutdown := by
  simp only [processHalfBaud]
  split
  · rfl
  · exact (processBaud_step _ _).shutdown

theorem rxCarrier_shutdown (s : V22bisState) (o : RxObservation) :
    (rxCarrier s o).1.tx.shutdown = s.tx.shutdown := by
  simp only [rxCarrier, rxStrobe]
  split
  · rfl
  · split
    · exact processHalfBaud_shutdown _ o
    · rfl

theorem v22bisRxSample_shutdown (s : V22bisState) (o : RxObservation) :
    (v22bisRxSample s o).1.tx.shutdown = s.tx.shutdown := by
  simp only [v22bisRxSample]
  split
  · split
    · split
      · rfl
      · exact rxCarrier_shutdown _ o
    · exact rxCarrier_shutdown _ o
  · split
    · exact rxCarrier_shutdown _ o
    · rfl

section Endless

variable {getBit : σ → Option Bool × σ}

theorem getScrambledBit_shutdown (hbit : ∀ u, (getBit u).1.isSome = true) (t : Tx) (u : σ) :
    (getScrambledBit getBit t u).1.shutdown = t.shutdown := by
  unfold getScrambledBit
  split
  · rfl
  · have hu := hbit u
    split
    · rfl
    · rename_i heq
      simp [heq] at hu

theorem trainingGet_shutdown (s : V22bisState) :
    (trainingGet s).2.1.tx.shutdown = s.tx.shutdown := by
  unfold trainingGet
  cases s.tx.training with
  | initialTimedSilence =>
      simp only
      split <;> rfl
  | u0011 =>
      simp only
      split_ifs <;> rfl
  | timedS11 =>
      simp only
      split_ifs <;> rfl
  | s1111 =>
      simp only
      split_ifs <;> rfl
  | _ => rfl

theorem getbaud_shutdown (hbit : ∀ u, (getBit u).1.isSome = true) {s : V22bisState} (u : σ)
    (h : s.tx.shutdown = 0) : (getbaud getBit s u).2.1.tx.shutdown = 0 := by
  unfold getbaud
  split
  · exact (trainingGet_shutdown s).trans h
  · have hon : ¬ s.tx.shutdown ≠ 0 := by simp [h]
    have hoff : ¬ s.tx.shutdown > 10 := by simp [h]
    simp only [if_neg hon, if_neg hoff]
    split <;> simpa [advance, getScrambledBit_shutdown hbit] using h

theorem v22bisTxSample_shutdown (hbit : ∀ u, (getBit u).1.isSome = true) {s : V22bisState} (u : σ)
    (h : s.tx.shutdown = 0) : (v22bisTxSample getBit s u).1.tx.shutdown = 0 := by
  simp only [v22bisTxSample]
  split
  · exact getbaud_shutdown hbit u h
  · exact h

theorem v22bisTxSamples_shutdown (hbit : ∀ u, (getBit u).1.isSome = true) (len : Nat)
    {s : V22bisState} (u : σ) (h : s.tx.shutdown = 0) :
    (v22bisTxSamples getBit len s u).1.tx.shutdown = 0 := by
  induction len generalizing s u with
  | zero => exact h
  | succ len ih =>
      have hsample := v22bisTxSample_shutdown hbit u h
      exact ih (v22bisTxSample getBit s u).2.2 hsample

theorem v22bisTx_shutdown (hbit : ∀ u, (getBit u).1.isSome = true) (len : Nat)
    {s : V22bisState} (u : σ) (h : s.tx.shutdown = 0) :
    (v22bisTx getBit len s u).1 = len ∧ (v22bisTx getBit len s u).2.1.tx.shutdown = 0 := by
  unfold v22bisTx
  rw [if_neg (by omega)]
  exact ⟨rfl, v22bisTxSamples_shutdown hbit len u h⟩

end Endless

end Softmodem.V22bis

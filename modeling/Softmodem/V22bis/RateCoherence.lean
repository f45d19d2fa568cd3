import Softmodem.V22bis.Link
import Softmodem.V22bis.Sampling
import Softmodem.V22bis.Symbols

namespace Softmodem.V22bis

variable {σ : Type*}

inductive ModemEvent (σ : Type*) where
  | symbolSent (u : σ)
  | samplesSent (len : Nat) (u : σ)
  | symbolReceived (nearest : Symbol)
  | sampleReceived (o : RxObservation)
  | rxRestart
  | restart
  | setBitRate (bitRate : Nat)

def modemStep (getBit : σ → Option Bool × σ) (s : V22bisState) : ModemEvent σ → V22bisState
  | .symbolSent u => (getbaud getBit s u).2.1
  | .samplesSent len u => (v22bisTx getBit len s u).2.1
  | .symbolReceived nearest => (processBaud s nearest).1
  | .sampleReceived o => (v22bisRxSample s o).1
  | .rxRestart => v22bisRxRestart s
  | .restart => v22bisRestart s
  | .setBitRate bitRate => v22bisSetBitRate s bitRate

def DecisionsFit (sixteen : Bool) (negotiated : Nat) : RxTraining → Prop
  | .normalOperation => sixteen = true ↔ negotiated = 2400
  | .scrambledOnesAt1200 => sixteen = true → negotiated = 2400
  | .waitForScrambledOnesAt2400 => sixteen = true ∧ negotiated = 2400
  | .parked => False
  | _ => sixteen = false ∧ negotiated = 1200

structure RateCoherent (s : V22bisState) : Prop where
  offered : s.negotiatedBitRate = 1200 ∨ s.negotiatedBitRate = 2400 ∧ s.bitRate = 2400
  decisions : DecisionsFit s.rx.sixteenWayDecisions s.negotiatedBitRate s.rx.training

theorem decodeBaudx_sixteenWay (r : Rx) (nearest : Symbol) :
    (decodeBaudx r nearest).1.sixteenWayDecisions = r.sixteenWayDecisions := by
  simp only [decodeBaudx]
  split <;> rfl

theorem searchS1_sixteenWay (r : Rx) (raw : Fin 4) :
    (searchS1 r raw).sixteenWayDecisions = r.sixteenWayDecisions := by
  simp only [searchS1]
  split <;> rfl

theorem symbolSync_kept (r : Rx) (early : Bool) :
    (symbolSync r early).training = r.training ∧
      (symbolSync r early).sixteenWayDecisions = r.sixteenWayDecisions := by
  unfold symbolSync
  generalize r.gardnerIntegrate + (if early then r.gardnerStep else -r.gardnerStep) = integrate
  dsimp only
  split <;> exact ⟨rfl, rfl⟩

theorem RateCoherent.kept {s s' : V22bisState} (h : RateCoherent s)
    (hrate : s'.bitRate = s.bitRate) (hneg : s'.negotiatedBitRate = s.negotiatedBitRate)
    (htr : s'.rx.training = s.rx.training)
    (hsix : s'.rx.sixteenWayDecisions = s.rx.sixteenWayDecisions) : RateCoherent s' := by
  constructor
  · rw [hneg, hrate]
    exact h.offered
  · rw [hsix, hneg, htr]
    exact h.decisions

theorem rxRestart_coherent (s : V22bisState) : RateCoherent (v22bisRxRestart s) :=
  ⟨.inl rfl, rfl, rfl⟩

section Receiver

variable {s : V22bisState} (nearest : Symbol)

theorem rxNormalOperation_coherent (h : RateCoherent s) (htr : s.rx.training = .normalOperation) :
    RateCoherent (rxNormalOperation s nearest).1 := by
  have hfit : s.rx.sixteenWayDecisions = true ↔ s.negotiatedBitRate = 2400 := by
    simpa [htr, DecisionsFit] using h.decisions
  simp only [rxNormalOperation]
  split
  · exact h.kept rfl rfl (decodeBaud_training ..) (decodeBaud_kept ..).1
  · split
    · refine ⟨h.offered, ?_⟩
      simp only [decodeBaud_training, (decodeBaud_kept _ _).1]
      exact hfit.mp
    · exact h.kept rfl rfl (decodeBaud_training ..) (decodeBaud_kept ..).1

theorem rxSymbolAcquisition_coherent (h : RateCoherent s)
    (htr : s.rx.training = .symbolAcquisition) : RateCoherent (rxSymbolAcquisition s).1 := by
  have hfit : s.rx.sixteenWayDecisions = false ∧ s.negotiatedBitRate = 1200 := by
    simpa [htr, DecisionsFit] using h.decisions
  simp only [rxSymbolAcquisition]
  split
  · refine ⟨.inl rfl, ?_⟩
    cases s.callingParty with
    | false =>
        intro hsix
        exact absurd (hfit.1.symm.trans hsix) Bool.false_ne_true
    | true => exact ⟨hfit.1, rfl⟩
  · split
    · exact h.kept rfl rfl rfl rfl
    · exact h.kept rfl rfl rfl rfl

theorem rxUnscrambledOnes_coherent (h : RateCoherent s) (htr : s.rx.training = .unscrambledOnes) :
    RateCoherent (rxUnscrambledOnes s nearest).1 := by
  have hfit : s.rx.sixteenWayDecisions = false ∧ s.negotiatedBitRate = 1200 := by
    simpa [htr, DecisionsFit] using h.decisions
  simp only [rxUnscrambledOnes]
  split
  · exact ⟨h.offered, hfit⟩
  · exact h.kept rfl rfl rfl rfl

theorem rxUnscrambledOnesSustaining_coherent (h : RateCoherent s)
    (htr : s.rx.training = .unscrambledOnesSustaining) :
    RateCoherent (rxUnscrambledOnesSustaining s nearest).1 := by
  have hfit : s.rx.sixteenWayDecisions = false ∧ s.negotiatedBitRate = 1200 := by
    simpa [htr, DecisionsFit] using h.decisions
  simp only [rxUnscrambledOnesSustaining]
  split
  · refine ⟨h.offered, ?_⟩
    intro hsix
    exact absurd (hfit.1.symm.trans hsix) Bool.false_ne_true
  · exact h.kept rfl rfl rfl rfl

theorem rxScrambledOnesAt1200_coherent (h : RateCoherent s)
    (htr : s.rx.training = .scrambledOnesAt1200) :
    RateCoherent (rxScrambledOnesAt1200 s nearest).1 := by
  have hfit : s.rx.sixteenWayDecisions = true → s.negotiatedBitRate = 2400 := by
    simpa [htr, DecisionsFit] using h.decisions
  simp only [rxScrambledOnesAt1200]
  split
  next hslow =>
    have hfour : s.rx.sixteenWayDecisions = false := by
      rw [← Bool.not_eq_true]
      intro hsix
      have := hfit hsix
      omega
    split
    · split
      next hfast =>
        refine ⟨.inr ⟨rfl, hfast⟩, ?_⟩
        simp [DecisionsFit, searchS1_training, decodeBaudx_training, htr]
      next =>
        refine h.kept rfl rfl ?_ ?_
        · simp [searchS1_training, decodeBaudx_training]
        · simp [searchS1_sixteenWay, decodeBaudx_sixteenWay]
    · split
      · refine ⟨h.offered, ?_⟩
        cases s.callingParty with
        | false => simp [DecisionsFit, searchS1_sixteenWay, decodeBaudx_sixteenWay, hfour, hslow]
        | true => simp [DecisionsFit, searchS1_sixteenWay, decodeBaudx_sixteenWay, hfour, hslow]
      · refine h.kept rfl rfl ?_ ?_
        · simp [searchS1_training, decodeBaudx_training]
        · simp [searchS1_sixteenWay, decodeBaudx_sixteenWay]
  next hfast =>
    have hneg : s.negotiatedBitRate = 2400 := by
      rcases h.offered with hn | ⟨hn, -⟩
      · exact absurd hn hfast
      · exact hn
    generalize (if s.callingParty then msToSymbols (100 + 450) else msToSymbols 450) = threshold
    split
    · exact ⟨h.offered, rfl, hneg⟩
    · exact h.kept rfl rfl (decodeBaudx_training ..) (decodeBaudx_sixteenWay ..)

theorem rxScrambledOnesAt1200Sustaining_coherent (h : RateCoherent s)
    (htr : s.rx.training = .scrambledOnesAt1200Sustaining) :
    RateCoherent (rxScrambledOnesAt1200Sustaining s nearest).1 := by
  have hfit : s.rx.sixteenWayDecisions = false ∧ s.negotiatedBitRate = 1200 := by
    simpa [htr, DecisionsFit] using h.decisions
  simp only [rxScrambledOnesAt1200Sustaining]
  split
  · refine ⟨h.offered, ?_⟩
    simp [DecisionsFit, decodeBaudx_sixteenWay, hfit]
  · exact h.kept rfl rfl (decodeBaudx_training ..) (decodeBaudx_sixteenWay ..)

theorem rxWaitForScrambledOnesAt2400_coherent (h : RateCoherent s)
    (htr : s.rx.training = .waitForScrambledOnesAt2400) :
    RateCoherent (rxWaitForScrambledOnesAt2400 s nearest).1 := by
  have hfit : s.rx.sixteenWayDecisions = true ∧ s.negotiatedBitRate = 2400 := by
    simpa [htr, DecisionsFit] using h.decisions
  simp only [rxWaitForScrambledOnesAt2400]
  split
  · refine ⟨h.offered, ?_⟩
    split
    · simp [DecisionsFit, decodeBaudx_sixteenWay, hfit]
    · simp [DecisionsFit, decodeBaudx_sixteenWay, decodeBaudx_training, htr, hfit]
  · exact h.kept rfl rfl (decodeBaudx_training ..) (decodeBaudx_sixteenWay ..)

theorem processBaud_coherent (h : RateCoherent s) : RateCoherent (processBaud s nearest).1 := by
  have hswitch : RateCoherent (trainingSwitch s nearest).1 := by
    unfold trainingSwitch
    cases htr : s.rx.training with
    | normalOperation => exact rxNormalOperation_coherent nearest h htr
    | symbolAcquisition => exact rxSymbolAcquisition_coherent h htr
    | unscrambledOnes => exact rxUnscrambledOnes_coherent nearest h htr
    | unscrambledOnesSustaining => exact rxUnscrambledOnesSustaining_coherent nearest h htr
    | scrambledOnesAt1200 => exact rxScrambledOnesAt1200_coherent nearest h htr
    | scrambledOnesAt1200Sustaining =>
        exact rxScrambledOnesAt1200Sustaining_coherent nearest h htr
    | waitForScrambledOnesAt2400 => exact rxWaitForScrambledOnesAt2400_coherent nearest h htr
    | parked =>
        have hpark := h.decisions
        rw [htr] at hpark
        exact hpark.elim
  exact hswitch.kept rfl rfl rfl rfl

theorem processHalfBaud_coherent (h : RateCoherent s) (o : RxObservation) :
    RateCoherent (processHalfBaud s o).1 := by
  simp only [processHalfBaud]
  split
  · exact h.kept rfl rfl rfl rfl
  · apply processBaud_coherent
    exact h.kept rfl rfl (symbolSync_kept ..).1 (symbolSync_kept ..).2

theorem rxCarrier_coherent (h : RateCoherent s) (o : RxObservation) :
    RateCoherent (rxCarrier s o).1 := by
  simp only [rxCarrier, rxStrobe]
  split
  · exact h
  · split
    · apply processHalfBaud_coherent
      exact h.kept rfl rfl rfl rfl
    · exact h.kept rfl rfl rfl rfl

theorem v22bisRxSample_coherent (h : RateCoherent s) (o : RxObservation) :
    RateCoherent (v22bisRxSample s o).1 := by
  simp only [v22bisRxSample]
  split
  · split
    · split
      · exact rxRestart_coherent _
      · apply rxCarrier_coherent
        exact h.kept rfl rfl rfl rfl
    · apply rxCarrier_coherent
      exact h.kept rfl rfl rfl rfl
  · split
    · apply rxCarrier_coherent
      exact h.kept rfl rfl rfl rfl
    · exact h

end Receiver

theorem TxStep.coherent {s s' : V22bisState} (hstep : TxStep s s') (h : RateCoherent s) :
    RateCoherent s' := by
  refine h.kept hstep.rate hstep.negotiated ?_ ?_
  · rw [hstep.rx]
  · rw [hstep.rx]

theorem processHalfBaud_rate (s : V22bisState) (o : RxObservation) :
    (processHalfBaud s o).1.bitRate = s.bitRate := by
  simp only [processHalfBaud]
  split
  · rfl
  · exact (processBaud_step _ _).rate

theorem rxCarrier_rate (s : V22bisState) (o : RxObservation) :
    (rxCarrier s o).1.bitRate = s.bitRate := by
  simp only [rxCarrier, rxStrobe]
  split
  · rfl
  · split
    · exact processHalfBaud_rate _ o
    · rfl

section Modem

variable {getBit : σ → Option Bool × σ}

theorem modemStep_coherent {s : V22bisState} (h : RateCoherent s) (e : ModemEvent σ) :
    RateCoherent (modemStep getBit s e) := by
  cases e with
  | symbolSent u => exact (getbaud_txStep getBit s u).coherent h
  | samplesSent len u => exact (v22bisTx_spec getBit len s u).2.1.coherent h
  | symbolReceived nearest => exact processBaud_coherent nearest h
  | sampleReceived o => exact v22bisRxSample_coherent h o
  | rxRestart => exact rxRestart_coherent s
  | restart => exact rxRestart_coherent _
  | setBitRate bitRate => exact rxRestart_coherent _

theorem v22bisRxSample_rate (s : V22bisState) (o : RxObservation) :
    (v22bisRxSample s o).1.bitRate = s.bitRate := by
  simp only [v22bisRxSample]
  split
  · split
    · split
      · rfl
      · exact rxCarrier_rate _ o
    · exact rxCarrier_rate _ o
  · split
    · exact rxCarrier_rate _ o
    · rfl

theorem modemStep_rate {s : V22bisState} (h : 1200 ≤ s.bitRate) {e : ModemEvent σ}
    (he : ∀ bitRate, e = .setBitRate bitRate → 1200 ≤ bitRate) :
    1200 ≤ (modemStep getBit s e).bitRate := by
  cases e with
  | symbolSent u => exact h.trans_eq (getbaud_txStep getBit s u).rate.symm
  | samplesSent len u => exact h.trans_eq (v22bisTx_spec getBit len s u).2.1.rate.symm
  | symbolReceived nearest => exact h.trans_eq (processBaud_step s nearest).rate.symm
  | sampleReceived o => exact h.trans_eq (v22bisRxSample_rate s o).symm
  | rxRestart => exact h
  | restart => exact h
  | setBitRate bitRate => exact he bitRate rfl

end Modem

def countShutdown (t : Tx) : Tx :=
  if t.shutdown ≠ 0 then { t with shutdown := t.shutdown + 1 } else t

def scrambledBits (getBit : σ → Option Bool × σ) (s : V22bisState) (u : σ) : List Bool :=
  let (t, hi, u) := getScrambledBit getBit (countShutdown s.tx) u
  let (t, lo, u) := getScrambledBit getBit t u
  let t := advance t (dibit hi lo)
  if s.negotiatedBitRate = 1200 then [hi, lo]
  else
    let (t, hi', u) := getScrambledBit getBit t u
    let (_, lo', _) := getScrambledBit getBit t u
    [hi, lo, hi', lo']

theorem getScrambledBit_constellation (getBit : σ → Option Bool × σ) (t : Tx) (u : σ) :
    (getScrambledBit getBit t u).1.constellationState = t.constellationState := by
  unfold getScrambledBit
  split
  · rfl
  · split <;> rfl

theorem getbaud_encodes (getBit : σ → Option Bool × σ) {s : V22bisState} (u : σ) {sym : Symbol}
    (hn : s.tx.training = .normalOperation) (hsent : (getbaud getBit s u).1 = some sym) :
    sym = encodeSymbol s.tx.constellationState (scrambledBits getBit s u) := by
  unfold getbaud at hsent
  rw [if_neg (by simpa using hn)] at hsent
  extract_lets _ t at hsent
  have ht : countShutdown s.tx = t := rfl
  have hq : t.constellationState = s.tx.constellationState := by
    rw [← ht, countShutdown]
    split <;> rfl
  unfold scrambledBits
  rw [ht]
  clear_value t
  by_cases hoff : t.shutdown > 10
  · simp [hoff] at hsent
  · rw [if_neg hoff] at hsent
    by_cases hneg : s.negotiatedBitRate = 1200
    · simp only [if_pos hneg, Option.some.injEq] at hsent ⊢
      rw [← hsent]
      simp [encodeSymbol, advance, getScrambledBit_constellation, hq]
    · simp only [if_neg hneg, Option.some.injEq] at hsent ⊢
      rw [← hsent]
      simp [encodeSymbol, advance, getScrambledBit_constellation, hq]

theorem scrambledBits_length (getBit : σ → Option Bool × σ) (s : V22bisState) (u : σ) :
    (scrambledBits getBit s u).length = if s.negotiatedBitRate = 1200 then 2 else 4 := by
  simp only [scrambledBits]
  split <;> rfl

theorem decodeBaud_length (r : Rx) (nearest : Symbol) :
    (decodeBaud r nearest).2.length = if r.sixteenWayDecisions then 4 else 2 := by
  rw [decodeBaud_decodes]
  simp only [List.length_map, descrambleAll, Mealy.run_length]
  cases r.sixteenWayDecisions <;> rfl

theorem RateCoherent.same_bits {s : V22bisState} (h : RateCoherent s)
    (hn : s.rx.training = .normalOperation) (getBit : σ → Option Bool × σ) (u : σ)
    (nearest : Symbol) :
    (scrambledBits getBit s u).length = (decodeBaud s.rx nearest).2.length := by
  have hfit : s.rx.sixteenWayDecisions = true ↔ s.negotiatedBitRate = 2400 := by
    simpa [hn, DecisionsFit] using h.decisions
  rw [scrambledBits_length, decodeBaud_length]
  rcases h.offered with hneg | ⟨hneg, -⟩
  · have hsix : s.rx.sixteenWayDecisions = false := by
      rw [← Bool.not_eq_true, hfit]
      omega
    rw [if_pos hneg, hsix]
    rfl
  · have hfast : ¬ s.negotiatedBitRate = 1200 := by omega
    rw [if_neg hfast, if_pos (hfit.mpr hneg)]

theorem rates_coherent_in_every_state (getBit : σ → Option Bool × σ) (callingParty : Bool)
    (bitRate : Nat) (events : List (ModemEvent σ)) (hinit : 1200 ≤ bitRate)
    (hset : ∀ rate, .setBitRate rate ∈ events → 1200 ≤ rate) :
    let s := Transition.run (modemStep getBit) (v22bisInit callingParty bitRate) events
    (s.negotiatedBitRate = 1200 ∨ s.negotiatedBitRate = 2400) ∧
      s.negotiatedBitRate ≤ s.bitRate ∧
      (s.rx.training = .normalOperation →
        (s.rx.sixteenWayDecisions = true ↔ s.negotiatedBitRate = 2400)) ∧
      (InNormalOperation s → ∀ u nearest,
        (scrambledBits getBit s u).length = (decodeBaud s.rx nearest).2.length ∧
          ∀ sym, (getbaud getBit s u).1 = some sym →
            sym = encodeSymbol s.tx.constellationState (scrambledBits getBit s u)) := by
  intro s
  have hcoh : RateCoherent s := by
    apply Transition.run_invariant (P := RateCoherent)
    · intro s e h
      exact modemStep_coherent h e
    · exact rxRestart_coherent _
  have hrate : 1200 ≤ s.bitRate := by
    refine Transition.along_invariant (P := fun s : V22bisState => 1200 ≤ s.bitRate)
      (G := fun _ e => ∀ rate, e = .setBitRate rate → 1200 ≤ rate)
      (fun _ _ h he => modemStep_rate h he) events hinit ?_
    rw [Transition.along_iff_split]
    rintro before e after rfl rate rfl
    exact hset rate (by simp)
  refine ⟨?_, ?_, ?_, ?_⟩
  · exact hcoh.offered.imp_right And.left
  · rcases hcoh.offered with hneg | ⟨hneg, hbit⟩
    · exact hneg.trans_le hrate
    · exact (hneg.trans hbit.symm).le
  · intro hn
    simpa [hn, DecisionsFit] using hcoh.decisions
  · rintro ⟨htx, hrx⟩ u nearest
    exact ⟨hcoh.same_bits hrx getBit u nearest, fun sym => getbaud_encodes getBit u htx⟩

-- An answerer set to 2400 acquires, finds S1, sends its own training and then hears scrambled ones.
def trainedAnswerer : List (ModemEvent (List (Option Bool))) :=
  .setBitRate 2400 :: .restart :: List.replicate 40 (.symbolReceived 1) ++
    (List.replicate 12 [.symbolReceived 5, .symbolReceived 1]).flatten ++
    List.replicate 270 (.symbolReceived 1) ++ List.replicate 480 (.symbolSent []) ++
    [4, 8, 12, 1, 3, 15, 11, 2, 11].map .symbolReceived

theorem trainedAnswerer_rates (rate : Nat) (h : .setBitRate rate ∈ trainedAnswerer) :
    1200 ≤ rate := by
  simp only [trainedAnswerer, List.mem_append, List.mem_cons, List.mem_replicate, List.mem_flatten,
    List.mem_map, ModemEvent.setBitRate.injEq, reduceCtorEq, and_false, or_false,
    exists_false] at h
  obtain rfl | ⟨events, ⟨-, rfl⟩, hevents⟩ := h
  · decide
  · simp at hevents

theorem rates_coherent_after_restart :
    ∃ s, s = Transition.run (modemStep nextBit) (v22bisInit false 1200) trainedAnswerer ∧
      InNormalOperation s ∧ s.negotiatedBitRate = 2400 ∧ s.negotiatedBitRate ≤ s.bitRate ∧
      s.rx.sixteenWayDecisions = true ∧ ∀ u nearest,
        (scrambledBits nextBit s u).length = (decodeBaud s.rx nearest).2.length ∧
          ∀ sym, (getbaud nextBit s u).1 = some sym →
            sym = encodeSymbol s.tx.constellationState (scrambledBits nextBit s u) := by
  have hrun : Transition.runStrict 8 (modemStep nextBit)
      (fun s => decide (InNormalOperation s ∧ s.negotiatedBitRate = 2400))
      0 (v22bisInit false 1200) trainedAnswerer = true := by
    decide +kernel
  have hcoherent := rates_coherent_in_every_state nextBit false 1200 trainedAnswerer (by decide)
    trainedAnswerer_rates
  rw [Transition.runStrict_eq] at hrun
  generalize Transition.run (modemStep nextBit) (v22bisInit false 1200) trainedAnswerer = s
    at hrun hcoherent
  obtain ⟨hnormal, hneg⟩ := of_decide_eq_true hrun
  obtain ⟨-, hle, hsix, hbits⟩ := hcoherent
  exact ⟨s, rfl, hnormal, hneg, hle, (hsix hnormal.2).mpr hneg, hbits hnormal⟩

end Softmodem.V22bis

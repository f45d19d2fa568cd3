import Softmodem.V22bis.State

namespace Softmodem.V22bis

def descramble (r : Rx) (bit : Bool) : Rx × Bool :=
  let out := bit ^^ r.scrambleReg.getLsbD 13 ^^ r.scrambleReg.getLsbD 16
  let complemented := 64 ≤ r.scramblerPatternCount
  let count := if complemented then 0 else r.scramblerPatternCount
  ({ r with
      scrambleReg := r.scrambleReg.shiftConcat bit
      scramblerPatternCount := if bit then count + 1 else 0 }, out ^^ complemented)

inductive RxOut where
  | status (st : Status)
  | bit (b : Bool)
  deriving DecidableEq, Repr

def putBit (r : Rx) (bit : Bool) : Rx × List RxOut :=
  let (r, b) := descramble r bit
  (r, [.bit b])

def rawBits (r : Rx) (nearest : Symbol) : Fin 4 :=
  phaseSteps (quadrant nearest - quadrant r.constellationState)

def decodeBaud (r : Rx) (nearest : Symbol) : Rx × List RxOut :=
  let raw := rawBits r nearest
  let r := { r with constellationState := nearest }
  let (r, hi) := putBit r (raw.val.testBit 1)
  let (r, lo) := putBit r (raw.val.testBit 0)
  if r.sixteenWayDecisions then
    let (r, hi') := putBit r (nearest.val.testBit 1)
    let (r, lo') := putBit r (nearest.val.testBit 0)
    (r, hi ++ lo ++ hi' ++ lo')
  else (r, hi ++ lo)

def decodeBaudx (r : Rx) (nearest : Symbol) : Rx × Nat :=
  let raw := rawBits r nearest
  let r := { r with constellationState := nearest }
  let (r, b) := descramble r (raw.val.testBit 1)
  let out := b.toNat
  let (r, b) := descramble r (raw.val.testBit 0)
  let out := out <<< 1 ||| b.toNat
  if r.sixteenWayDecisions then
    let (r, b) := descramble r (nearest.val.testBit 1)
    let out := out <<< 1 ||| b.toNat
    let (r, b) := descramble r (nearest.val.testBit 0)
    (r, out <<< 1 ||| b.toNat)
  else (r, out)

def alternates (a b : Fin 4) : Prop := a.val ^^^ b.val = 3

instance (a b : Fin 4) : Decidable (alternates a b) := inferInstanceAs (Decidable (_ = _))

def isS1Edge (a : Fin 4) : Prop := a = 3 ∨ a = 0

instance (a : Fin 4) : Decidable (isS1Edge a) := inferInstanceAs (Decidable (_ ∨ _))

def historyAlternations (history : BitVec 64) : Nat :=
  let h := history.toNat
  (List.range 31).countP fun k => (h >>> (2 * k) &&& 3) ^^^ (h >>> (2 * (k + 1)) &&& 3) = 3

section Training

variable (s : V22bisState) (nearest : Symbol)

def rxNormalOperation : V22bisState × List RxOut × Fin 4 :=
  let raw := rawBits s.rx nearest
  let (s, statuses) :=
    if alternates s.rx.lastRawBits raw then
      ({ s with rx := { s.rx with patternRepeats := s.rx.patternRepeats + 1 } }, [])
    else
      let (s, statuses) :=
        if s.rx.patternRepeats ≥ 50 ∧ isS1Edge s.rx.lastRawBits then
          ({ s with
              rx := equalizerReset
                { s.rx with
                  patternRepeats := 0, trainingCount := 0, training := .scrambledOnesAt1200 }
              tx := { s.tx with trainingCount := 0, training := .u0011 } },
            [RxOut.status .retrainOccurred])
        else (s, [])
      ({ s with rx := { s.rx with patternRepeats := 0 } }, statuses)
  let (r, bits) := decodeBaud s.rx nearest
  ({ s with rx := r }, statuses ++ bits, raw)

def rxSymbolAcquisition : V22bisState × List RxOut × Fin 4 :=
  let r := { s.rx with trainingCount := s.rx.trainingCount + 1 }
  if r.trainingCount ≥ 40 then
    ({ s with
        rx := { r with
          gardnerStep := 4
          patternRepeats := 0
          training := if s.callingParty then .unscrambledOnes else .scrambledOnesAt1200 }
        negotiatedBitRate := 1200 }, [], 0)
  else if r.trainingCount = 30 then ({ s with rx := { r with gardnerStep := 32 } }, [], 0)
  else ({ s with rx := r }, [], 0)

def rxUnscrambledOnes : V22bisState × List RxOut × Fin 4 :=
  let raw := rawBits s.rx nearest
  let r := { s.rx with
    constellationState := nearest
    patternRepeats := if raw ≠ s.rx.lastRawBits then 0 else s.rx.patternRepeats + 1
    trainingCount := s.rx.trainingCount + 1 }
  if r.trainingCount = msToSymbols (155 + 456) then
    let t :=
      if raw = r.lastRawBits ∧ isS1Edge raw ∧ r.patternRepeats ≥ msToSymbols 456 then
        { s.tx with
          training := if s.bitRate = 2400 then .u0011 else .s11
          trainingCount := 0 }
      else s.tx
    ({ s with
        rx := { r with
          patternRepeats := 0, trainingCount := 0, training := .unscrambledOnesSustaining }
        tx := t }, [], raw)
  else ({ s with rx := r }, [], raw)

def rxUnscrambledOnesSustaining : V22bisState × List RxOut × Fin 4 :=
  let raw := rawBits s.rx nearest
  let r := { s.rx with constellationState := nearest }
  if raw ≠ r.lastRawBits then
    ({ s with
        rx := { r with trainingCount := 0, training := .scrambledOnesAt1200, patternRepeats := 0 }
        tx := { s.tx with trainingCount := 0, training := .timedS11 } }, [], raw)
  else ({ s with rx := r }, [], raw)

def searchS1 (r : Rx) (raw : Fin 4) : Rx :=
  let r := { r with
    rawHistory := (r.rawHistory <<< 2) ||| BitVec.ofNat 64 raw.val
    rawHistCount := r.rawHistCount + 1 }
  if r.rawHistCount ≥ 16 then
    let alt := historyAlternations r.rawHistory
    { r with patternRepeats := if alt ≥ 23 ∧ isS1Edge r.lastRawBits then alt else 0 }
  else r

def rxScrambledOnesAt1200 : V22bisState × List RxOut × Fin 4 :=
  let raw := rawBits s.rx nearest
  let (r, _) := decodeBaudx s.rx nearest
  let r := { r with trainingCount := r.trainingCount + 1 }
  if s.negotiatedBitRate = 1200 then
    let r := searchS1 r raw
    if r.patternRepeats ≥ 23 ∧ isS1Edge r.lastRawBits then
      let s :=
        if s.bitRate = 2400 then
          { s with
            tx := if s.callingParty then s.tx
              else { s.tx with training := .u0011, trainingCount := 0 }
            negotiatedBitRate := 2400 }
        else s
      ({ s with rx := { r with patternRepeats := 0, rawHistCount := 0, trainingCount := 0 } },
        [], raw)
    else if r.trainingCount ≥ msToSymbols 400 then
      ({ s with
          rx := { r with
            training :=
              if s.callingParty then .normalOperation else .scrambledOnesAt1200Sustaining }
          tx := { s.tx with trainingCount := 0, training := .timedS11 } }, [], raw)
    else ({ s with rx := r }, [], raw)
  else
    if r.trainingCount ≥ (if s.callingParty then msToSymbols (100 + 450) else msToSymbols 450) then
      ({ s with
          rx := { r with
            sixteenWayDecisions := true
            training := .waitForScrambledOnesAt2400
            patternRepeats := 0 } }, [], raw)
    else ({ s with rx := r }, [], raw)

def rxScrambledOnesAt1200Sustaining : V22bisState × List RxOut × Fin 4 :=
  let (r, _) := decodeBaudx s.rx nearest
  let r := { r with trainingCount := r.trainingCount + 1 }
  if r.trainingCount > msToSymbols (270 + 765) then
    ({ s with rx := { r with training := .normalOperation } }, [], 0)
  else ({ s with rx := r }, [], 0)

def rxWaitForScrambledOnesAt2400 : V22bisState × List RxOut × Fin 4 :=
  let (r, bitstream) := decodeBaudx s.rx nearest
  if bitstream = 0xF then
    let r := { r with patternRepeats := r.patternRepeats + 1 }
    ({ s with
        rx := if r.patternRepeats ≥ 9 then { r with training := .normalOperation } else r },
      [], 0)
  else ({ s with rx := { r with patternRepeats := 0 } }, [], 0)

def trainingSwitch : V22bisState × List RxOut × Fin 4 :=
  match s.rx.training with
  | .normalOperation => rxNormalOperation s nearest
  | .symbolAcquisition => rxSymbolAcquisition s
  | .unscrambledOnes => rxUnscrambledOnes s nearest
  | .unscrambledOnesSustaining => rxUnscrambledOnesSustaining s nearest
  | .scrambledOnesAt1200 => rxScrambledOnesAt1200 s nearest
  | .scrambledOnesAt1200Sustaining => rxScrambledOnesAt1200Sustaining s nearest
  | .waitForScrambledOnesAt2400 => rxWaitForScrambledOnesAt2400 s nearest
  | .parked => (s, [], 0)

def processBaud : V22bisState × List RxOut :=
  let (s, outs, raw) := trainingSwitch s nearest
  ({ s with rx := { s.rx with lastRawBits := raw } }, outs)

end Training

structure RxStep (s s' : V22bisState) : Prop where
  rate : s'.bitRate = s.bitRate
  shutdown : s'.tx.shutdown = s.tx.shutdown
  negotiated : s'.negotiatedBitRate = s.negotiatedBitRate ∨ s'.negotiatedBitRate = 1200 ∨
    s.bitRate = 2400 ∧ s'.negotiatedBitRate = 2400
  training : s'.tx.training = s.tx.training ∨ s'.tx.training = .u0011 ∨
    s'.tx.training = .s11 ∨ s'.tx.training = .timedS11

theorem rxStep_rx (s : V22bisState) (r : Rx) : RxStep s { s with rx := r } :=
  ⟨rfl, rfl, .inl rfl, .inl rfl⟩

theorem rxNormalOperation_step (s : V22bisState) (nearest : Symbol) :
    RxStep s (rxNormalOperation s nearest).1 := by
  simp only [rxNormalOperation]
  split
  · exact rxStep_rx ..
  · split
    · exact ⟨rfl, rfl, .inl rfl, .inr (.inl rfl)⟩
    · exact rxStep_rx ..

theorem rxSymbolAcquisition_step (s : V22bisState) : RxStep s (rxSymbolAcquisition s).1 := by
  simp only [rxSymbolAcquisition]
  split
  · exact ⟨rfl, rfl, .inr (.inl rfl), .inl rfl⟩
  · split <;> exact rxStep_rx ..

theorem rxUnscrambledOnes_step (s : V22bisState) (nearest : Symbol) :
    RxStep s (rxUnscrambledOnes s nearest).1 := by
  simp only [rxUnscrambledOnes]
  split
  · refine ⟨rfl, ?_, .inl rfl, ?_⟩
    all_goals
      simp only
      split_ifs <;> simp
  · exact rxStep_rx ..

theorem rxUnscrambledOnesSustaining_step (s : V22bisState) (nearest : Symbol) :
    RxStep s (rxUnscrambledOnesSustaining s nearest).1 := by
  simp only [rxUnscrambledOnesSustaining]
  split
  · exact ⟨rfl, rfl, .inl rfl, .inr (.inr (.inr rfl))⟩
  · exact rxStep_rx ..

theorem rxScrambledOnesAt1200_step (s : V22bisState) (nearest : Symbol) :
    RxStep s (rxScrambledOnesAt1200 s nearest).1 := by
  simp only [rxScrambledOnesAt1200]
  split
  · split
    · split
      · refine ⟨rfl, ?_, .inr (.inr ⟨‹_›, rfl⟩), ?_⟩
        all_goals
          simp only
          split_ifs <;> simp
      · exact rxStep_rx ..
    · split
      · exact ⟨rfl, rfl, .inl rfl, .inr (.inr (.inr rfl))⟩
      · exact rxStep_rx ..
  · split <;> split <;> exact rxStep_rx ..

theorem rxScrambledOnesAt1200Sustaining_step (s : V22bisState) (nearest : Symbol) :
    RxStep s (rxScrambledOnesAt1200Sustaining s nearest).1 := by
  simp only [rxScrambledOnesAt1200Sustaining]
  split <;> exact rxStep_rx ..

theorem rxWaitForScrambledOnesAt2400_step (s : V22bisState) (nearest : Symbol) :
    RxStep s (rxWaitForScrambledOnesAt2400 s nearest).1 := by
  simp only [rxWaitForScrambledOnesAt2400]
  split <;> exact rxStep_rx ..

theorem processBaud_step (s : V22bisState) (nearest : Symbol) :
    RxStep s (processBaud s nearest).1 := by
  have h : RxStep s (trainingSwitch s nearest).1 := by
    unfold trainingSwitch
    cases s.rx.training with
    | normalOperation => exact rxNormalOperation_step s nearest
    | symbolAcquisition => exact rxSymbolAcquisition_step s
    | unscrambledOnes => exact rxUnscrambledOnes_step s nearest
    | unscrambledOnesSustaining => exact rxUnscrambledOnesSustaining_step s nearest
    | scrambledOnesAt1200 => exact rxScrambledOnesAt1200_step s nearest
    | scrambledOnesAt1200Sustaining => exact rxScrambledOnesAt1200Sustaining_step s nearest
    | waitForScrambledOnesAt2400 => exact rxWaitForScrambledOnesAt2400_step s nearest
    | parked => exact rxStep_rx ..
  exact ⟨h.rate, h.shutdown, h.negotiated, h.training⟩

theorem processBaud_callingParty (s : V22bisState) (nearest : Symbol) :
    (processBaud s nearest).1.callingParty = s.callingParty := by
  unfold processBaud trainingSwitch
  cases s.rx.training with
  | normalOperation =>
      simp only [rxNormalOperation]
      split_ifs <;> rfl
  | symbolAcquisition =>
      simp only [rxSymbolAcquisition]
      split_ifs <;> rfl
  | unscrambledOnes =>
      simp only [rxUnscrambledOnes]
      split <;> rfl
  | unscrambledOnesSustaining =>
      simp only [rxUnscrambledOnesSustaining]
      split <;> rfl
  | scrambledOnesAt1200 =>
      simp only [rxScrambledOnesAt1200]
      split_ifs <;> rfl
  | scrambledOnesAt1200Sustaining =>
      simp only [rxScrambledOnesAt1200Sustaining]
      split <;> rfl
  | waitForScrambledOnesAt2400 =>
      simp only [rxWaitForScrambledOnesAt2400]
      split <;> rfl
  | parked => rfl

theorem decodeBaud_training (r : Rx) (nearest : Symbol) :
    (decodeBaud r nearest).1.training = r.training := by
  simp only [decodeBaud]
  split <;> rfl

theorem decodeBaudx_training (r : Rx) (nearest : Symbol) :
    (decodeBaudx r nearest).1.training = r.training := by
  simp only [decodeBaudx]
  split <;> rfl

theorem searchS1_training (r : Rx) (raw : Fin 4) : (searchS1 r raw).training = r.training := by
  simp only [searchS1]
  split <;> rfl

end Softmodem.V22bis

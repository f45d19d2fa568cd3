import Mathlib.Data.Fin.Basic
import Mathlib.Data.BitVec
import Softmodem.Lib.Strict

namespace Softmodem.V22bis

abbrev Symbol := Fin 16

instance symbol_neZero : NeZero 16 := ⟨by decide⟩

instance dibit_neZero : NeZero 4 := ⟨by decide⟩

def msToSymbols (t : Nat) : Nat := t * 600 / 1000

inductive RxTraining where
  | normalOperation
  | symbolAcquisition
  | unscrambledOnes
  | unscrambledOnesSustaining
  | scrambledOnesAt1200
  | scrambledOnesAt1200Sustaining
  | waitForScrambledOnesAt2400
  | parked
  deriving DecidableEq, Repr

inductive TxTraining where
  | normalOperation
  | initialSilence
  | initialTimedSilence
  | u11
  | u0011
  | s11
  | timedS11
  | s1111
  | parked
  deriving DecidableEq, Repr

inductive Status where
  | trainingSucceeded
  | trainingFailed
  | carrierUp
  | carrierDown
  | retrainOccurred
  deriving DecidableEq, Repr

inductive GetBit where
  | fakeGetBit
  | getBit
  deriving DecidableEq, Repr

structure Rx where
  scrambleReg : BitVec 32
  scramblerPatternCount : Nat
  training : RxTraining
  trainingCount : Nat
  signalPresent : Bool
  constellationState : Symbol
  carrierDownCount : Nat
  eqPutStep : Int
  gardnerIntegrate : Int
  gardnerStep : Int
  totalBaudTimingCorrection : Int
  baudPhase : Bool
  sixteenWayDecisions : Bool
  patternRepeats : Nat
  lastRawBits : Fin 4
  rawHistory : BitVec 64
  rawHistCount : Nat
  deriving DecidableEq, Repr

structure Tx where
  scrambleReg : BitVec 32
  scramblerPatternCount : Nat
  training : TxTraining
  trainingCount : Nat
  baudPhase : Nat
  constellationState : Fin 4
  shutdown : Nat
  currentGetBit : GetBit
  deriving DecidableEq, Repr

structure V22bisState where
  bitRate : Nat
  callingParty : Bool
  negotiatedBitRate : Nat
  rx : Rx
  tx : Tx
  deriving DecidableEq, Repr

def phaseSteps : Fin 4 → Fin 4
  | 0 => 1
  | 1 => 0
  | 2 => 2
  | 3 => 3

def dibit (hi lo : Bool) : Fin 4 :=
  match hi, lo with
  | false, false => 0
  | false, true => 1
  | true, false => 2
  | true, true => 3

def quadrant (s : Symbol) : Fin 4 := ⟨s.val / 4, by omega⟩

def constellationIndex (q bits : Fin 4) : Symbol := ⟨q.val * 4 + bits.val, by omega⟩

theorem quadrant_constellationIndex : ∀ q b, quadrant (constellationIndex q b) = q := by
  decide

def equalizerReset (r : Rx) : Rx := { r with eqPutStep := 20 - 1 }

def v22bisRxRestart (s : V22bisState) : V22bisState :=
  { s with
    rx := equalizerReset
      { s.rx with
        scrambleReg := 0
        scramblerPatternCount := 0
        training := .symbolAcquisition
        trainingCount := 0
        signalPresent := false
        constellationState := 0
        sixteenWayDecisions := false
        carrierDownCount := 0
        patternRepeats := 0
        lastRawBits := 0
        rawHistory := 0
        rawHistCount := 0
        gardnerIntegrate := 0
        gardnerStep := 256
        baudPhase := false
        totalBaudTimingCorrection := 0 }
    negotiatedBitRate := 1200 }

def v22bisRestart (s : V22bisState) : V22bisState :=
  v22bisRxRestart
    { s with
      tx :=
        { scrambleReg := 0
          scramblerPatternCount := 0
          training := if s.callingParty then .initialSilence else .initialTimedSilence
          trainingCount := 0
          baudPhase := 0
          constellationState := 0
          shutdown := 0
          currentGetBit := .fakeGetBit }
      negotiatedBitRate := 1200 }

def v22bisZero : V22bisState :=
  { bitRate := 0, callingParty := false, negotiatedBitRate := 0
    rx :=
      { scrambleReg := 0, scramblerPatternCount := 0, training := .normalOperation
        trainingCount := 0, signalPresent := false, constellationState := 0
        carrierDownCount := 0, eqPutStep := 0, gardnerIntegrate := 0, gardnerStep := 0
        totalBaudTimingCorrection := 0, baudPhase := false, sixteenWayDecisions := false
        patternRepeats := 0, lastRawBits := 0, rawHistory := 0, rawHistCount := 0 }
    tx :=
      { scrambleReg := 0, scramblerPatternCount := 0, training := .normalOperation
        trainingCount := 0, baudPhase := 0, constellationState := 0, shutdown := 0
        currentGetBit := .getBit } }

def v22bisInit (callingParty : Bool) (bitRate : Nat) : V22bisState :=
  v22bisRestart
    { v22bisZero with callingParty := callingParty, bitRate := bitRate, negotiatedBitRate := 1200 }

def v22bisSetBitRate (s : V22bisState) (bitRate : Nat) : V22bisState :=
  v22bisRestart { s with bitRate := bitRate }

instance : Strict RxTraining where
  force
    | .normalOperation, k => k .normalOperation
    | .symbolAcquisition, k => k .symbolAcquisition
    | .unscrambledOnes, k => k .unscrambledOnes
    | .unscrambledOnesSustaining, k => k .unscrambledOnesSustaining
    | .scrambledOnesAt1200, k => k .scrambledOnesAt1200
    | .scrambledOnesAt1200Sustaining, k => k .scrambledOnesAt1200Sustaining
    | .waitForScrambledOnesAt2400, k => k .waitForScrambledOnesAt2400
    | .parked, k => k .parked
  force_eq := by
    intro t k
    cases t <;> rfl

instance : Strict TxTraining where
  force
    | .normalOperation, k => k .normalOperation
    | .initialSilence, k => k .initialSilence
    | .initialTimedSilence, k => k .initialTimedSilence
    | .u11, k => k .u11
    | .u0011, k => k .u0011
    | .s11, k => k .s11
    | .timedS11, k => k .timedS11
    | .s1111, k => k .s1111
    | .parked, k => k .parked
  force_eq := by
    intro t k
    cases t <;> rfl

instance : Strict GetBit where
  force
    | .fakeGetBit, k => k .fakeGetBit
    | .getBit, k => k .getBit
  force_eq := by
    intro g k
    cases g <;> rfl

instance : Strict Rx :=
  .ofFields
    (fun ⟨a, b, c, d, e, f, g, h, i, j, k, l, m, n, o, p, q⟩ =>
      (a, b, c, d, e, f, g, h, i, j, k, l, m, n, o, p, q))
    (fun (a, b, c, d, e, f, g, h, i, j, k, l, m, n, o, p, q) =>
      ⟨a, b, c, d, e, f, g, h, i, j, k, l, m, n, o, p, q⟩)
    (fun _ => rfl)

instance : Strict Tx :=
  .ofFields (fun ⟨a, b, c, d, e, f, g, h⟩ => (a, b, c, d, e, f, g, h))
    (fun (a, b, c, d, e, f, g, h) => ⟨a, b, c, d, e, f, g, h⟩) (fun _ => rfl)

instance : Strict V22bisState :=
  .ofFields (fun ⟨a, b, c, d, e⟩ => (a, b, c, d, e)) (fun (a, b, c, d, e) => ⟨a, b, c, d, e⟩)
    (fun _ => rfl)

end Softmodem.V22bis

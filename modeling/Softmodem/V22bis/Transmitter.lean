import Mathlib.Logic.Relation
import Softmodem.V22bis.State

namespace Softmodem.V22bis

def scramble (t : Tx) (bit : Bool) : Tx × Bool :=
  let complemented := 64 ≤ t.scramblerPatternCount
  let bit := bit ^^ complemented
  let count := if complemented then 0 else t.scramblerPatternCount
  let out := bit ^^ t.scrambleReg.getLsbD 13 ^^ t.scrambleReg.getLsbD 16
  ({ t with
      scrambleReg := t.scrambleReg.shiftConcat out
      scramblerPatternCount := if out then count + 1 else 0 }, out)

variable {σ : Type*}

def getScrambledBit (getBit : σ → Option Bool × σ) (t : Tx) (u : σ) : Tx × Bool × σ :=
  match t.currentGetBit with
  | .fakeGetBit =>
      let (t, b) := scramble t true
      (t, b, u)
  | .getBit =>
      match getBit u with
      | (some bit, u) =>
          let (t, b) := scramble t bit
          (t, b, u)
      | (none, u) =>
          let (t, b) := scramble { t with currentGetBit := .fakeGetBit, shutdown := 1 } true
          (t, b, u)

def scrambledOnes (t : Tx) : Tx × Fin 4 :=
  let (t, hi) := scramble t true
  let (t, lo) := scramble t true
  (t, dibit hi lo)

def advance (t : Tx) (bits : Fin 4) : Tx :=
  { t with constellationState := t.constellationState + phaseSteps bits }

def enterNormalOperation (t : Tx) : Tx :=
  { t with trainingCount := 0, training := .normalOperation, currentGetBit := .getBit }

def sendS11 (s : V22bisState) : Option Symbol × V22bisState :=
  let (t, bits) := scrambledOnes s.tx
  let t := advance t bits
  (some (constellationIndex t.constellationState 1), { s with tx := t })

def trainingGet (s : V22bisState) : Option Symbol × V22bisState × List Status :=
  match s.tx.training with
  | .initialTimedSilence =>
      let t := { s.tx with trainingCount := s.tx.trainingCount + 1 }
      let t := if t.trainingCount ≥ msToSymbols 75 then
        { t with trainingCount := 0, training := .u11 } else t
      (none, { s with tx := { t with constellationState := 0 } }, [])
  | .initialSilence => (none, { s with tx := { s.tx with constellationState := 0 } }, [])
  | .u11 =>
      let t := advance s.tx 3
      (some (constellationIndex t.constellationState 1), { s with tx := t }, [])
  | .u0011 =>
      let t := advance s.tx (if s.tx.trainingCount % 2 = 1 then 3 else 0)
      let t := { t with trainingCount := t.trainingCount + 1 }
      let t :=
        if t.trainingCount ≥ msToSymbols 100 then
          if s.callingParty then { t with trainingCount := 0, training := .s11 }
          else { t with trainingCount := msToSymbols (756 - (600 - 100)), training := .timedS11 }
        else t
      (some (constellationIndex t.constellationState 1), { s with tx := t }, [])
  | .timedS11 =>
      let t := { s.tx with trainingCount := s.tx.trainingCount + 1 }
      let (t, statuses) :=
        if t.trainingCount ≥ msToSymbols 756 then
          if s.negotiatedBitRate = 2400 then
            ({ t with trainingCount := 0, training := .s1111 }, [])
          else (enterNormalOperation t, [Status.trainingSucceeded])
        else (t, [])
      let (v, s) := sendS11 { s with tx := t }
      (v, s, statuses)
  | .s11 =>
      let (v, s) := sendS11 s
      (v, s, [])
  | .s1111 =>
      let (t, bits) := scrambledOnes s.tx
      let t := advance t bits
      let (t, bits) := scrambledOnes t
      let t := { t with trainingCount := t.trainingCount + 1 }
      let (t, statuses) :=
        if t.trainingCount ≥ msToSymbols 200 then
          (enterNormalOperation t, [Status.trainingSucceeded])
        else (t, [])
      (some (constellationIndex t.constellationState bits), { s with tx := t }, statuses)
  | .normalOperation => (none, s, [])
  | .parked => (none, s, [])

def getbaud (getBit : σ → Option Bool × σ) (s : V22bisState) (u : σ) :
    Option Symbol × V22bisState × List Status × σ :=
  if s.tx.training ≠ .normalOperation then
    let (v, s, statuses) := trainingGet s
    (v, s, statuses, u)
  else
    let t := if s.tx.shutdown ≠ 0 then { s.tx with shutdown := s.tx.shutdown + 1 } else s.tx
    if t.shutdown > 10 then (none, { s with tx := t }, [], u)
    else
      let (t, hi, u) := getScrambledBit getBit t u
      let (t, lo, u) := getScrambledBit getBit t u
      let t := advance t (dibit hi lo)
      if s.negotiatedBitRate = 1200 then
        (some (constellationIndex t.constellationState 1), { s with tx := t }, [], u)
      else
        let (t, hi, u) := getScrambledBit getBit t u
        let (t, lo, u) := getScrambledBit getBit t u
        (some (constellationIndex t.constellationState (dibit hi lo)), { s with tx := t }, [], u)

def Plain (sym : Option Symbol) : Prop := ∀ nearest, sym = some nearest → nearest.val % 4 = 1

theorem plain_none : Plain none := by
  intro nearest h
  cases h

theorem plain_quadrant (q : Fin 4) : Plain (some (constellationIndex q 1)) := by
  rintro nearest ⟨⟩
  revert q
  decide

theorem scramble_frame (t : Tx) (bit : Bool) : (scramble t bit).1.training = t.training := rfl

theorem getScrambledBit_frame (getBit : σ → Option Bool × σ) (t : Tx) (u : σ) :
    (getScrambledBit getBit t u).1.training = t.training := by
  unfold getScrambledBit
  split
  · rfl
  · split <;> rfl

theorem getbaud_normal (getBit : σ → Option Bool × σ) {s : V22bisState} (u : σ)
    (h : s.tx.training = .normalOperation) :
    ∃ sym t u', getbaud getBit s u = (sym, { s with tx := t }, [], u') ∧
      t.training = .normalOperation ∧ (s.negotiatedBitRate = 1200 → Plain sym) := by
  unfold getbaud
  rw [if_neg (by simpa using h)]
  extract_lets t t'
  have ht : t'.training = .normalOperation := by
    simp only [t', t]
    split <;> exact h
  by_cases hoff : t'.shutdown > 10
  · exact ⟨_, _, _, by rw [if_pos hoff], ht, fun _ => plain_none⟩
  · rw [if_neg hoff]
    by_cases hneg : s.negotiatedBitRate = 1200
    · refine ⟨_, _, _, by simp only [if_pos hneg]; rfl, ?_, fun _ => plain_quadrant _⟩
      simpa [advance, getScrambledBit_frame] using ht
    · refine ⟨_, _, _, by simp only [if_neg hneg]; rfl, ?_, fun hc => absurd hc hneg⟩
      simpa [advance, getScrambledBit_frame] using ht

theorem getbaud_training (getBit : σ → Option Bool × σ) {s : V22bisState} (u : σ)
    (h : s.tx.training ≠ .normalOperation) :
    getbaud getBit s u =
      ((trainingGet s).1, (trainingGet s).2.1, (trainingGet s).2.2, u) := by
  unfold getbaud
  rw [if_pos h]

theorem trainingGet_frame (s : V22bisState) :
    (trainingGet s).2.1.rx = s.rx ∧ (trainingGet s).2.1.bitRate = s.bitRate ∧
      (trainingGet s).2.1.negotiatedBitRate = s.negotiatedBitRate := by
  unfold trainingGet
  cases s.tx.training <;> simp [sendS11]

theorem getbaud_frame (getBit : σ → Option Bool × σ) (s : V22bisState) (u : σ) :
    (getbaud getBit s u).2.1.rx = s.rx ∧ (getbaud getBit s u).2.1.bitRate = s.bitRate ∧
      (getbaud getBit s u).2.1.negotiatedBitRate = s.negotiatedBitRate := by
  by_cases h : s.tx.training = .normalOperation
  · obtain ⟨sym, t, u', heq, -, -⟩ := getbaud_normal getBit u h
    simp [heq]
  · rw [getbaud_training getBit u h]
    exact trainingGet_frame s

theorem trainingGet_callingParty (s : V22bisState) :
    (trainingGet s).2.1.callingParty = s.callingParty := by
  unfold trainingGet
  cases s.tx.training <;> rfl

theorem getbaud_callingParty (getBit : σ → Option Bool × σ) (s : V22bisState) (u : σ) :
    (getbaud getBit s u).2.1.callingParty = s.callingParty := by
  rcases eq_or_ne s.tx.training .normalOperation with hn | hn
  · obtain ⟨sym, t, u', heq, -⟩ := getbaud_normal getBit u hn
    rw [heq]
  · rw [getbaud_training getBit u hn]
    exact trainingGet_callingParty s

def Pulls (getBit : σ → Option Bool × σ) : σ → σ → Prop :=
  Relation.ReflTransGen fun u v => v = (getBit u).2

theorem getScrambledBit_pulls (getBit : σ → Option Bool × σ) (t : Tx) (u : σ) :
    Pulls getBit u (getScrambledBit getBit t u).2.2 := by
  unfold getScrambledBit
  split
  · exact .refl
  · split
    · rename_i heq
      exact .single (by rw [heq])
    · rename_i heq
      exact .single (by rw [heq])

theorem getbaud_pulls (getBit : σ → Option Bool × σ) (s : V22bisState) (u : σ) :
    Pulls getBit u (getbaud getBit s u).2.2.2 := by
  unfold getbaud
  split
  · exact .refl
  · extract_lets t t'
    split
    · exact .refl
    · have hi := getScrambledBit_pulls getBit t' u
      simp only
      split
      · exact hi.trans (getScrambledBit_pulls ..)
      · exact ((hi.trans (getScrambledBit_pulls ..)).trans (getScrambledBit_pulls ..)).trans
          (getScrambledBit_pulls ..)

end Softmodem.V22bis

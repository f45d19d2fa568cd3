import Softmodem.Lib.Strict
import Softmodem.V22bis.Sampling

namespace Softmodem.V22bis

def idleBit (u : Unit) : Option Bool × Unit := (some true, u)

def retrain : RxOut := .status .retrainOccurred

inductive ModemOp where
  | tx
  | rx (o : RxObservation)

structure ModemRun where
  modem : V22bisState
  retrained : Bool

def modemOp (m : ModemRun) : ModemOp → ModemRun
  | .tx => { m with modem := (v22bisTxSample idleBit m.modem ()).1 }
  | .rx o =>
      { modem := (v22bisRxSample m.modem o).1
        retrained := m.retrained || decide (retrain ∈ (v22bisRxSample m.modem o).2) }

def chunkOps (len : Nat) (rx : Nat → RxObservation) : List ModemOp :=
  List.replicate len .tx ++ (List.range len).map fun k => .rx (rx k)

instance : Strict ModemRun :=
  .ofFields (fun ⟨a, b⟩ => (a, b)) (fun (a, b) => ⟨a, b⟩) (fun _ => rfl)

section Idle

variable {σ : Type*} {getBit : σ → Option Bool × σ} {u : σ}

theorem getScrambledBit_idle (h : getBit u = (some true, u)) (t : Tx) :
    getScrambledBit getBit t u =
      ((getScrambledBit idleBit t ()).1, (getScrambledBit idleBit t ()).2.1, u) := by
  unfold getScrambledBit
  cases t.currentGetBit with
  | fakeGetBit => rfl
  | getBit => simp only [h, idleBit]

theorem getbaud_idle (h : getBit u = (some true, u)) (s : V22bisState) :
    getbaud getBit s u = ((getbaud idleBit s ()).1, (getbaud idleBit s ()).2.1,
      (getbaud idleBit s ()).2.2.1, u) := by
  unfold getbaud
  simp only [getScrambledBit_idle h]
  split_ifs <;> rfl

theorem v22bisTxSample_idle (h : getBit u = (some true, u)) (s : V22bisState) :
    v22bisTxSample getBit s u =
      ((v22bisTxSample idleBit s ()).1, (v22bisTxSample idleBit s ()).2.1, u) := by
  unfold v22bisTxSample
  simp only [getbaud_idle h]
  split_ifs <;> rfl

theorem v22bisTxSamples_idle (h : getBit u = (some true, u)) (len : Nat) (m : ModemRun) :
    (v22bisTxSamples getBit len m.modem u).1 =
        (Transition.run modemOp m (List.replicate len .tx)).modem ∧
      (Transition.run modemOp m (List.replicate len .tx)).retrained = m.retrained ∧
      (v22bisTxSamples getBit len m.modem u).2.2 = u := by
  induction len generalizing m with
  | zero => exact ⟨rfl, rfl, rfl⟩
  | succ len ih =>
      simp only [v22bisTxSamples, v22bisTxSample_idle h, List.replicate_succ, Transition.run_cons]
      exact ih (modemOp m .tx)

end Idle

theorem idleBit_endless (u : Unit) : (idleBit u).1.isSome = true := rfl

theorem modemOp_shutdown {m : ModemRun} (op : ModemOp) (h : m.modem.tx.shutdown = 0) :
    (modemOp m op).modem.tx.shutdown = 0 := by
  cases op with
  | tx =>
      simp only [modemOp, v22bisTxSample]
      split
      · exact getbaud_shutdown idleBit_endless () h
      · exact h
  | rx o => exact (v22bisRxSample_shutdown m.modem o).trans h

theorem v22bisTx_idle {σ : Type*} {getBit : σ → Option Bool × σ} {u : σ}
    (h : getBit u = (some true, u)) {m : ModemRun} (hshut : m.modem.tx.shutdown = 0) (len : Nat) :
    (v22bisTx getBit len m.modem u).2.1 =
        (Transition.run modemOp m (List.replicate len .tx)).modem ∧
      (Transition.run modemOp m (List.replicate len .tx)).retrained = m.retrained ∧
      (v22bisTx getBit len m.modem u).2.2.2 = u := by
  rw [v22bisTx, if_neg (by omega)]
  exact v22bisTxSamples_idle h len m

end Softmodem.V22bis

import Mathlib.Logic.Relation
import Softmodem.Call.State

namespace Softmodem.Call

open AudioSocket Serial V22bis

inductive WriteResult where
  | took (n : Nat)
  | eintr
  | eagain
  | error
  deriving DecidableEq, Repr

structure PumpEnv where
  spawned : Bool
  writes : List WriteResult
  read : Option (List UInt8)
  deriving DecidableEq, Repr

def acceptWrite (c : SmCall) (w : Nat) : SmCall :=
  { c with
    ppyOut := c.ppyOut.drop w
    history := { c.history with written := c.history.written ++ c.ppyOut.take w } }

def pppFlush (c : SmCall) : List WriteResult → SmCall
  | [] => c
  | w :: writes =>
      if c.ppyOut.length > 0 ∧ c.pppFd then
        match w with
        | .eintr => pppFlush c writes
        | .eagain => c
        | .error => c
        | .took n => pppFlush (acceptWrite c (max n 1)) writes
      else c

def startPppd (c : SmCall) (spawned : Bool) : SmCall × Int :=
  if spawned then ({ c with pppFd := true, pppdPid := true, pppStarted := true }, 0)
  else ({ c with pppdPid := false }, -1)

def pushByte (c : SmCall) (byte : UInt8) : SmCall × Int :=
  let (q, r) := smBitqPushByte c.txbits byte
  ({ c with
      txbits := q
      history :=
        { c.history with
          framed := if r = 0 then c.history.framed ++ [byte] else c.history.framed } }, r)

def pushEcho (c : SmCall) (bytes : List UInt8) : SmCall :=
  bytes.foldl (fun c byte => (pushByte c byte).1) c

def pushRead (c : SmCall) : List UInt8 → SmCall × Nat
  | [] => (c, 0)
  | byte :: bytes =>
      match pushByte c byte with
      | (c, r) =>
          if r < 0 then (c, 0)
          else
            let (c, i) := pushRead c bytes
            (c, i + 1)

def takeBytes (c : SmCall) : SmCall × List UInt8 :=
  let taken := smDeframerTake c.deframer 256
  ({ c with
      deframer := taken.1
      history :=
        { c.history with
          taken := c.history.taken ++ taken.2.1
          periodTaken := c.history.periodTaken ++ taken.2.1 } }, taken.2.1)

def stageBytes (c : SmCall) (bytes : List UInt8) : SmCall :=
  let space := ppyOutSize - c.ppyOut.length
  { c with
    ppyOut := c.ppyOut ++ bytes.take space
    history :=
      { c.history with stagingFull := c.history.stagingFull || decide (space < bytes.length) } }

def needsPppd (c : SmCall) : Prop :=
  c.phase = .data ∧ c.cfg.echoData = false ∧ c.cfg.enablePpp = true ∧ c.pppStarted = false

instance (c : SmCall) : Decidable (needsPppd c) :=
  inferInstanceAs (Decidable (_ ∧ _ ∧ _ ∧ _))

def noteRead (c : SmCall) (bytes : List UInt8) : SmCall :=
  { c with history := { c.history with pppRead := c.history.pppRead ++ bytes } }

def countTx (c : SmCall) (n : Nat) : SmCall := { c with dataBytesTx := c.dataBytesTx + n }

def countRx (c : SmCall) (n : Nat) : SmCall := { c with dataBytesRx := c.dataBytesRx + n }

def pumpTransmit (c : SmCall) (e : PumpEnv) : SmCall :=
  if c.pppFd then
    match e.read with
    | none => c
    | some bytes =>
        let got := bytes.take 256
        if got = [] then { c with pppFd := false }
        else
          let (c, i) := pushRead (noteRead c got) got
          countTx c i
  else c

def pumpReceive (c : SmCall) (e : PumpEnv) : SmCall :=
  let (c, bytes) := takeBytes c
  if bytes ≠ [] ∧ c.cfg.echoData then
    countRx (countTx (pushEcho c bytes) bytes.length) bytes.length
  else
    let c := countRx (stageBytes c bytes) bytes.length
    pumpTransmit (pppFlush c e.writes) e

def ensurePppd (c : SmCall) (e : PumpEnv) : SmCall × Int :=
  if needsPppd c then startPppd c e.spawned else (c, 0)

def pumpBytes (c : SmCall) (e : PumpEnv) : SmCall :=
  if c.phase = .data then pumpReceive c e else pumpTransmit c e

def pumpPpp (c : SmCall) (e : PumpEnv) : SmCall :=
  if c.phase ≠ .data ∧ c.pppFd = false ∧ c.cfg.echoData = false then c
  else
    match ensurePppd c e with
    | (c, r) => if r < 0 then { c with phase := .hangup } else pumpBytes c e

def PppFdOpen (c : SmCall) (e : PumpEnv) : Prop :=
  if needsPppd c then e.spawned = true else c.pppFd = true

instance (c : SmCall) (e : PumpEnv) : Decidable (PppFdOpen c e) := by
  unfold PppFdOpen
  infer_instance

theorem needsPppd_active {c : SmCall} (h : needsPppd c) :
    ¬ (c.phase ≠ .data ∧ c.pppFd = false ∧ c.cfg.echoData = false) :=
  fun hidle => hidle.1 h.1

theorem pumpPpp_spawned {c : SmCall} {e : PumpEnv} (h : needsPppd c) (hspawned : e.spawned = true) :
    pumpPpp c e = pumpBytes (startPppd c true).1 e := by
  rw [pumpPpp, if_neg (needsPppd_active h), ensurePppd, if_pos h, hspawned]
  rfl

theorem pumpPpp_unspawned {c : SmCall} {e : PumpEnv} (h : needsPppd c)
    (hspawned : e.spawned = false) : pumpPpp c e = { c with pppdPid := false, phase := .hangup } := by
  rw [pumpPpp, if_neg (needsPppd_active h), ensurePppd, if_pos h, hspawned]
  rfl

theorem pumpPpp_running {c : SmCall} (e : PumpEnv) (h : ¬ needsPppd c)
    (hactive : ¬ (c.phase ≠ .data ∧ c.pppFd = false ∧ c.cfg.echoData = false)) :
    pumpPpp c e = pumpBytes c e := by
  rw [pumpPpp, if_neg hactive, ensurePppd, if_neg h]
  rfl

structure PumpFrame (c c' : SmCall) : Prop where
  cfg : c'.cfg = c.cfg
  as : c'.as = c.as
  mode : c'.mode = c.mode
  modem : c'.modem = c.modem
  bm : c'.bm = c.bm
  v8 : c'.v8 = c.v8
  v8Done : c'.v8Done = c.v8Done
  rxGuard : c'.rxGuard = c.rxGuard
  phase : c'.phase = c.phase
  audioCalls : c'.history.audioCalls = c.history.audioCalls
  popped : c'.history.popped = c.history.popped
  completed : c'.history.completed = c.history.completed
  periodCompleted : c'.history.periodCompleted = c.history.periodCompleted
  deframerFull : c'.history.deframerFull = c.history.deframerFull
  deframerOverflowed : c'.history.deframerOverflowed = c.history.deframerOverflowed
  carrierLostInData : c'.history.carrierLostInData = c.history.carrierLostInData

theorem PumpFrame.refl (c : SmCall) : PumpFrame c c :=
  ⟨rfl, rfl, rfl, rfl, rfl, rfl, rfl, rfl, rfl, rfl, rfl, rfl, rfl, rfl, rfl, rfl⟩

theorem PumpFrame.trans {a b c : SmCall} (h : PumpFrame a b) (h' : PumpFrame b c) :
    PumpFrame a c :=
  ⟨h'.cfg.trans h.cfg, h'.as.trans h.as, h'.mode.trans h.mode, h'.modem.trans h.modem,
    h'.bm.trans h.bm, h'.v8.trans h.v8, h'.v8Done.trans h.v8Done, h'.rxGuard.trans h.rxGuard,
    h'.phase.trans h.phase,
    h'.audioCalls.trans h.audioCalls, h'.popped.trans h.popped, h'.completed.trans h.completed,
    h'.periodCompleted.trans h.periodCompleted, h'.deframerFull.trans h.deframerFull,
    h'.deframerOverflowed.trans h.deframerOverflowed,
    h'.carrierLostInData.trans h.carrierLostInData⟩

inductive PumpMove : SmCall → SmCall → Prop where
  | start (c : SmCall) (spawned : Bool) : PumpMove c (startPppd c spawned).1
  | accept (c : SmCall) (w : Nat) : PumpMove c (acceptWrite c w)
  | push (c : SmCall) (byte : UInt8) : PumpMove c (pushByte c byte).1
  | read (c : SmCall) (bytes : List UInt8) : PumpMove c (noteRead c bytes)
  | closed (c : SmCall) : PumpMove c { c with pppFd := false }
  | stage (c : SmCall) (bytes : List UInt8) : PumpMove c (stageBytes c bytes)
  | countTx (c : SmCall) (k : Nat) : PumpMove c (countTx c k)
  | countRx (c : SmCall) (k : Nat) : PumpMove c (countRx c k)

def PumpMoves : SmCall → SmCall → Prop := Relation.ReflTransGen PumpMove

inductive Pumped (c : SmCall) : SmCall → Prop where
  | moved {c' : SmCall} (hphase : c.phase ≠ .data) (h : PumpMoves c c') : Pumped c c'
  | took {d c' : SmCall} (hphase : c.phase = .data) (h : PumpMoves c d)
      (h' : PumpMoves (takeBytes d).1 c') : Pumped c c'

theorem PumpMoves.invariant {P : SmCall → Prop} (hmove : ∀ c c', PumpMove c c' → P c → P c')
    {c c' : SmCall} (h : PumpMoves c c') (hc : P c) : P c' := by
  induction h with
  | refl => exact hc
  | tail _ hlast ih => exact hmove _ _ hlast ih

theorem Pumped.invariant {P : SmCall → Prop} (hmove : ∀ c c', PumpMove c c' → P c → P c')
    (htake : ∀ c, P c → P (takeBytes c).1) {c c' : SmCall} (h : Pumped c c') (hc : P c) : P c' := by
  cases h with
  | moved _ h => exact h.invariant hmove hc
  | took _ h h' => exact h'.invariant hmove (htake _ (h.invariant hmove hc))

theorem pppFlush_moves (c : SmCall) (writes : List WriteResult) :
    PumpMoves c (pppFlush c writes) := by
  induction writes generalizing c with
  | nil => exact .refl
  | cons w writes ih =>
      unfold pppFlush
      split
      · cases w with
        | eintr => exact ih c
        | eagain => exact .refl
        | error => exact .refl
        | took n => exact .head (.accept c (max n 1)) (ih _)
      · exact .refl

theorem pushEcho_moves (c : SmCall) (bytes : List UInt8) : PumpMoves c (pushEcho c bytes) := by
  induction bytes generalizing c with
  | nil => exact .refl
  | cons byte bytes ih => exact .head (.push c byte) (ih _)

theorem pushRead_moves (c : SmCall) (bytes : List UInt8) : PumpMoves c (pushRead c bytes).1 := by
  induction bytes generalizing c with
  | nil => exact .refl
  | cons byte bytes ih =>
      simp only [pushRead]
      split
      · exact .single (.push c byte)
      · exact .head (.push c byte) (ih _)

theorem pumpTransmit_moves (c : SmCall) (e : PumpEnv) : PumpMoves c (pumpTransmit c e) := by
  unfold pumpTransmit
  split
  · cases e.read with
    | none => exact .refl
    | some bytes =>
        simp only
        split
        · exact .single (.closed c)
        · have hpushed := pushRead_moves (noteRead c (bytes.take 256)) (bytes.take 256)
          exact .tail (.head (.read c (bytes.take 256)) hpushed) (.countTx _ _)
  · exact .refl

theorem pumpReceive_moves (c : SmCall) (e : PumpEnv) :
    PumpMoves (takeBytes c).1 (pumpReceive c e) := by
  rcases htaken : takeBytes c with ⟨d, bytes⟩
  simp only [pumpReceive, htaken]
  split
  · have hecho := pushEcho_moves d bytes
    exact .tail (.tail hecho (.countTx _ bytes.length)) (.countRx _ bytes.length)
  · have hstaged : PumpMoves d (stageBytes d bytes) := .single (.stage d bytes)
    have hcounted := hstaged.tail (.countRx _ bytes.length)
    exact (hcounted.trans (pppFlush_moves _ e.writes)).trans (pumpTransmit_moves _ e)

theorem pumpBytes_pumped (c : SmCall) (e : PumpEnv) : Pumped c (pumpBytes c e) := by
  unfold pumpBytes
  split
  · exact .took ‹_› .refl (pumpReceive_moves c e)
  · exact .moved ‹_› (pumpTransmit_moves c e)

theorem startPppd_pumped {c d : SmCall} (hphase : c.phase = .data)
    (h : Pumped (startPppd c true).1 d) : Pumped c d := by
  cases h with
  | moved hidle h => exact absurd hphase hidle
  | took _ h h' => exact .took hphase (.head (.start c true) h) h'

theorem pumpPpp_pumped {c : SmCall} {e : PumpEnv} (h : needsPppd c → e.spawned = true) :
    Pumped c (pumpPpp c e) := by
  by_cases hneeds : needsPppd c
  · rw [pumpPpp_spawned hneeds (h hneeds)]
    exact startPppd_pumped hneeds.1 (pumpBytes_pumped _ e)
  · by_cases hidle : c.phase ≠ .data ∧ c.pppFd = false ∧ c.cfg.echoData = false
    · rw [pumpPpp, if_pos hidle]
      exact .moved hidle.1 .refl
    · rw [pumpPpp_running e hneeds hidle]
      exact pumpBytes_pumped c e

theorem takeBytes_frame (c : SmCall) : PumpFrame c (takeBytes c).1 := by
  unfold takeBytes
  generalize smDeframerTake c.deframer 256 = taken
  exact ⟨rfl, rfl, rfl, rfl, rfl, rfl, rfl, rfl, rfl, rfl, rfl, rfl, rfl, rfl, rfl, rfl⟩

theorem PumpMove.frame {c c' : SmCall} (h : PumpMove c c') : PumpFrame c c' := by
  cases h with
  | start spawned =>
      unfold startPppd
      split <;> exact ⟨rfl, rfl, rfl, rfl, rfl, rfl, rfl, rfl, rfl, rfl, rfl, rfl, rfl, rfl, rfl, rfl⟩
  | _ => exact ⟨rfl, rfl, rfl, rfl, rfl, rfl, rfl, rfl, rfl, rfl, rfl, rfl, rfl, rfl, rfl, rfl⟩

theorem pumpPpp_frame {c : SmCall} {e : PumpEnv} (h : needsPppd c → e.spawned = true) :
    PumpFrame c (pumpPpp c e) :=
  (pumpPpp_pumped h).invariant (fun _ _ hmove hc => hc.trans hmove.frame)
    (fun d hd => hd.trans (takeBytes_frame d)) (.refl c)

theorem pumpPpp_outcome (c : SmCall) (e : PumpEnv) :
    Pumped c (pumpPpp c e) ∧ ¬ (needsPppd c ∧ e.spawned = false) ∨
      (needsPppd c ∧ e.spawned = false) ∧
        pumpPpp c e = { c with pppdPid := false, phase := .hangup } := by
  by_cases hfails : needsPppd c ∧ e.spawned = false
  · exact .inr ⟨hfails, pumpPpp_unspawned hfails.1 hfails.2⟩
  · refine .inl ⟨pumpPpp_pumped ?_, hfails⟩
    intro hneeds
    simpa [hneeds] using hfails

theorem pumpPpp_cases (c : SmCall) (e : PumpEnv) :
    PumpFrame c (pumpPpp c e) ∨ pumpPpp c e = { c with pppdPid := false, phase := .hangup } := by
  rcases pumpPpp_outcome c e with ⟨hpumped, hspawned⟩ | ⟨-, hfailed⟩
  · refine .inl (pumpPpp_frame ?_)
    intro hneeds
    simpa [hneeds] using hspawned
  · exact .inr hfailed

def staged (c : SmCall) : SmCall :=
  let (c, bytes) := takeBytes c
  countRx (stageBytes c bytes) bytes.length

def relay (c : SmCall) (writes : List WriteResult) : SmCall := pppFlush (staged c) writes

theorem pumpReceive_relay {c : SmCall} (e : PumpEnv) (hecho : c.cfg.echoData = false) :
    pumpReceive c e = pumpTransmit (relay c e.writes) e := by
  have htake := (takeBytes_frame c).cfg
  rcases htaken : takeBytes c with ⟨d, bytes⟩
  simp only [htaken] at htake
  have hstage : ¬ (bytes ≠ [] ∧ d.cfg.echoData = true) := by simp [htake, hecho]
  simp only [pumpReceive, relay, staged, htaken]
  rw [if_neg hstage]

theorem pushRead_pppFd (c : SmCall) (bytes : List UInt8) :
    (pushRead c bytes).1.pppFd = c.pppFd := by
  induction bytes generalizing c with
  | nil => rfl
  | cons byte bytes ih =>
      simp only [pushRead]
      split
      · rfl
      · exact ih _

theorem pumpTransmit_pppFd {c : SmCall} {e : PumpEnv} (h : e.read ≠ some []) :
    (pumpTransmit c e).pppFd = c.pppFd := by
  unfold pumpTransmit
  split
  · rcases hread : e.read with _ | bytes
    · rfl
    · have hne : bytes.take 256 ≠ [] := by
        simpa [hread, List.take_eq_nil_iff] using h
      simp only [if_neg hne]
      exact pushRead_pppFd _ _
  · rfl

structure RelayFrame (c c' : SmCall) : Prop where
  cfg : c'.cfg = c.cfg
  txbits : c'.txbits = c.txbits
  pppFd : c'.pppFd = c.pppFd
  popped : c'.history.popped = c.history.popped
  pppRead : c'.history.pppRead = c.history.pppRead
  framed : c'.history.framed = c.history.framed

theorem RelayFrame.trans {a b c : SmCall} (h : RelayFrame a b) (h' : RelayFrame b c) :
    RelayFrame a c :=
  ⟨h'.cfg.trans h.cfg, h'.txbits.trans h.txbits, h'.pppFd.trans h.pppFd,
    h'.popped.trans h.popped, h'.pppRead.trans h.pppRead, h'.framed.trans h.framed⟩

theorem pppFlush_relayFrame (c : SmCall) (writes : List WriteResult) :
    RelayFrame c (pppFlush c writes) := by
  induction writes generalizing c with
  | nil => exact ⟨rfl, rfl, rfl, rfl, rfl, rfl⟩
  | cons w writes ih =>
      unfold pppFlush
      split
      · cases w with
        | eintr => exact ih c
        | eagain => exact ⟨rfl, rfl, rfl, rfl, rfl, rfl⟩
        | error => exact ⟨rfl, rfl, rfl, rfl, rfl, rfl⟩
        | took n =>
            have haccept : RelayFrame c (acceptWrite c (max n 1)) := ⟨rfl, rfl, rfl, rfl, rfl, rfl⟩
            exact haccept.trans (ih _)
      · exact ⟨rfl, rfl, rfl, rfl, rfl, rfl⟩

theorem relay_frame (c : SmCall) (writes : List WriteResult) : RelayFrame c (relay c writes) := by
  unfold relay staged takeBytes
  generalize smDeframerTake c.deframer 256 = taken
  refine RelayFrame.trans ?_ (pppFlush_relayFrame _ writes)
  exact ⟨rfl, rfl, rfl, rfl, rfl, rfl⟩

end Softmodem.Call

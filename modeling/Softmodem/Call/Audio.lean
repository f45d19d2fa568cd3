import Softmodem.Call.State

namespace Softmodem.Call

open AudioSocket Serial V22bis

inductive BmStatus where
  | running
  | connected
  | failed
  | agreedV22
  | agreedOther
  | retraining
  deriving DecidableEq, Repr

structure BmObservation where
  status : BmStatus
  rateRx : Nat
  carrier : Bool
  deriving DecidableEq, Repr

inductive EngineEvent where
  | getBit
  | putBit (bit : Option Bool) (v34Rate : Nat)
  deriving DecidableEq, Repr

structure V8Report where
  status : Nat
  modulations : Nat
  deriving DecidableEq, Repr

structure AudioEnv where
  bm : BmObservation
  engine : List EngineEvent
  v8Sent : Nat
  v8Reports : List V8Report
  v34Created : Bool
  rx : Nat → RxObservation

def touch (c : SmCall) (buffer : AudioBuffer) (start length : Nat) : SmCall :=
  { c with history := { c.history with spans := c.history.spans ++ [⟨buffer, start, length⟩] } }

def sound (c : SmCall) (start length : Nat) (sample : Nat → Pcm) : SmCall :=
  { touch c .txbuf start length with
    txbuf := fun k =>
      if start ≤ k ∧ k < start + length then sample (k - start) else c.txbuf k }

def soundFrom (c : SmCall) (start length : Nat) (sample : Nat → Pcm) : SmCall :=
  let c := sound c start length fun k => sample (c.history.sounded + k)
  { c with history := { c.history with sounded := c.history.sounded + length } }

def engineEvent (c : SmCall) : EngineEvent → SmCall
  | .getBit => (callGetBit c).2
  | .putBit bit v34Rate => callPutBit c bit v34Rate

def engineEvents (c : SmCall) (events : List EngineEvent) : SmCall := events.foldl engineEvent c

def rxOut (c : SmCall) : RxOut → SmCall
  | .status st => callStatus c st
  | .bit b => callPutBit c (some b) 0

def receiveSample (c : SmCall) (o : RxObservation) : SmCall :=
  { c with
    modem := (v22bisRxSample c.modem o).1
    history :=
      { c.history with
        carrierLostInData := c.history.carrierLostInData ||
          (decide (c.phase = .data) && decide (CarrierLost c.modem o)) } }

def modemRxSample (c : SmCall) (o : RxObservation) : SmCall :=
  (v22bisRxSample c.modem o).2.foldl rxOut (receiveSample c o)

def modemRx (c : SmCall) (start len : Nat) (rx : Nat → RxObservation) : SmCall :=
  (List.range len).foldl (fun c k => modemRxSample c (rx (start + k))) c

def modemTx (c : SmCall) (start len : Nat) : SmCall :=
  let (sent, s, statuses, c) := v22bisTx callGetBit len c.modem c
  statuses.foldl callStatus (soundFrom { c with modem := s } start sent .v22)

def bmConnect (c : SmCall) (rate : Nat) : SmCall :=
  if c.phase ≠ .data then enterData { c with deframer := smDeframerInit } rate
  else { c with negotiatedRate := rate }

def bmWatchCarrier (c : SmCall) (n : Nat) (carrier : Bool) : SmCall :=
  if carrier then { c with bmNocarrier := 0 }
  else if c.bmNocarrier + n ≥ smSampleRate / 2 then
    { c with bmNocarrier := c.bmNocarrier + n, phase := .hangup }
  else { c with bmNocarrier := c.bmNocarrier + n }

def bmHandBack (c : SmCall) : SmCall :=
  { c with
    mode := .v22
    modem := v22bisRxRestart c.modem
    rxGuard := smSampleRate * 500 / 1000
    phase := .handshake
    bm := false }

def bmPoll (c : SmCall) (n : Nat) (o : BmObservation) : SmCall :=
  match o.status with
  | .running => c
  | .failed => { c with phase := .hangup }
  | .agreedV22 => bmHandBack c
  | .agreedOther => bmHandBack c
  | .retraining =>
      if c.phase = .data then
        { c with deframer := smDeframerInit, phase := .handshake, bmNocarrier := 0 }
      else c
  | .connected => bmWatchCarrier (bmConnect c o.rateRx) n o.carrier

def v8Reports (c : SmCall) (reports : List V8Report) : SmCall :=
  reports.foldl (fun c r => callV8Result c r.status r.modulations) c

def v8Chunk (c : SmCall) (i m : Nat) (e : AudioEnv) : SmCall :=
  if c.v8 then
    let got := min e.v8Sent m
    let c := soundFrom c i got .v8
    let c := sound c (i + got) (m - got) fun _ => .silence
    touch (v8Reports c e.v8Reports) .input i m
  else sound c i m fun _ => .silence

def toneOutput (c : SmCall) (i : Nat) : SmCall :=
  if c.silenceSamplesLeft > 0 then
    { sound c i 1 (fun _ => .silence) with silenceSamplesLeft := c.silenceSamplesLeft - 1 }
  else if c.toneSamplesLeft > 0 then
    { sound c i 1 (fun _ => .tone c.tonePhase) with
      tonePhase := c.tonePhase + 1
      toneSamplesLeft := c.toneSamplesLeft - 1 }
  else c

def toneSample (c : SmCall) (i : Nat) : SmCall :=
  let c := toneOutput c i
  if c.silenceSamplesLeft ≤ 0 ∧ c.toneSamplesLeft ≤ 0 then { c with phase := .handshake } else c

def guardChunk (c : SmCall) (i m : Nat) (e : AudioEnv) : SmCall × Nat :=
  let skip := min m c.rxGuard
  if c.rxGuard > 0 then
    let c := modemTx c i skip
    let c := touch c .rxsquelch 0 skip
    let c := modemRx c i skip e.rx
    ({ c with rxGuard := c.rxGuard - skip }, skip)
  else (c, 0)

def engineChunk (c : SmCall) (i m : Nat) (e : AudioEnv) : SmCall :=
  if m = 0 then c
  else if c.mode = .v34 then
    let c := soundFrom c i m .v34
    let c := touch c .input i m
    engineEvents c e.engine
  else
    let c := modemTx c i m
    let c := touch c .input i m
    modemRx c i m e.rx

def audioLoop (n : Nat) (e : AudioEnv) : Nat → SmCall → SmCall
  | 0, c => c
  | left + 1, c =>
      let i := n - (left + 1)
      match c.phase with
      | .v8 => v8Chunk c i (left + 1) e
      | .answerTone => audioLoop n e left (toneSample c i)
      | _ =>
          let (c, skip) := guardChunk c i (left + 1) e
          engineChunk c (i + skip) (left + 1 - skip) e

def startV34 (c : SmCall) : SmCall :=
  { c with
    v34 := true
    mode := .v34
    v34BaudRate := if c.cfg.v34Baud ≠ 0 then c.cfg.v34Baud else 2400
    phase := .handshake }

def startV22 (c : SmCall) : SmCall :=
  { c with
    mode := .v22
    modem := v22bisRxRestart c.modem
    rxGuard := smSampleRate * 500 / 1000
    phase := .handshake }

def v8Transition (c : SmCall) (e : AudioEnv) : SmCall :=
  if c.phase = .v8 ∧ c.v8Done then
    if c.v8Ok = 2 then
      if e.v34Created then startV34 c else startV22 { c with v8Ok := 1 }
    else if c.cfg.useV34 ∧ c.v8Ok = 0 then
      if e.v34Created then startV34 c else c
    else startV22 c
  else c

def dataModeDetection (c : SmCall) : SmCall :=
  if c.mode = .v22 ∧ c.phase = .handshake ∧ c.bm = false ∧
      c.modem.tx.training = .normalOperation ∧ c.modem.rx.training = .normalOperation then
    enterData { c with deframer := smDeframerInit } c.modem.negotiatedBitRate
  else c

def inputSample (payload : List UInt8) (k : Nat) : UInt8 × UInt8 :=
  (payload.getD (2 * k) 0, payload.getD (2 * k + 1) 0)

def captureChunk (c : SmCall) (payload : List UInt8) (n : Nat) : SmCall :=
  if (c.capIn.isSome ∨ c.capOut.isSome) ∧ c.capCount < 120 * smSampleRate then
    let c := if c.capIn.isSome then touch c .input 0 n else c
    let c := if c.capOut.isSome then touch c .txbuf 0 n else c
    { c with
      capIn := c.capIn.map (· ++ (List.range n).map (inputSample payload))
      capOut := c.capOut.map (· ++ (List.range n).map c.txbuf)
      capCount := c.capCount + n }
  else c

def bmChunk (c : SmCall) (n : Nat) (e : AudioEnv) : SmCall :=
  let c := engineEvents c e.engine
  let c := touch c .input 0 n
  soundFrom c 0 n .bm

def audioStart (c : SmCall) : SmCall := { c with history := { c.history with spans := [] } }

def audioEnd (c : SmCall) (payload : List UInt8) (n : Nat) : SmCall :=
  { c with
    samplesIn := c.samplesIn + n
    samplesOut := c.samplesOut + n
    history :=
      { c.history with
        audioCalls := c.history.audioCalls ++ [⟨n, payload.length, c.history.spans⟩] } }

def pollEngine (c : SmCall) (n : Nat) (e : AudioEnv) : SmCall :=
  if c.bm then bmPoll c n e.bm else c

def runEngine (c : SmCall) (n : Nat) (e : AudioEnv) : SmCall :=
  if c.bm then bmChunk c n e else audioLoop n e n c

def processAudio (c : SmCall) (payload : List UInt8) (n : Nat) (e : AudioEnv) : SmCall :=
  let c := captureChunk (audioStart c) payload n
  let c := runEngine (pollEngine c n e) n e
  audioEnd (dataModeDetection (v8Transition c e)) payload n

end Softmodem.Call

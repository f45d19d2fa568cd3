import Softmodem.AudioSocket.Socket
import Softmodem.Serial.Channel
import Softmodem.V22bis.Sampling

namespace Softmodem.Call

open AudioSocket Serial V22bis

def smSampleRate : Nat := 8000

def txbufSize : Nat := smAsMaxPayload / 2

def ppyOutSize : Nat := 4096

inductive SmCallMode where
  | v22
  | v34
  deriving DecidableEq, Repr

inductive SmCallPhase where
  | idle
  | answerTone
  | v8
  | handshake
  | data
  | hangup
  deriving DecidableEq, Repr

structure SmCallConfig where
  rate : Nat
  answerToneMs : Int
  preToneSilenceMs : Int
  enablePpp : Bool
  echoData : Bool
  useV8 : Bool
  useV34 : Bool
  useBinmodem : Bool
  useV90 : Bool
  v34Baud : Nat
  v34Rate : Nat
  deriving DecidableEq, Repr

inductive Pcm where
  | silence
  | tone (k : Nat)
  | v22 (k : Nat)
  | v34 (k : Nat)
  | v8 (k : Nat)
  | bm (k : Nat)
  deriving DecidableEq, Repr

inductive AudioBuffer where
  | input
  | txbuf
  | rxsquelch
  deriving DecidableEq, Repr

structure Span where
  buffer : AudioBuffer
  start : Nat
  length : Nat
  deriving DecidableEq, Repr

structure AudioCall where
  n : Nat
  stored : Nat
  spans : List Span
  deriving DecidableEq, Repr

structure CallHistory where
  audioCalls : List AudioCall
  spans : List Span
  sounded : Nat
  popped : List Bool
  pppRead : List UInt8
  framed : List UInt8
  completed : List UInt8
  taken : List UInt8
  written : List UInt8
  periodCompleted : List UInt8
  periodTaken : List UInt8
  deframerFull : Bool
  deframerOverflowed : Bool
  stagingFull : Bool
  carrierLostInData : Bool

structure SmCall where
  cfg : SmCallConfig
  as : SmAstSocket
  capIn : Option (List (UInt8 × UInt8))
  capOut : Option (List Pcm)
  capCount : Nat
  mode : SmCallMode
  modem : V22bisState
  v34 : Bool
  v34BaudRate : Nat
  bm : Bool
  bmNocarrier : Nat
  txbits : SmBitq
  deframer : SmDeframer
  toneSamplesLeft : Int
  silenceSamplesLeft : Int
  tonePhase : Nat
  pppFd : Bool
  pppdPid : Bool
  pppStarted : Bool
  v8 : Bool
  v8Done : Bool
  v8Ok : Nat
  rxGuard : Nat
  phase : SmCallPhase
  negotiatedRate : Nat
  samplesIn : Nat
  samplesOut : Nat
  dataBytesRx : Nat
  dataBytesTx : Nat
  ppyOut : List UInt8
  txbuf : Nat → Pcm
  history : CallHistory

def enterData (c : SmCall) (rate : Nat) : SmCall :=
  { c with
    phase := .data
    negotiatedRate := rate
    history :=
      { c.history with periodCompleted := [], periodTaken := [], deframerFull := false } }

def callGetBit (c : SmCall) : Option Bool × SmCall :=
  let (q, b) := Serial.callGetBit c.txbits
  (some b,
    { c with
      txbits := q
      history :=
        { c.history with
          popped := c.history.popped ++ c.txbits.contents.take 1 } })

def deliverBit (c : SmCall) (bit : Bool) : SmCall :=
  { c with
    deframer := smDeframerBit c.deframer bit
    history :=
      { c.history with
        completed := c.history.completed ++ completed c.deframer bit
        periodCompleted := c.history.periodCompleted ++ completed c.deframer bit
        deframerFull := c.history.deframerFull || decide (c.deframer.out.length ≥ smDeframerOut)
        deframerOverflowed :=
          c.history.deframerOverflowed || decide (c.deframer.out.length ≥ smDeframerOut) } }

def callPutBit (c : SmCall) (bit : Option Bool) (v34Rate : Nat) : SmCall :=
  match bit with
  | none => c
  | some bit =>
      if c.mode = .v34 then
        deliverBit (if c.phase ≠ .data then enterData c v34Rate else c) bit
      else if c.phase ≠ .data then c
      else deliverBit c bit

def callStatus (c : SmCall) (st : Status) : SmCall :=
  if st = .retrainOccurred then { c with deframer := smDeframerInit, phase := .handshake } else c

def callV8Result (c : SmCall) (status modulations : Nat) : SmCall :=
  match status with
  | 2 =>
      { c with
        v8Done := true
        v8Ok :=
          if c.cfg.useV34 ∧ modulations.testBit 11 then 2 else (modulations.testBit 2).toNat }
  | 3 => { c with v8Done := true, v8Ok := 0 }
  | 4 => { c with v8Done := true, v8Ok := 0 }
  | _ => c

structure InitResults where
  bmCreated : Bool
  v8Created : Bool
  capInOpened : Bool
  capOutOpened : Bool
  deriving DecidableEq, Repr

def callHistoryInit : CallHistory :=
  { audioCalls := [], spans := [], sounded := 0, popped := [], pppRead := [], framed := []
    completed := [], taken := [], written := [], periodCompleted := [], periodTaken := []
    deframerFull := false, deframerOverflowed := false, stagingFull := false
    carrierLostInData := false }

def smCallZero (cfg : SmCallConfig) : SmCall :=
  { cfg := cfg, as := smAstInit, capIn := none, capOut := none, capCount := 0, mode := .v22
    modem := v22bisInit false cfg.rate, v34 := false, v34BaudRate := 0, bm := false
    bmNocarrier := 0, txbits := smBitqInit, deframer := smDeframerInit, toneSamplesLeft := 0
    silenceSamplesLeft := 0, tonePhase := 0, pppFd := false, pppdPid := false
    pppStarted := false, v8 := false, v8Done := false, v8Ok := 0, rxGuard := 0, phase := .idle
    negotiatedRate := 0, samplesIn := 0, samplesOut := 0, dataBytesRx := 0, dataBytesTx := 0
    ppyOut := [], txbuf := fun _ => .silence, history := callHistoryInit }

def startAnswer (c : SmCall) : SmCall :=
  if c.cfg.answerToneMs > 0 ∨ c.cfg.preToneSilenceMs > 0 then
    { c with
      phase := .answerTone
      silenceSamplesLeft := (c.cfg.preToneSilenceMs * smSampleRate).tdiv 1000
      toneSamplesLeft := (c.cfg.answerToneMs * smSampleRate).tdiv 1000 }
  else { c with phase := .handshake }

def smCallInit (cfg : SmCallConfig) (r : InitResults) : SmCall :=
  let c := smCallZero cfg
  let c :=
    { c with
      capIn := if r.capInOpened then some [] else none
      capOut := if r.capOutOpened then some [] else none }
  if cfg.useBinmodem ∧ r.bmCreated then { c with bm := true, phase := .v8 }
  else if cfg.useV8 ∧ r.v8Created then { c with v8 := true, phase := .v8 }
  else startAnswer c

end Softmodem.Call

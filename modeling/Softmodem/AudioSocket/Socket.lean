import Softmodem.Lib.Buffer

namespace Softmodem.AudioSocket

abbrev smAsMaxPayload : Nat := 4096

def smAsKindHangup : UInt8 := 0x00
def smAsKindUuid : UInt8 := 0x01
def smAsKindDtmf : UInt8 := 0x03
def smAsKindAudio : UInt8 := 0x10
def smAsKindError : UInt8 := 0xFF

inductive RecvEvent where
  | data (n : Nat)
  | timeout
  | retry
  | fail
  deriving DecidableEq, Repr

structure Peer where
  stream : List UInt8
  events : List RecvEvent

inductive Received where
  | data (bytes : List UInt8)
  | timeout
  | fail

def recvEvents (stream : List UInt8) (want : Nat) : List RecvEvent → Received × Peer
  | [] => (.timeout, ⟨stream, []⟩)
  | .retry :: events => recvEvents stream want events
  | .timeout :: events => (.timeout, ⟨stream, events⟩)
  | .fail :: events => (.fail, ⟨stream, events⟩)
  | .data n :: events =>
      let k := min (max n 1) want
      if stream.take k = [] then (.timeout, ⟨stream, events⟩)
      else (.data (stream.take k), ⟨stream.drop k, events⟩)

def recvInto (p : Peer) (want : Nat) : Received × Peer := recvEvents p.stream want p.events

structure SmAstSocket where
  rxbuf : Fin smAsMaxPayload → UInt8
  rxlen : Nat
  rxhdr : Nat
  rxhead : Fin 3 → UInt8
  rxExpected : Nat
  rxKind : UInt8
  rxPending : Bool

def smAstInit : SmAstSocket :=
  { rxbuf := fun _ => 0, rxlen := 0, rxhdr := 0, rxhead := fun _ => 0, rxExpected := 0
    rxKind := 0, rxPending := false }

inductive Interrupt where
  | timeout
  | fail
  deriving DecidableEq, Repr

inductive SmAstRead where
  | message (kind : UInt8) (payload : List UInt8) (payloadLen : Nat)
  | interrupted (why : Interrupt)
  deriving DecidableEq, Repr

def headerLoop : Nat → SmAstSocket → Peer → Option Interrupt × SmAstSocket × Peer
  | 0, s, p => (none, s, p)
  | fuel + 1, s, p =>
      if s.rxhdr < 3 then
        match recvInto p (3 - s.rxhdr) with
        | (.data bytes, p) =>
            headerLoop fuel
              { s with
                rxhead := Buffer.blit s.rxhead s.rxhdr bytes
                rxhdr := s.rxhdr + bytes.length } p
        | (.timeout, p) => (some .timeout, s, p)
        | (.fail, p) => (some .fail, s, p)
      else (none, s, p)

def openMessage (s : SmAstSocket) : SmAstSocket :=
  { s with
    rxKind := s.rxhead 0
    rxExpected := (s.rxhead 1).toNat <<< 8 ||| (s.rxhead 2).toNat
    rxlen := 0
    rxhdr := 0
    rxPending := true }

def payloadLoop : Nat → SmAstSocket → Peer → Option Interrupt × SmAstSocket × Peer
  | 0, s, p => (none, s, p)
  | fuel + 1, s, p =>
      if s.rxlen < s.rxExpected then
        let remaining := s.rxExpected - s.rxlen
        if s.rxlen < smAsMaxPayload then
          match recvInto p (min remaining (smAsMaxPayload - s.rxlen)) with
          | (.data bytes, p) =>
              payloadLoop fuel
                { s with
                  rxbuf := Buffer.blit s.rxbuf s.rxlen bytes
                  rxlen := s.rxlen + bytes.length } p
          | (.timeout, p) => (some .timeout, s, p)
          | (.fail, p) => (some .fail, s, p)
        else
          match recvInto p (min remaining 256) with
          | (.data bytes, p) => payloadLoop fuel { s with rxlen := s.rxlen + bytes.length } p
          | (.timeout, p) => (some .timeout, s, p)
          | (.fail, p) => (some .fail, s, p)
      else (none, s, p)

def closeMessage (s : SmAstSocket) : SmAstSocket :=
  { s with rxhdr := 0, rxlen := 0, rxExpected := 0, rxPending := false }

def smAstReadPayload (s : SmAstSocket) (p : Peer) (bufLen : Nat) :
    SmAstRead × SmAstSocket × Peer :=
  match payloadLoop (s.rxExpected - s.rxlen) s p with
  | (some why, s, p) => (.interrupted why, s, p)
  | (none, s, p) =>
      (.message s.rxKind (Buffer.first s.rxbuf (min s.rxExpected bufLen)) s.rxExpected,
        closeMessage s, p)

def smAstRead (s : SmAstSocket) (p : Peer) (bufLen : Nat) : SmAstRead × SmAstSocket × Peer :=
  if s.rxPending then smAstReadPayload s p bufLen
  else
    match headerLoop (3 - s.rxhdr) s p with
    | (some why, s, p) => (.interrupted why, s, p)
    | (none, s, p) => smAstReadPayload (openMessage s) p bufLen

inductive SendEvent where
  | sent (n : Nat)
  | retry
  | fail
  deriving DecidableEq, Repr

def sendAll : List SendEvent → List UInt8 → List UInt8 × Int × List SendEvent
  | [], bytes => ([], if bytes = [] then 0 else -1, [])
  | e :: events, bytes =>
      if bytes = [] then ([], 0, e :: events)
      else
        match e with
        | .fail => ([], -1, events)
        | .retry => sendAll events bytes
        | .sent n =>
            let (rest, code, left) := sendAll events (bytes.drop n)
            (bytes.take n ++ rest, code, left)

def smAstHeader (kind : UInt8) (len : Nat) : List UInt8 :=
  [kind, (len >>> 8 &&& 0xFF).toUInt8, (len &&& 0xFF).toUInt8]

def smAstWrite (kind : UInt8) (payload : List UInt8) (events : List SendEvent) :
    List UInt8 × Int × List SendEvent :=
  if payload.length > 0xFFFF then ([], -1, events)
  else
    let (head, code, events) := sendAll events (smAstHeader kind payload.length)
    if code < 0 then (head, -1, events)
    else if payload.length > 0 then
      let (body, code, events) := sendAll events payload
      if code < 0 then (head ++ body, -1, events) else (head ++ body, 0, events)
    else (head, 0, events)

-- One call of sm_ast_write: what it was given, what it put on the connection and its result.
structure WriteCall where
  kind : UInt8
  payload : List UInt8
  bytes : List UInt8
  code : Int
  deriving DecidableEq, Repr

def writeCall (kind : UInt8) (payload : List UInt8) (events : List SendEvent) : WriteCall :=
  let (bytes, code, _) := smAstWrite kind payload events
  ⟨kind, payload, bytes, code⟩

end Softmodem.AudioSocket

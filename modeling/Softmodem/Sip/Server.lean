import Softmodem.AudioSocket.Socket
import Softmodem.Sip.Message

namespace Softmodem.Sip

open AudioSocket CString

def smSipRtpMaxpay : Nat := 1024

def smSipRxq : Nat := 32

structure SockAddr where
  addr : UInt32
  port : UInt16
  deriving DecidableEq, Repr

structure SmSipConfig where
  bindPort : Nat
  advertiseIp : Bytes
  captureDir : Bool
  deriving DecidableEq, Repr

structure Timespec where
  sec : Int
  nsec : Int
  deriving DecidableEq, Repr

structure SmSip where
  cfg : SmSipConfig
  callActive : Bool
  mediaActive : Bool
  callId : Bytes
  toHdr : Bytes
  fromHdr : Bytes
  cseq : Int
  localSsrc : UInt32
  rtpSeq : UInt16
  rtpTs : UInt32
  rtpPeer : SockAddr
  rtpPeerKnown : Bool
  rtpFd : Bool
  daemonFd : Bool
  daemonAs : SmAstSocket
  daemon : Peer
  written : List WriteCall
  rxq : Nat → List Int
  rxqHead : Nat
  rxqTail : Nat
  tickNs : Nat
  rxUnderruns : Nat
  rxDrops : Nat
  nextTick : Timespec
  lastOk : Option Response
  callsDone : Nat
  callSeq : Nat
  capRx : Bool
  capTx : Bool

def smSipCreate (cfg : SmSipConfig) : SmSip :=
  { cfg := cfg, callActive := false, mediaActive := false, callId := [], toHdr := [], fromHdr := []
    cseq := 0, localSsrc := 0, rtpSeq := 0, rtpTs := 0, rtpPeer := ⟨0, 0⟩, rtpPeerKnown := false
    rtpFd := false, daemonFd := false, daemonAs := smAstInit, daemon := ⟨[], []⟩
    written := [], rxq := fun _ => [], rxqHead := 0, rxqTail := 0, tickNs := 0
    rxUnderruns := 0, rxDrops := 0, nextTick := ⟨0, 0⟩, lastOk := none, callsDone := 0
    callSeq := 0, capRx := false, capTx := false }

inductive Descriptor where
  | rtp | daemon | capRx | capTx
  deriving DecidableEq, Repr

inductive Action where
  | response (dest : SockAddr) (r : Response)
  | bye (dest : SockAddr) (b : Bye)
  | rtp (dest : SockAddr) (bytes : Bytes)
  | opened (d : Descriptor)
  | closed (d : Descriptor)
  deriving DecidableEq, Repr

-- What the system answers during one wake-up; rand and time by the place of the call.
structure Env where
  rand : Nat → UInt32
  time : Nat → UInt32
  socketOk : Bool
  bindOk : Bool
  rtpPort : Nat
  daemon : Option Peer
  uuidSent : List SendEvent
  capRxOpened : Bool
  capTxOpened : Bool
  frameSent : List SendEvent

def Env.tag (e : Env) (draw reading : Nat) : Bytes := makeTag (e.rand draw) (e.time reading)

def SmSip.holds (s : SmSip) : Descriptor → Bool
  | .rtp => s.rtpFd
  | .daemon => s.daemonFd
  | .capRx => s.capRx
  | .capTx => s.capTx

def closing (s : SmSip) : List Action :=
  ([.daemon, .rtp, .capRx, .capTx].filter s.holds).map .closed

def endCall (s : SmSip) : SmSip :=
  { s with
    daemonFd := false
    rtpFd := false
    capRx := false
    capTx := false
    callActive := false
    mediaActive := false
    rtpPeerKnown := false
    rxqHead := 0
    rxqTail := 0
    callId := []
    lastOk := none
    callsDone := s.callsDone + 1 }

def nextCseq (s : SmSip) : Int := (s.cseq + 1).bmod (2 ^ 32)

def byeRequest (s : SmSip) (e : Env) : Bye :=
  { advertiseIp := s.cfg.advertiseIp
    bindPort := s.cfg.bindPort
    ssrc := s.localSsrc
    tag := e.tag 0 0
    toHdr := s.toHdr
    callId := s.callId
    cseq := nextCseq s }

def sendBye (s : SmSip) (e : Env) : SmSip × List Action :=
  if s.callActive ∧ s.rtpPeerKnown then
    ({ s with cseq := nextCseq s }, [.bye s.rtpPeer (byeRequest s e)])
  else (s, [])

def hangUp (s : SmSip) (e : Env) : SmSip × List Action :=
  let (s, sent) := if s.rtpPeerKnown then sendBye s e else (s, [])
  (endCall s, sent ++ closing s)

def smSipDestroy (s : SmSip) : SmSip × List Action := (endCall s, closing s)

section Handlers

variable (s : SmSip) (m : SipMsg) (src : SockAddr) (e : Env)

def handleRegister : SmSip × List Action :=
  let contact := if m.contact ≠ [] then m.contact else ascii "<sip:modem@unknown>"
  (s, [.response src (buildResponse m 200 "OK" (headerLine "Contact: " contact) [] (e.tag 0 0))])

def handleOptions : SmSip × List Action :=
  (s, [.response src
    (buildResponse m 200 "OK"
      (headerLine "Allow: " (ascii "INVITE, ACK, CANCEL, BYE, OPTIONS, REGISTER")) [] (e.tag 0 0))])

-- Either reading of the clock may come first; `e` gives each on its own.
def sdpAnswer (cfg : SmSipConfig) (e : Env) : Bytes :=
  ascii "v=0" ++ crlf ++
    ascii "o=- " ++ decimal (e.time 1).toNat ++ ascii " " ++ decimal (e.time 2).toNat ++
    ascii " IN IP4 " ++ cfg.advertiseIp ++ crlf ++
    ascii "s=softmodem" ++ crlf ++
    headerLine "c=IN IP4 " cfg.advertiseIp ++
    ascii "t=0 0" ++ crlf ++
    ascii "m=audio " ++ decimal e.rtpPort ++ ascii " RTP/AVP 0" ++ crlf ++
    ascii "a=rtpmap:0 PCMU/8000" ++ crlf ++
    ascii "a=ptime:20" ++ crlf ++
    ascii "a=sendrecv" ++ crlf

def contactHeader (cfg : SmSipConfig) : Bytes :=
  ascii "Contact: <sip:modem@" ++ cfg.advertiseIp ++ ascii ":" ++ decimal cfg.bindPort ++
    ascii ">" ++ crlf

def okResponse : Response :=
  buildResponse m 200 "OK" (contactHeader s.cfg) (sdpAnswer s.cfg e) (e.tag 6 4)

def openCaptures : List Action :=
  (if s.cfg.captureDir ∧ e.capRxOpened then [.opened .capRx] else []) ++
    (if s.cfg.captureDir ∧ e.capTxOpened then [.opened .capTx] else [])

-- daemon_connect does not look at what sm_ast_write returns here.
def writeUuid (e : Env) : WriteCall :=
  writeCall smAsKindUuid ((List.range 16).map fun i => (i + 1).toUInt8) e.uuidSent

def recordCall (daemon : Peer) : SmSip :=
  { s with
    daemonFd := true
    daemonAs := smAstInit
    daemon := daemon
    written := [writeUuid e]
    capRx := s.cfg.captureDir && e.capRxOpened
    capTx := s.cfg.captureDir && e.capTxOpened
    callSeq := s.callSeq + 1
    callId := m.callId
    toHdr := m.toHdr
    fromHdr := m.fromHdr
    cseq := m.cseqNum
    localSsrc := e.rand 1 ^^^ (e.rand 2 <<< 16)
    rtpSeq := (e.rand 3).toUInt16
    rtpTs := e.rand 4
    rtpPeerKnown := false
    mediaActive := false
    callActive := true
    rxqHead := 0
    rxqTail := 0
    tickNs := 160
    rxUnderruns := 0
    rxDrops := 0
    lastOk := some (okResponse s m e) }

def refuse (status : Nat) (reason : String) : Action :=
  .response src (buildResponse m status reason [] [] (e.tag 1 1))

def setUpCall : SmSip × List Action :=
  let trying : Action := .response src (buildResponse m 100 "Trying" [] [] (e.tag 0 0))
  if e.socketOk = false then
    (endCall s, [trying, refuse m src e 500 "Server Internal Error"] ++ closing s)
  else
    let s := { s with rtpFd := true }
    if e.bindOk = false then
      (endCall s,
        [trying, .opened .rtp, refuse m src e 500 "Server Internal Error"] ++ closing s)
    else
      match e.daemon with
      | none =>
          (endCall s,
            [trying, .opened .rtp, refuse m src e 503 "Service Unavailable"] ++ closing s)
      | some daemon =>
          (recordCall s m e daemon,
            [trying, .opened .rtp, .opened .daemon] ++ openCaptures s e ++
              [.response src (okResponse s m e)])

def handleInvite : SmSip × List Action :=
  match if s.callActive ∧ s.callId = m.callId then s.lastOk else none with
  | some ok => (s, [.response src ok])
  | none =>
      if s.callActive then
        (s, [.response src (buildResponse m 486 "Busy Here" [] [] (e.tag 0 0))])
      else if (extractSdp m).port ≤ 0 then
        (s, [.response src (buildResponse m 488 "Not Acceptable Here" [] [] (e.tag 0 0))])
      else setUpCall s m src e

def handleAck : SmSip × List Action :=
  (if s.callActive ∧ s.callId = m.callId then { s with mediaActive := true } else s, [])

def handleBye : SmSip × List Action :=
  let ok : Action := .response src (buildResponse m 200 "OK" [] [] (e.tag 0 0))
  if s.callActive ∧ s.callId = m.callId then (endCall s, ok :: closing s) else (s, [ok])

def handleCancel : SmSip × List Action :=
  let ok : Action := .response src (buildResponse m 200 "OK" [] [] (e.tag 0 0))
  if s.callActive ∧ s.callId = m.callId then
    let inv := { m with cseqMethod := ascii "INVITE" }
    (endCall s, [ok, refuse inv src e 487 "Request Terminated"] ++ closing s)
  else (s, [ok])

def handleRequest : SmSip × List Action :=
  if m.method = ascii "REGISTER" then handleRegister s m src e
  else if m.method = ascii "INVITE" then handleInvite s m src e
  else if m.method = ascii "ACK" then handleAck s m
  else if m.method = ascii "BYE" then handleBye s m src e
  else if m.method = ascii "CANCEL" then handleCancel s m src e
  else if m.method = ascii "OPTIONS" then handleOptions s m src e
  else (s, [.response src (buildResponse m 405 "Method Not Allowed" [] [] (e.tag 0 0))])

-- Responses to the server's own requests are dropped.
def receiveSip (d : Datagram) : SmSip × List Action :=
  if (parseSip d).isResponse then (s, []) else handleRequest s (parseSip d) src e

end Handlers

end Softmodem.Sip

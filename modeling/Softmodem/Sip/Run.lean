import Softmodem.Lib.Transition
import Softmodem.Sip.Media

namespace Softmodem.Sip

open AudioSocket CString

inductive PollResult where
  | interrupted | failed | ready
  deriving DecidableEq, Repr

structure Received where
  bytes : Bytes
  src : SockAddr
  deriving DecidableEq, Repr

structure LoopEnv extends Env where
  poll : PollResult
  daemonHup : Bool
  daemonEof : Bool
  rtp : Option Received
  sip : Option Received
  line : Bytes
  firstPacket : Timespec
  now : Timespec

inductive Stage where
  | poll
  | pump (now : Timespec)
  | returned (rc : Int)
  deriving DecidableEq, Repr

structure Dialog where
  invite : SipMsg
  src : SockAddr
  ok : Response
  media : Option SockAddr
  deriving DecidableEq, Repr

inductive Reception where
  | taken | busy | noAudio | noPort | noDaemon
  deriving DecidableEq, Repr

def reception (s : SmSip) (m : SipMsg) (e : Env) : Reception :=
  if s.callActive then if s.callId = m.callId then .taken else .busy
  else if (extractSdp m).port ≤ 0 then .noAudio
  else if e.socketOk = false ∨ e.bindOk = false then .noPort
  else if e.daemon.isNone then .noDaemon
  else .taken

structure Exchange where
  datagram : Bytes
  src : SockAddr
  request : SipMsg
  met : Reception
  dialog : Option Dialog
  responses : List Response
  deriving DecidableEq, Repr

structure SentBye where
  dialog : Option Dialog
  drawn : Bytes
  dest : SockAddr
  bye : Bye
  deriving DecidableEq, Repr

structure SipRun where
  server : SmSip
  buf : Bytes
  stage : Stage
  dialog : Option Dialog
  exchanges : List Exchange
  byes : List SentBye
  log : List Action

def start (cfg : SmSipConfig) (buf : Bytes) : SipRun :=
  { server := smSipCreate cfg, buf := buf, stage := .poll, dialog := none, exchanges := []
    byes := [], log := [] }

def Action.response? : Action → Option Response
  | .response _ r => some r
  | _ => none

def byeOf (dialog : Option Dialog) (drawn : Bytes) : Action → Option SentBye
  | .bye dest b => some ⟨dialog, drawn, dest, b⟩
  | _ => none

def SipRun.act (s : SipRun) (e : Env) (r : SmSip × List Action) (stage : Stage) : SipRun :=
  { s with
    server := r.1
    stage := stage
    dialog := if r.1.callActive then s.dialog else none
    byes := s.byes ++ r.2.filterMap (byeOf s.dialog (e.tag 0 0))
    log := s.log ++ r.2 }

def pumpStage (s : SmSip) (now : Timespec) : Stage :=
  if s.callActive ∧ s.rtpPeerKnown then .pump now else .poll

def bindPeer (s : SmSip) (source : SockAddr) (now : Timespec) : SmSip :=
  if s.rtpPeerKnown then s
  else { s with rtpPeer := source, rtpPeerKnown := true, nextTick := tsAddMs now 40 }

def receiveRtp (s : SmSip) (r : Received) (now : Timespec) : SmSip :=
  let pkt := r.bytes.take 2048
  if pkt ≠ [] ∧ s.callActive then processRtp (bindPeer s r.src now) pkt else s

def heardMedia (s : SipRun) (r : Received) (e : LoopEnv) : SipRun :=
  let server := receiveRtp s.server r e.firstPacket
  let heard (d : Dialog) : Dialog :=
    if s.server.rtpPeerKnown = false ∧ server.rtpPeerKnown then { d with media := some r.src } else d
  { s with server := server, dialog := s.dialog.map heard, stage := pumpStage server e.now }

def recvInto (buf : Bytes) (r : Received) (line : Bytes) : Datagram :=
  { buf := r.bytes.take buf.length ++ buf.drop r.bytes.length
    len := min r.bytes.length buf.length
    line := line }

def heardRequest (s : SipRun) (r : Received) (e : LoopEnv) : SipRun :=
  let d := recvInto s.buf r e.line
  let m := parseSip d
  let result := receiveSip s.server r.src e.toEnv d
  let stage := if m.isResponse then .poll else pumpStage result.1 e.now
  let responses := result.2.filterMap Action.response?
  let after := s.act e.toEnv result stage
  let answered := responses.find? fun ok => ok.status = 200
  { after with
    buf := d.buf
    dialog :=
      if result.1.callActive ∧ s.server.callActive = false then
        answered.map fun ok => ⟨m, r.src, ok, none⟩
      else after.dialog
    exchanges :=
      if m.isResponse then s.exchanges
      else
        ⟨d.bytes, r.src, m, reception s.server m e.toEnv, s.dialog, responses⟩ :: s.exchanges }

def awake (s : SipRun) (e : LoopEnv) : SipRun :=
  if s.server.daemonFd ∧ (e.daemonHup ∨ e.daemonEof) then
    s.act e.toEnv (hangUp s.server e.toEnv) .poll
  else
    match if s.server.rtpFd then e.rtp else none with
    | some r => heardMedia s r e
    | none =>
        match e.sip with
        | some r =>
            if r.bytes = [] then { s with stage := pumpStage s.server e.now }
            else heardRequest s r e
        | none => { s with stage := pumpStage s.server e.now }

def pollTurn (maxCalls : Int) (s : SipRun) (e : LoopEnv) : SipRun :=
  if 0 ≤ maxCalls ∧ maxCalls ≤ s.server.callsDone then { s with stage := .returned 0 }
  else
    match e.poll with
    | .interrupted => s
    | .failed => { s with stage := .returned (-1) }
    | .ready => awake s e

def schedule (s : SmSip) (now : Timespec) : SmSip :=
  let s := { s with nextTick := tsAddMs s.nextTick 20 }
  if tsMsUntil s.nextTick now ≤ -100 then { s with nextTick := tsAddMs now 20 } else s

def pumpTurn (s : SipRun) (now : Timespec) (e : LoopEnv) : SipRun :=
  if s.server.callActive ∧ s.server.rtpPeerKnown ∧ tsMsUntil s.server.nextTick now ≤ 0 then
    let (server, actions) := audioTick s.server e.toEnv
    s.act e.toEnv (schedule server e.now, actions) (.pump e.now)
  else { s with stage := .poll }

def step (maxCalls : Int) (s : SipRun) (e : LoopEnv) : SipRun :=
  match s.stage with
  | .poll => pollTurn maxCalls s e
  | .pump now => pumpTurn s now e
  | .returned _ => s

def smSipRun (maxCalls : Int) (s : SipRun) (es : List LoopEnv) : SipRun :=
  Transition.run (step maxCalls) s es

end Softmodem.Sip

import Softmodem.Bbs.Doors
import Softmodem.Lib.Transition

namespace Softmodem.Bbs

open CString

inductive Route where
  | select | bbs | ppp | hangup
  deriving DecidableEq, Repr

inductive Stage where
  | select | login | password | newName | newPassword | termQuery | termAsk | main | termMenu
  | termAnsi | termSize | termCharset | doors | door
  deriving DecidableEq, Repr

structure Session extends Caller where
  route : Route
  stage : Stage
  line : Bytes
  queryMs : UInt32
  query : Bytes
  queryLen : Nat
  ppp : Bytes
  pendingName : Bytes
  door : Option Door
  deriving DecidableEq, Repr

def create (e : Env) (about : ConnectionMeta) : Session :=
  let started := about.connectedAt ≠ 0
  { about :=
      { about with
        protocol := about.protocol.take 31
        audioCodec := about.audioCodec.take 31
        connectedAt := if started then about.connectedAt else e.time 0 }
    db := e.opened, userId := 0, security := 0, handle := [], ansi := 0, color := 0, columns := 0
    rows := 0, cp437 := 0, connectionId := 0, doorCtx := doorContext 0, log := []
    clock := if started then 0 else 1, route := .select, stage := .select, line := []
    queryMs := 0, query := List.replicate 96 0, queryLen := 0, ppp := [], pendingName := []
    door := none }

def promptMain (s : Session) : Session := { s with stage := .main }

def scanInt (text : Bytes) : Option (Int × Bytes) :=
  let number := text.dropWhile isSpace
  let digits :=
    match number with
    | 43 :: rest => rest
    | 45 :: rest => rest
    | rest => rest
  if digits.head?.any isDigit then some (atoi number, digits.dropWhile isDigit) else none

-- Two numbers with a semicolon between them; what follows the second is not looked at.
def scanPair (text : Bytes) : Option (Int × Int) :=
  match scanInt text with
  | some (first, 59 :: rest) => (scanInt rest).map fun second => (first, second.1)
  | _ => none

def scanSize (line : Bytes) : Option (Int × Int) :=
  (scanInt line).bind fun columns => (scanInt columns.2).map fun rows => (columns.1, rows.1)

section Lines

variable (e : Env) (s : Session)

def beginTerminal : Session :=
  if s.columns > 0 ∧ s.rows > 0 then
    promptMain { s with toCaller := recordConnection e s.toCaller }
  else { s with stage := .termQuery, queryMs := 0, queryLen := 0 }

def selectLine (line : Bytes) : Session :=
  let s := { s with ppp := [] }
  if strcasecmp line "BBS" then { s with route := .bbs, stage := .login }
  else { s with route := .ppp }

def loginLine (line : Bytes) : Session :=
  if strcasecmp line "NEW" then { s with stage := .newName }
  else { s with pendingName := line.take 47, stage := .password }

def passwordLine (line : Bytes) : Session :=
  let (c, found) := loginLookup e s.toCaller s.pendingName line
  let s := { s with toCaller := c }
  if found then beginTerminal e s else { s with stage := .login }

def newPasswordLine (line : Bytes) : Session :=
  let (c, made) := registerUser e s.toCaller s.pendingName line
  let s := { s with toCaller := c }
  if made then beginTerminal e s else { s with stage := .login }

def ansiLine (line : Bytes) : Session :=
  let ansi : Int := if starts line 'y' ∨ strcasecmp line "ANSI" then 1 else 0
  let c := { s.toCaller with ansi := ansi, color := ansi, columns := 80, rows := 24 }
  promptMain { s with toCaller := recordConnection e (terminalSave e c) }

def mainLine (line : Bytes) : Session :=
  if starts line 'd' then { s with toCaller := openDoors e s.toCaller, stage := .doors }
  else if starts line 'c' then { s with toCaller := connectionScreen e s.toCaller }
  else if starts line 't' then { s with stage := .termMenu }
  else if starts line 'h' then { s with toCaller := history e s.toCaller }
  else if starts line 'p' then { s with route := .ppp }
  else if starts line 'q' then { s with route := .hangup }
  else promptMain s

def termMenuLine (line : Bytes) : Session :=
  if starts line 'a' then { s with stage := .termAnsi }
  else if starts line 's' then { s with stage := .termSize }
  else if starts line 'c' then { s with stage := .termCharset }
  else promptMain s

def sizeFits (columns rows : Int) : Bool :=
  20 ≤ columns && columns ≤ 300 && 10 ≤ rows && rows ≤ 120

def termSizeLine (line : Bytes) : Session :=
  match scanSize line with
  | some (columns, rows) =>
      if sizeFits columns rows then
        let c := { s.toCaller with columns := columns, rows := rows }
        promptMain { s with toCaller := terminalSave e c }
      else promptMain s
  | none => promptMain s

def termCharsetLine (line : Bytes) : Session :=
  let c := { s.toCaller with cp437 := if starts line 'c' then 1 else 0 }
  promptMain { s with toCaller := terminalSave e c }

def doorsLine (line : Bytes) : Session :=
  if starts line 'q' then promptMain s
  else
    match doorFind line with
    | some door =>
        { s with toCaller := door.open e s.toCaller, door := some door, stage := .door }
    | none => { s with door := none }

def doorLine (line : Bytes) : Session :=
  match s.door with
  | some door =>
      let (c, returned) := door.input e s.toCaller line
      let s := { s with toCaller := c }
      if returned then { s with door := none, stage := .doors } else s
  | none => s

def handleLine (line : Bytes) : Session :=
  let line := line.dropWhile isSpace
  match s.stage with
  | .select => selectLine s line
  | .login => loginLine s line
  | .password => passwordLine e s line
  | .newName => { s with pendingName := line.take 47, stage := .newPassword }
  | .newPassword => newPasswordLine e s line
  | .termAsk => ansiLine e s line
  | .termAnsi => ansiLine e s line
  | .main => mainLine e s line
  | .termMenu => termMenuLine s line
  | .termSize => termSizeLine e s line
  | .termCharset => termCharsetLine e s line
  | .doors => doorsLine e s line
  | .door => doorLine e s line
  | .termQuery => promptMain s

end Lines

def pppPrefix (bytes : Bytes) : Bool :=
  List.isPrefixOf [0x7e, 0xff, 0x03, 0xc0, 0x21] bytes ||
    List.isPrefixOf [0x7e, 0xff, 0x7d, 0x23, 0xc0, 0x21] bytes

def answered (s : Session) (ch : UInt8) : Session :=
  if s.queryLen < 95 then
    { s with
      query := (s.query.set s.queryLen ch).set (s.queryLen + 1) 0
      queryLen := s.queryLen + 1 }
  else { s with query := s.query.set s.queryLen 0 }

-- One byte of the loop in feed.
def typed (e : Env) (s : Session) (ch : UInt8) : Session :=
  if s.stage = .termQuery then answered s ch
  else if ch = 13 ∨ ch = 10 then
    if s.line = [] then s else { handleLine e s s.line with line := [] }
  else if (ch = 8 ∨ ch = 127) ∧ s.line ≠ [] then { s with line := s.line.dropLast }
  else if 32 ≤ ch ∧ ch < 127 ∧ s.line.length < 159 then { s with line := s.line ++ [ch] }
  else s

def Left (s : Session) : Prop := s.route = .ppp ∨ s.route = .hangup

instance : DecidablePred Left := fun s => inferInstanceAs (Decidable (s.route = .ppp ∨ _))

def keepEarly (s : Session) (bytes : Bytes) : Session :=
  if s.stage = .select ∧ bytes ≠ [] then
    { s with ppp := s.ppp ++ bytes.take (1024 - s.ppp.length) }
  else s

def startsPpp (s : Session) (bytes : Bytes) : Prop :=
  s.stage = .select ∧ bytes ≠ [] ∧ pppPrefix (keepEarly s bytes).ppp = true

instance (s : Session) (bytes : Bytes) : Decidable (startsPpp s bytes) :=
  inferInstanceAs (Decidable (_ ∧ _))

def feed (e : Env) (s : Session) (bytes : Bytes) : Session :=
  if Left s then s
  else if startsPpp s bytes then { keepEarly s bytes with route := .ppp }
  else Transition.run (typed e) (keepEarly s bytes) bytes

def reported (s : Session) : Session :=
  let query := cstr s.query
  let s :=
    match (strstr [27, 91] query).bind fun report => scanPair (report.drop 2) with
    | some (row, col) => if row > 0 ∧ col > 0 then { s with ansi := 1, color := 1 } else s
    | none => s
  match (strstr [27, 91, 56, 59] query).bind fun report => scanPair (report.drop 4) with
  | some (row, col) => { s with rows := row, columns := col, ansi := 1, color := 1 }
  | none => s

def tick (e : Env) (s : Session) (ms : UInt32) : Session :=
  if s.stage ≠ .termQuery then s
  else
    let s := reported { s with queryMs := s.queryMs + ms }
    if s.queryMs < 1500 then s
    else
      let columns := if s.columns = 0 then 80 else s.columns
      let rows := if s.rows = 0 then 24 else s.rows
      let s := { s with columns := columns, rows := rows }
      if s.ansi ≠ 0 then
        promptMain { s with toCaller := recordConnection e (terminalSave e s.toCaller) }
      else { s with stage := .termAsk }

def takePpp (s : Session) (cap : Nat) : Session × Bytes :=
  ({ s with ppp := s.ppp.drop cap }, s.ppp.take cap)

def destroy (e : Env) (s : Session) : Log :=
  if s.db ∧ s.connectionId ≠ 0 then
    let now := e.time s.clock
    (ask e s.toCaller (.updateConnection now (now - s.about.connectedAt) (terminalType s.ansi)
      s.ansi s.connectionId)).1.log
  else s.log

end Softmodem.Bbs

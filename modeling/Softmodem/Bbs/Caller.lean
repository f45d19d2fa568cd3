import Softmodem.Lib.CString

namespace Softmodem.Bbs

open CString

structure ConnectionMeta where
  protocol : Bytes
  txBps : Int
  rxBps : Int
  connectedAt : Int
  audioCodec : Bytes
  packetsRx : Int
  packetsTx : Int
  packetsLost : Int
  jitter : Int
  deriving DecidableEq, Repr

inductive Statement where
  | selectUser (name : Bytes)
  | insertUser (name hash : Bytes) (createdAt : Int)
  | updateUser (terminalType : Bytes) (ansi color columns rows cp437 userId : Int)
  | insertConnection (userId : Int) (about : ConnectionMeta) (terminalType : Bytes) (ansi : Int)
  | selectConnections (userId : Int)
  | selectGame (userId : Int) (game key : String)
  | insertGame (userId : Int) (game key : String) (value : Int)
  | updateConnection (endedAt duration : Int) (terminalType : Bytes) (ansi id : Int)
  deriving DecidableEq, Repr

-- How a statement ends: not prepared, a row, done with a new row or without one, or an error.
inductive Answer where
  | refused
  | row (columns : List Int) (text : Option Bytes)
  | done (rowid : Int)
  | existed
  | failed
  deriving DecidableEq, Repr

def Answer.Done : Answer → Prop
  | .done _ | .existed => True
  | _ => False

instance : DecidablePred Answer.Done
  | .refused => isFalse id
  | .row _ _ => isFalse id
  | .done _ => isTrue trivial
  | .existed => isTrue trivial
  | .failed => isFalse id

abbrev Log := List (Statement × Answer)

-- The database and the clock; a plain insert that is done has made a row.
structure Env where
  opened : Bool
  answer : Log → Statement → Answer
  time : Nat → Int
  inserts : ∀ log name hash createdAt, answer log (.insertUser name hash createdAt) ≠ .existed

structure DoorContext where
  rng : UInt32
  state : Int
  values : List Int
  word : Bytes
  guessed : Bytes
  deriving DecidableEq, Repr

-- The part of a session that the database and the doors work on.
structure Caller where
  about : ConnectionMeta
  db : Bool
  userId : Int
  security : Int
  handle : Bytes
  ansi : Int
  color : Int
  columns : Int
  rows : Int
  cp437 : Int
  connectionId : Int
  doorCtx : DoorContext
  log : Log
  clock : Nat
  deriving DecidableEq, Repr

def toInt (x : Int) : Int := x.bmod (2 ^ 32)

def toUnsigned (x : Int) : UInt32 := UInt32.ofNat (x % 2 ^ 32).toNat

def Statement.inserted : Statement × Answer → Option Int
  | (.insertUser .., .done rowid) => some rowid
  | (.insertConnection .., .done rowid) => some rowid
  | (.insertGame .., .done rowid) => some rowid
  | _ => none

def lastId (log : Log) : Int := ((log.filterMap Statement.inserted).getLast?).getD 0

def hashByte (h : UInt64) (c : UInt8) : UInt64 := (h ^^^ c.toUInt64) * 1099511628211

def passwordHash (user pass : Bytes) : UInt64 :=
  let h := (user.map lower).foldl hashByte 1469598103934665603
  pass.foldl hashByte (hashByte h 0x5a)

def hex16 (w : UInt64) : Bytes :=
  (List.range 16).map fun i => digit (w.toNat / 16 ^ (15 - i) % 16)

section Database

variable (e : Env) (c : Caller)

def ask (q : Statement) : Caller × Answer :=
  let a := if c.db then e.answer c.log q else .refused
  ({ c with log := c.log ++ [(q, a)] }, a)

def readTime : Caller × Int := ({ c with clock := c.clock + 1 }, e.time c.clock)

def terminalType (ansi : Int) : Bytes := if ansi ≠ 0 then ascii "ANSI" else ascii "ASCII"

def terminalSave : Caller :=
  (ask e c (.updateUser (terminalType c.ansi) c.ansi c.color c.columns c.rows c.cp437
    c.userId)).1

def recordConnection : Caller :=
  if c.connectionId ≠ 0 ∨ c.userId = 0 then c
  else
    let (c, a) := ask e c (.insertConnection c.userId c.about (terminalType c.ansi) c.ansi)
    if a = .refused then c else { c with connectionId := lastId c.log }

def loginLookup (name pass : Bytes) : Caller × Bool :=
  match ask e c (.selectUser name) with
  | (c, .row columns (some stored)) =>
      if stored = hex16 (passwordHash name pass) then
        ({ c with
            userId := toInt (columns.getD 0 0)
            security := toInt (columns.getD 2 0)
            ansi := toInt (columns.getD 3 0)
            color := toInt (columns.getD 4 0)
            columns := toInt (columns.getD 5 0)
            rows := toInt (columns.getD 6 0)
            cp437 := toInt (columns.getD 7 0)
            handle := name.take 47 }, true)
      else (c, false)
  | (c, _) => (c, false)

def registerUser (name pass : Bytes) : Caller × Bool :=
  if name = [] ∨ name.length > 32 ∨ pass = [] then (c, false)
  else
    let (c, a) := ask e c (.insertUser name (hex16 (passwordHash name pass)) (e.time c.clock))
    let c := if a = .refused then c else { c with clock := c.clock + 1 }
    if a.Done then
      ({ c with userId := toInt (lastId c.log), security := 10, handle := name.take 47 }, true)
    else (c, false)

-- The screen shows how long the call has lasted.
def connectionScreen : Caller := (readTime e c).1

def history : Caller := (ask e c (.selectConnections c.userId)).1

def gameLoad (game key : String) (fallback : Int) : Caller × Int :=
  match ask e c (.selectGame c.userId game key) with
  | (c, .row columns _) => (c, columns.getD 0 0)
  | (c, _) => (c, fallback)

def gameSave (game key : String) (value : Int) : Caller :=
  (ask e c (.insertGame c.userId game key value)).1

end Database

end Softmodem.Bbs

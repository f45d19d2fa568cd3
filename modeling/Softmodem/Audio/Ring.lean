import Mathlib.Data.List.Range
import Softmodem.Lib.Slots

namespace Softmodem.Audio

structure Ring where
  buf : Nat → Int16
  slots : Nat
  capacity : UInt64
  head : UInt64
  tail : UInt64
  spsc : Bool
  held : Bool

-- The mutex is not recursive: who locks it twice waits for good.
inductive Fault where
  | relock
  | outside
  deriving DecidableEq, Repr

def lock (r : Ring) : Except Fault Ring :=
  if r.held then .error .relock else .ok { r with held := true }

def unlock (r : Ring) : Ring := { r with held := false }

def lockUnlessSpsc (r : Ring) : Except Fault Ring := if r.spsc then .ok r else lock r

def unlockUnlessSpsc (r : Ring) : Ring := if r.spsc then r else unlock r

def Ring.load (r : Ring) (i : Nat) : Except Fault Int16 :=
  if i < r.slots then .ok (r.buf i) else .error .outside

def Ring.store (r : Ring) (i : Nat) (x : Int16) : Except Fault Ring :=
  if i < r.slots then .ok { r with buf := Function.update r.buf i x } else .error .outside

-- `memory` is what `malloc` returns for `capacity * sizeof(int16_t)` bytes, a product of 64 bits.
def smRingInit (memory : Option (Nat → Int16)) (capacity : UInt64) (spsc : Bool) : Ring :=
  { buf := memory.getD fun _ => 0
    slots := if memory.isSome then (capacity * 2).toNat / 2 else 0
    capacity := capacity
    head := 0
    tail := 0
    spsc := spsc
    held := false }

def smRingReadable (r : Ring) : Except Fault (UInt64 × Ring) :=
  if r.spsc then
    let n := r.head - r.tail
    .ok (if n > r.capacity then r.capacity else n, r)
  else do
    let r ← lock r
    let n := r.head - r.tail
    let r := unlock r
    return (if n > r.capacity then r.capacity else n, r)

def smRingWritable (r : Ring) : Except Fault (UInt64 × Ring) := do
  let (fill, r) ← smRingReadable r
  return (r.capacity - fill, r)

def smRingWrite (r : Ring) (data : Nat → Int16) (len : UInt64) : Except Fault (UInt64 × Ring) := do
  let r ← lockUnlessSpsc r
  let (readable, r) ← smRingReadable r
  let space := r.capacity - readable
  let len := if len > space then space else len
  let mask := r.capacity - 1
  let r ← (List.range len.toNat).foldlM
    (fun s i => s.store ((r.head + .ofNat i) &&& mask).toNat (data i)) r
  return (len, unlockUnlessSpsc { r with head := r.head + len })

-- `wanted` tells whether the caller passes memory to copy to.
def smRingRead (r : Ring) (wanted : Bool) (len : UInt64) :
    Except Fault ((UInt64 × List Int16) × Ring) := do
  let r ← lockUnlessSpsc r
  let (avail, r) ← smRingReadable r
  let len := if len > avail then avail else len
  let mask := r.capacity - 1
  let data ← if wanted then
      (List.range len.toNat).mapM fun i => r.load ((r.tail + .ofNat i) &&& mask).toNat
    else pure []
  return ((len, data), unlockUnlessSpsc { r with tail := r.tail + len })

def smRingDrop (r : Ring) (len : UInt64) : Except Fault (UInt64 × Ring) := do
  let (avail, r) ← smRingReadable r
  let len := if len > avail then avail else len
  return (len, { r with tail := r.tail + len })

def smRingClear (r : Ring) : Except Fault Ring := do
  let r ← lockUnlessSpsc r
  return unlockUnlessSpsc { r with tail := r.head }

def smRingPeek (r : Ring) : Except Fault ((UInt64 × UInt64) × Ring) := do
  let mask := r.capacity - 1
  let off := r.tail &&& mask
  let toEnd := r.capacity - off
  let (fill, r) ← smRingReadable r
  return ((off, if toEnd < fill then toEnd else fill), r)

inductive RingOp where
  | write (data : Nat → Int16) (len : UInt64)
  | read (wanted : Bool) (len : UInt64)
  | drop (len : UInt64)
  | clear
  | peek

inductive RingResult where
  | count (n : UInt64)
  | samples (n : UInt64) (data : List Int16)
  | nothing
  | span (data : List Int16)
  deriving DecidableEq, Repr

-- A span is what its reader finds from the pointer on.
def ringStep (r : Ring) : RingOp → Except Fault (RingResult × Ring)
  | .write data len => do
      let (n, r) ← smRingWrite r data len
      return (.count n, r)
  | .read wanted len => do
      let ((n, data), r) ← smRingRead r wanted len
      return (.samples n data, r)
  | .drop len => do
      let (n, r) ← smRingDrop r len
      return (.count n, r)
  | .clear => do
      let r ← smRingClear r
      return (.nothing, r)
  | .peek => do
      let ((off, avail), r) ← smRingPeek r
      let data ← (List.range avail.toNat).mapM fun i => r.load (off.toNat + i)
      return (.span data, r)

section Queue

-- A queue of at most `capacity` samples, and what it answers.
def queueStep (capacity : Nat) (q : List Int16) : RingOp → List Int16
  | .write data len => q ++ (List.range (min len.toNat (capacity - q.length))).map data
  | .read _ len => q.drop len.toNat
  | .drop len => q.drop len.toNat
  | .clear => []
  | .peek => q

def Answers (capacity : Nat) (q : List Int16) : RingOp → RingResult → Prop
  | .write _ len, .count n => n.toNat = min len.toNat (capacity - q.length)
  | .read wanted len, .samples n data =>
      n.toNat = min len.toNat q.length ∧ data = if wanted then q.take len.toNat else []
  | .drop len, .count n => n.toNat = min len.toNat q.length
  | .clear, .nothing => True
  | .peek, .span data => data <+: q
  | _, _ => False

end Queue

section Unread

def Ring.fill (r : Ring) : Nat := (r.head - r.tail).toNat

def Ring.slot (r : Ring) (i : Nat) : Nat := ((r.tail + .ofNat i) &&& (r.capacity - 1)).toNat

def Ring.unread (r : Ring) : List Int16 := (List.range r.fill).map fun i => r.buf (r.slot i)

structure Represents (r : Ring) (q : List Int16) : Prop where
  bounded : q.length ≤ r.capacity.toNat
  unread : r.unread = q
  counts : ∃ readable writable, smRingReadable r = .ok (readable, r) ∧
    smRingWritable r = .ok (writable, r) ∧ readable.toNat = q.length ∧
    readable.toNat + writable.toNat = r.capacity.toNat

-- Step after step the ring stands for the queue, returns, and answers as the queue does.
def IsFifo : Ring → List Int16 → List RingOp → Prop
  | r, q, [] => Represents r q
  | r, q, op :: ops => Represents r q ∧ ∃ result r', ringStep r op = .ok (result, r') ∧
      Answers r.capacity.toNat q op result ∧ IsFifo r' (queueStep r.capacity.toNat q op) ops

end Unread

end Softmodem.Audio

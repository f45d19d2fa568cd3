import Softmodem.Serial.BitQueue

namespace Softmodem.Serial

abbrev smDeframerOut : Nat := 4096

inductive DeframerState where
  | idle
  | data
  | stop
  deriving DecidableEq, Repr

structure SmDeframer where
  state : DeframerState
  nbits : Nat
  byte : Nat
  prev : Bool
  out : List UInt8
  framingErrors : UInt64
  bytesOut : UInt64
  deriving DecidableEq, Repr

def smDeframerInit : SmDeframer :=
  { state := .idle, nbits := 0, byte := 0, prev := true, out := []
    framingErrors := 0, bytesOut := 0 }

-- Bytes nobody has taken are thrown away, all at once, when the buffer is found full.
def smDeframerFlush (d : SmDeframer) : SmDeframer :=
  if d.out.length ≥ smDeframerOut then { d with out := [] } else d

def smDeframerBit (d : SmDeframer) (bit : Bool) : SmDeframer :=
  let d := smDeframerFlush d
  match d.state with
  | .idle =>
      if d.prev = true ∧ bit = false then
        { d with state := .data, nbits := 0, byte := 0, prev := bit }
      else { d with prev := bit }
  | .data =>
      { d with
        byte := d.byte ||| (bit.toNat <<< d.nbits)
        nbits := d.nbits + 1
        state := if d.nbits + 1 ≥ 8 then .stop else .data
        prev := bit }
  | .stop =>
      if bit then
        { d with
          prev := bit
          out := if d.out.length < smDeframerOut then d.out ++ [d.byte.toUInt8] else d.out
          bytesOut := d.bytesOut + 1
          state := .idle }
      else { d with prev := bit, framingErrors := d.framingErrors + 1, state := .idle }

def smDeframerTake (d : SmDeframer) (len : Int) : SmDeframer × List UInt8 × Int :=
  let len := if len > d.out.length then (d.out.length : Int) else len
  if len > 0 then ({ d with out := d.out.drop len.toNat }, d.out.take len.toNat, len)
  else (d, [], len)

section Flush

variable (d : SmDeframer)

@[simp] theorem smDeframerFlush_state : (smDeframerFlush d).state = d.state := by
  unfold smDeframerFlush; split <;> rfl

@[simp] theorem smDeframerFlush_nbits : (smDeframerFlush d).nbits = d.nbits := by
  unfold smDeframerFlush; split <;> rfl

@[simp] theorem smDeframerFlush_byte : (smDeframerFlush d).byte = d.byte := by
  unfold smDeframerFlush; split <;> rfl

@[simp] theorem smDeframerFlush_prev : (smDeframerFlush d).prev = d.prev := by
  unfold smDeframerFlush; split <;> rfl

@[simp] theorem smDeframerFlush_framingErrors :
    (smDeframerFlush d).framingErrors = d.framingErrors := by
  unfold smDeframerFlush; split <;> rfl

theorem smDeframerFlush_of_lt {d : SmDeframer} (h : d.out.length < smDeframerOut) :
    smDeframerFlush d = d := if_neg (not_le.mpr h)

end Flush

theorem smDeframerTake_eq (d : SmDeframer) (len : Int) :
    smDeframerTake d len =
      ({ d with out := d.out.drop (min len d.out.length).toNat },
        d.out.take (min len d.out.length).toNat, min len d.out.length) := by
  have hmin : (if len > d.out.length then (d.out.length : Int) else len) =
      min len d.out.length := by
    split <;> omega
  simp only [smDeframerTake, hmin]
  split
  · rfl
  · rename_i hle
    have hzero : (min len d.out.length).toNat = 0 := by omega
    simp [hzero]

theorem smDeframerTake_split (d : SmDeframer) (len : Int) :
    (smDeframerTake d len).2.1 ++ (smDeframerTake d len).1.out = d.out := by
  simp [smDeframerTake_eq]

def completed (d : SmDeframer) (bit : Bool) : List UInt8 :=
  match d.state, bit with
  | .stop, true => [d.byte.toUInt8]
  | _, _ => []

def completions : SmDeframer → List Bool → List UInt8
  | _, [] => []
  | d, bit :: bits => completed d bit ++ completions (smDeframerBit d bit) bits

theorem smDeframerBit_out {d : SmDeframer} (bit : Bool) (h : d.out.length < smDeframerOut) :
    (smDeframerBit d bit).out = d.out ++ completed d bit := by
  simp only [smDeframerBit, smDeframerFlush_of_lt h, completed]
  cases hs : d.state with
  | idle =>
      simp only [List.append_nil]
      split <;> rfl
  | data => simp
  | stop => cases bit <;> simp [h]

end Softmodem.Serial

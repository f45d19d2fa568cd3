import Softmodem.Lib.Memory
import Softmodem.Lib.Transition

namespace Softmodem.Ppp

open Memory

def shimBuf : Nat := 8192

def scratchSize : Nat := 4096

-- Behind index SHIM_BUF lies whatever the linker has put after the array.
structure ShimBuf where
  data : Nat → UInt8
  len : Nat
  off : Nat
  input : List UInt8
  output : List UInt8

def shimBufInit (memory : Nat → UInt8) : ShimBuf :=
  { data := memory, len := 0, off := 0, input := [], output := [] }

structure Reported where
  ready : Bool
  hupErr : Bool
  deriving DecidableEq, Repr

def Reported.revents (p : Reported) (events : Bool) : Bool := events && p.ready || p.hupErr

inductive PollAnswer where
  | interrupted
  | failed
  | ready (stdin fdIn stdout fdOut : Reported)
  deriving DecidableEq, Repr

inductive ReadAnswer where
  | data (bytes : List UInt8)
  | again
  | closed
  deriving DecidableEq, Repr

structure ShimEnv where
  poll : PollAnswer
  read : ReadAnswer
  write : Nat
  deriving DecidableEq, Repr

structure Revents where
  stdin : Bool
  fdIn : Bool
  stdout : Bool
  fdOut : Bool
  deriving DecidableEq, Repr

inductive ShimStage where
  | poll
  | fromPppd (r : Revents)
  | toModem (r : Revents)
  | fromModem (r : Revents)
  | toPppd (r : Revents)
  | returned (rc : Int)
  deriving DecidableEq, Repr

structure Shim where
  toPppd : ShimBuf
  toModem : ShimBuf
  stage : ShimStage

def shimStart (toPppd toModem : Nat → UInt8) : Shim :=
  { toPppd := shimBufInit toPppd, toModem := shimBufInit toModem, stage := .poll }

def absorb (b : ShimBuf) (scratch : List UInt8) : ShimBuf :=
  { b with
    data := if b.len + scratch.length ≤ shimBuf then store b.data b.len scratch else b.data
    len := b.len + scratch.length
    input := b.input ++ scratch }

def readInto (b : ShimBuf) : ReadAnswer → Option ShimBuf
  | .data bytes =>
      if bytes.take scratchSize = [] then none else some (absorb b (bytes.take scratchSize))
  | .again => some b
  | .closed => none

def emit (b : ShimBuf) (accepted : Nat) : ShimBuf :=
  let r := min accepted (b.len - b.off)
  let b := { b with off := b.off + r, output := b.output ++ span b.data b.off (b.off + r) }
  if b.off = b.len then { b with off := 0, len := 0 } else b

def shimPoll (s : Shim) : PollAnswer → Shim
  | .interrupted => s
  | .failed => { s with stage := .returned 1 }
  | .ready stdin fdIn stdout fdOut =>
      { s with
        stage := .fromPppd
          { stdin := stdin.revents (s.toModem.len = 0)
            fdIn := fdIn.revents (s.toPppd.len = 0)
            stdout := stdout.revents (s.toPppd.len ≠ 0)
            fdOut := fdOut.revents (s.toModem.len ≠ 0) } }

def shimStep (s : Shim) (e : ShimEnv) : Shim :=
  match s.stage with
  | .poll => shimPoll s e.poll
  | .fromPppd r =>
      if r.stdin then
        match readInto s.toModem e.read with
        | some b => { s with toModem := b, stage := .toModem r }
        | none => { s with stage := .returned 0 }
      else { s with stage := .toModem r }
  | .toModem r =>
      if s.toModem.len ≠ 0 ∧ r.fdOut then
        { s with toModem := emit s.toModem e.write, stage := .fromModem r }
      else { s with stage := .fromModem r }
  | .fromModem r =>
      if r.fdIn then
        match readInto s.toPppd e.read with
        | some b => { s with toPppd := b, stage := .toPppd r }
        | none => { s with stage := .returned 0 }
      else { s with stage := .toPppd r }
  | .toPppd r =>
      if s.toPppd.len ≠ 0 ∧ r.stdout then
        { s with toPppd := emit s.toPppd e.write, stage := .poll }
      else { s with stage := .poll }
  | .returned _ => s

def smPppdShimMain (toPppd toModem : Nat → UInt8) (es : List ShimEnv) : Shim :=
  Transition.run shimStep (shimStart toPppd toModem) es

structure ShimBuf.Intact (b : ShimBuf) : Prop where
  off : b.off ≤ b.len
  len : b.len ≤ shimBuf
  stream : b.output ++ span b.data b.off b.len = b.input

def Shim.Intact (s : Shim) : Prop := s.toPppd.Intact ∧ s.toModem.Intact

theorem absorb_intact_iff {b : ShimBuf} (h : b.Intact) (scratch : List UInt8) :
    (absorb b scratch).Intact ↔ b.len + scratch.length ≤ shimBuf := by
  constructor
  · intro habsorbed
    exact habsorbed.len
  · intro hroom
    refine ⟨?_, hroom, ?_⟩
    · exact Nat.le_trans h.off (Nat.le_add_right ..)
    · simp only [absorb, if_pos hroom]
      rw [span_store _ _ h.off, ← List.append_assoc, h.stream]

theorem emit_intact {b : ShimBuf} (h : b.Intact) (accepted : Nat) : (emit b accepted).Intact := by
  have hoff := h.off
  have hr : b.off + min accepted (b.len - b.off) ≤ b.len := by omega
  have hstream : (b.output ++ span b.data b.off (b.off + min accepted (b.len - b.off))) ++
      span b.data (b.off + min accepted (b.len - b.off)) b.len = b.input := by
    rw [List.append_assoc, span_append _ (Nat.le_add_right ..) hr, h.stream]
  simp only [emit]
  split
  next hall =>
    refine ⟨Nat.le_refl 0, Nat.zero_le _, ?_⟩
    rw [hall, span_self, List.append_nil] at hstream
    rw [span_self, List.append_nil, hall]
    exact hstream
  next => exact ⟨hr, h.len, hstream⟩

def readFits (b : ShimBuf) : ReadAnswer → Prop
  | .data bytes => b.len + (bytes.take scratchSize).length ≤ shimBuf
  | .again => True
  | .closed => True

def ReadHasRoom (s : Shim) (e : ShimEnv) : Prop :=
  match s.stage with
  | .fromPppd r => r.stdin → readFits s.toModem e.read
  | .fromModem r => r.fdIn → readFits s.toPppd e.read
  | _ => True

theorem readInto_intact_iff {b : ShimBuf} (h : b.Intact) (answer : ReadAnswer) :
    (∀ b' ∈ readInto b answer, b'.Intact) ↔ readFits b answer := by
  cases answer with
  | again => simpa [readInto, readFits] using h
  | closed => simp [readInto, readFits]
  | data bytes =>
      simp only [readInto, readFits]
      split
      next hnone => simpa [hnone] using h.len
      next => simpa using absorb_intact_iff h (bytes.take scratchSize)

theorem shimStep_intact_iff {s : Shim} (h : s.Intact) (e : ShimEnv) :
    (shimStep s e).Intact ↔ ReadHasRoom s e := by
  obtain ⟨hpppd, hmodem⟩ := h
  unfold shimStep ReadHasRoom
  rcases s.stage with _ | r | r | r | r | rc
  · exact iff_of_true (by cases e.poll <;> exact ⟨hpppd, hmodem⟩) trivial
  · have hread := readInto_intact_iff hmodem e.read
    dsimp only
    split
    next hr =>
      rcases hb : readInto s.toModem e.read with _ | b
      · rw [hb] at hread
        exact iff_of_true ⟨hpppd, hmodem⟩ fun _ => hread.mp (by simp)
      · rw [hb] at hread
        constructor
        · exact fun hs _ => hread.mp (by simpa using hs.2)
        · exact fun hs => ⟨hpppd, hread.mpr (hs hr) b rfl⟩
    next hr => exact iff_of_true ⟨hpppd, hmodem⟩ fun h => absurd h hr
  · refine iff_of_true ?_ trivial
    dsimp only
    split
    · exact ⟨hpppd, emit_intact hmodem _⟩
    · exact ⟨hpppd, hmodem⟩
  · have hread := readInto_intact_iff hpppd e.read
    dsimp only
    split
    next hr =>
      rcases hb : readInto s.toPppd e.read with _ | b
      · rw [hb] at hread
        exact iff_of_true ⟨hpppd, hmodem⟩ fun _ => hread.mp (by simp)
      · rw [hb] at hread
        constructor
        · exact fun hs _ => hread.mp (by simpa using hs.1)
        · exact fun hs => ⟨hread.mpr (hs hr) b rfl, hmodem⟩
    next hr => exact iff_of_true ⟨hpppd, hmodem⟩ fun h => absurd h hr
  · refine iff_of_true ?_ trivial
    dsimp only
    split
    · exact ⟨emit_intact hpppd _, hmodem⟩
    · exact ⟨hpppd, hmodem⟩
  · exact iff_of_true ⟨hpppd, hmodem⟩ trivial

theorem shimStart_intact (toPppd toModem : Nat → UInt8) : (shimStart toPppd toModem).Intact :=
  ⟨⟨Nat.le_refl 0, Nat.zero_le _, rfl⟩, ⟨Nat.le_refl 0, Nat.zero_le _, rfl⟩⟩

theorem relay_intact_iff_reads_fit (toPppd toModem : Nat → UInt8) (es : List ShimEnv) :
    (∀ fs, fs <+: es → (smPppdShimMain toPppd toModem fs).Intact) ↔
      Transition.Along shimStep ReadHasRoom (shimStart toPppd toModem) es :=
  Transition.forall_reached_iff (Q := Shim.Intact) (fun _ e h => shimStep_intact_iff h e) es
    (shimStart_intact toPppd toModem)

def hangUpRead : List ShimEnv :=
  let quiet : Reported := ⟨false, false⟩
  let poll : PollAnswer := .ready ⟨true, true⟩ quiet ⟨true, false⟩ quiet
  let wake : ShimEnv := { poll := poll, read := .again, write := 0 }
  [wake, { wake with read := .data (List.replicate 4096 0x7E) }, wake, wake, wake]

-- pppd has hung up with data left to read while the modem's end takes nothing.
theorem three_reads_after_hangup_overrun :
    ¬ ∀ (toPppd toModem : Nat → UInt8) (es : List ShimEnv),
      ∀ fs, fs <+: es → (smPppdShimMain toPppd toModem fs).Intact := by
  intro h
  have hrun := h (fun _ => 0) (fun _ => 0) (hangUpRead ++ hangUpRead ++ hangUpRead) _
    (List.prefix_refl _)
  exact absurd hrun.2.len (by decide +kernel)

end Softmodem.Ppp

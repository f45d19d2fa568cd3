import Softmodem.Ppp.Shim

namespace Softmodem.Ppp

open Memory Transition

inductive Side where
  | pppd
  | modem
  deriving DecidableEq, Repr

-- The buffer a side's bytes are read into, on their way to the other side.
def Shim.held (s : Shim) : Side → ShimBuf
  | .pppd => s.toModem
  | .modem => s.toPppd

def ReadAnswer.atEnd : ReadAnswer → Bool
  | .data bytes => bytes.take scratchSize = []
  | .again => false
  | .closed => true

def endOfFile (s : Shim) (e : ShimEnv) : Option Side :=
  match s.stage with
  | .fromPppd r => if r.stdin && e.read.atEnd then some .pppd else none
  | .fromModem r => if r.fdIn && e.read.atEnd then some .modem else none
  | _ => none

structure DrainedAt (s : Shim) (side : Side) : Prop where
  returned : s.stage = .returned 0
  written : (s.held side).output = (s.held side).input

def ClosesDrained (s : Shim) (e : ShimEnv) : Prop :=
  ∀ side ∈ endOfFile s e, DrainedAt (shimStep s e) side

def EndFindsNothing (s : Shim) (e : ShimEnv) : Prop :=
  ∀ side ∈ endOfFile s e, (s.held side).off = (s.held side).len

-- The sockets and the pty report room whenever asked, and take at least a byte of what is offered.
def KeepsAccepting (s : Shim) (e : ShimEnv) : Prop :=
  match s.stage with
  | .poll =>
      match e.poll with
      | .ready _ _ stdout fdOut => stdout.ready ∧ fdOut.ready
      | _ => True
  | .toModem _ => 0 < e.write
  | .toPppd _ => 0 < e.write
  | _ => True

theorem readInto_eq_none_iff (b : ShimBuf) (answer : ReadAnswer) :
    readInto b answer = none ↔ answer.atEnd = true := by
  cases answer with
  | data bytes =>
      rw [readInto, ReadAnswer.atEnd, decide_eq_true_eq]
      split
      next h => exact iff_of_true rfl h
      next h => exact iff_of_false (by simp) h
  | again => simp [readInto, ReadAnswer.atEnd]
  | closed => simp [readInto, ReadAnswer.atEnd]

theorem shimStep_at_end {s : Shim} {e : ShimEnv} {side : Side} (h : side ∈ endOfFile s e) :
    shimStep s e = { s with stage := .returned 0 } := by
  unfold endOfFile at h
  unfold shimStep
  split at h
  · next r hstage =>
      split at h
      · next hread =>
          rw [Bool.and_eq_true] at hread
          rw [hstage]
          simp [hread.1, (readInto_eq_none_iff s.toModem e.read).mpr hread.2]
      · exact absurd h (by simp)
  · next r hstage =>
      split at h
      · next hread =>
          rw [Bool.and_eq_true] at hread
          rw [hstage]
          simp [hread.1, (readInto_eq_none_iff s.toPppd e.read).mpr hread.2]
      · exact absurd h (by simp)
  · exact absurd h (by simp)

-- Nothing but an end of file, or an error taken for one, makes the relay return 0.
theorem endOfFile_of_returns {s : Shim} {e : ShimEnv} (hbefore : s.stage ≠ .returned 0)
    (h : (shimStep s e).stage = .returned 0) : ∃ side, side ∈ endOfFile s e := by
  unfold shimStep at h
  unfold endOfFile
  cases hstage : s.stage with
  | poll =>
      rw [hstage] at h
      cases hpoll : e.poll <;> simp [hpoll, shimPoll, hstage] at h
  | fromPppd r =>
      rw [hstage] at h
      cases hread : readInto s.toModem e.read with
      | none =>
          cases hr : r.stdin with
          | false => simp [hr] at h
          | true => simp [hr, (readInto_eq_none_iff _ _).mp hread]
      | some b => cases hr : r.stdin <;> simp [hr, hread] at h
  | toModem r =>
      rw [hstage] at h
      dsimp only at h
      split at h <;> simp at h
  | fromModem r =>
      rw [hstage] at h
      cases hread : readInto s.toPppd e.read with
      | none =>
          cases hr : r.fdIn with
          | false => simp [hr] at h
          | true => simp [hr, (readInto_eq_none_iff _ _).mp hread]
      | some b => cases hr : r.fdIn <;> simp [hr, hread] at h
  | toPppd r =>
      rw [hstage] at h
      dsimp only at h
      split at h <;> simp at h
  | returned rc =>
      rw [hstage] at h
      exact absurd h hbefore

theorem ShimBuf.Intact.drained_iff {b : ShimBuf} (h : b.Intact) :
    b.output = b.input ↔ b.off = b.len := by
  have hoff := h.off
  constructor
  · intro hdrained
    have hlen := congrArg List.length h.stream
    rw [List.length_append, span_length, hdrained] at hlen
    omega
  · intro hall
    have hstream := h.stream
    rwa [hall, span_self, List.append_nil] at hstream

theorem Shim.Intact.held {s : Shim} (h : s.Intact) (side : Side) : (s.held side).Intact := by
  cases side with
  | pppd => exact h.2
  | modem => exact h.1

theorem closesDrained_iff {s : Shim} (h : s.Intact) (e : ShimEnv) :
    ClosesDrained s e ↔ EndFindsNothing s e := by
  refine forall_congr' fun side => forall_congr' fun hside => ?_
  have hheld : (shimStep s e).held side = s.held side := by
    rw [shimStep_at_end hside]
    cases side <;> rfl
  constructor
  · intro hclosed
    rw [← (h.held side).drained_iff, ← hheld]
    exact hclosed.written
  · intro hnothing
    constructor
    · rw [shimStep_at_end hside]
    · rw [hheld]
      exact (h.held side).drained_iff.mpr hnothing

-- While the reads fit, what was read and what was written only differ by what is buffered.
theorem relay_drains_iff (toPppd toModem : Nat → UInt8) {es : List ShimEnv}
    (hroom : Along shimStep ReadHasRoom (shimStart toPppd toModem) es) :
    (∀ before e after, es = before ++ e :: after →
        ClosesDrained (smPppdShimMain toPppd toModem before) e) ↔
      Along shimStep EndFindsNothing (shimStart toPppd toModem) es := by
  have hintact : ∀ before e after, es = before ++ e :: after →
      (smPppdShimMain toPppd toModem before).Intact := by
    intro before e after hes
    rw [hes, along_append] at hroom
    have hstep (s : Shim) (e : ShimEnv) (h : s.Intact) (hfits : ReadHasRoom s e) :
        (shimStep s e).Intact := (shimStep_intact_iff h e).mpr hfits
    exact along_invariant hstep before (shimStart_intact toPppd toModem) hroom.1
  rw [along_iff_split]
  constructor
  · intro h before e after hes
    exact (closesDrained_iff (hintact before e after hes) e).mp (h before e after hes)
  · intro h before e after hes
    exact (closesDrained_iff (hintact before e after hes) e).mpr (h before e after hes)

-- pppd writes one flag and hangs up; the modem's end and the pty take whatever they are offered.
def lastFlag (hangUp : Bool) : List ShimEnv :=
  let quiet : Reported := ⟨false, false⟩
  let room : Reported := ⟨true, false⟩
  let wake : ShimEnv :=
    { poll := .ready ⟨true, hangUp⟩ quiet room room, read := .again, write := shimBuf }
  [wake, { wake with read := .data [0x7E] }, wake, wake, wake,
    wake, { wake with read := .closed }, wake, wake, wake,
    wake, { wake with read := .closed }]

instance : (b : ShimBuf) → (answer : ReadAnswer) → Decidable (readFits b answer)
  | _, .data _ => inferInstanceAs (Decidable (_ ≤ _))
  | _, .again => isTrue trivial
  | _, .closed => isTrue trivial

instance : (s : Shim) → (e : ShimEnv) → Decidable (ReadHasRoom s e)
  | ⟨_, _, .poll⟩, _ => isTrue trivial
  | ⟨_, toModem, .fromPppd r⟩, e => inferInstanceAs (Decidable (r.stdin → readFits toModem e.read))
  | ⟨_, _, .toModem _⟩, _ => isTrue trivial
  | ⟨toPppd, _, .fromModem r⟩, e => inferInstanceAs (Decidable (r.fdIn → readFits toPppd e.read))
  | ⟨_, _, .toPppd _⟩, _ => isTrue trivial
  | ⟨_, _, .returned _⟩, _ => isTrue trivial

instance (s : Shim) (e : ShimEnv) : Decidable (EndFindsNothing s e) :=
  inferInstanceAs (Decidable (∀ side ∈ endOfFile s e, _))

theorem late_hang_up_drains :
    (smPppdShimMain (fun _ => 0) (fun _ => 0) (lastFlag false)).stage = .returned 0 ∧
      ∀ before e after, lastFlag false = before ++ e :: after →
        ClosesDrained (smPppdShimMain (fun _ => 0) (fun _ => 0) before) e :=
  ⟨by decide,
    (relay_drains_iff (fun _ => 0) (fun _ => 0) (by decide)).mpr (by decide)⟩

instance : (s : Shim) → (e : ShimEnv) → Decidable (KeepsAccepting s e)
  | ⟨_, _, .poll⟩, ⟨.interrupted, _, _⟩ => isTrue trivial
  | ⟨_, _, .poll⟩, ⟨.failed, _, _⟩ => isTrue trivial
  | ⟨_, _, .poll⟩, ⟨.ready .., _, _⟩ => inferInstanceAs (Decidable (_ ∧ _))
  | ⟨_, _, .fromPppd _⟩, _ => isTrue trivial
  | ⟨_, _, .toModem _⟩, e => inferInstanceAs (Decidable (0 < e.write))
  | ⟨_, _, .fromModem _⟩, _ => isTrue trivial
  | ⟨_, _, .toPppd _⟩, e => inferInstanceAs (Decidable (0 < e.write))
  | ⟨_, _, .returned _⟩, _ => isTrue trivial

theorem hang_up_loses_the_last_flag :
    ¬ ∀ (toPppd toModem : Nat → UInt8) (es : List ShimEnv),
      Along shimStep KeepsAccepting (shimStart toPppd toModem) es →
        ∀ before e after, es = before ++ e :: after →
          ClosesDrained (smPppdShimMain toPppd toModem before) e := by
  intro h
  have haccepting : Along shimStep KeepsAccepting (shimStart (fun _ => 0) fun _ => 0)
      (lastFlag true) := by
    decide
  have hclosed := h _ _ _ haccepting ((lastFlag true).take 6) _ _ rfl .pppd (by decide)
  exact absurd hclosed.written (by decide)

end Softmodem.Ppp

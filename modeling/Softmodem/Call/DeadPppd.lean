import Softmodem.Call.ToLine

namespace Softmodem.Call

open AudioSocket Serial V22bis

inductive Disposition where
  | default
  | ignore
  | handler
  deriving DecidableEq, Repr

structure Signals where
  sigpipe : Disposition
  sigchld : Disposition
  sigterm : Disposition
  sigint : Disposition
  deriving DecidableEq, Repr

def initialSignals : Signals := ⟨.default, .default, .default, .default⟩

def daemonSignals (s : Signals) : Signals :=
  { s with sigpipe := .ignore, sigchld := .ignore, sigterm := .handler, sigint := .handler }

def forkSignals (s : Signals) : Signals := s

def callChildSignals (s : Signals) : Signals :=
  { s with sigpipe := .ignore, sigterm := .default, sigint := .default }

def callSignals : Signals := callChildSignals (forkSignals (daemonSignals initialSignals))

inductive Child where
  | absent
  | running
  | zombie
  | reaped
  deriving DecidableEq, Repr

inductive WaitResult where
  | pid
  | running
  | echild
  deriving DecidableEq, Repr

def terminate (sigchld : Disposition) (p : Child) : Child :=
  if p = .running then if sigchld = .ignore then .reaped else .zombie else p

def waitpid : Child → WaitResult × Child
  | .absent => (.echild, .absent)
  | .running => (.running, .running)
  | .zombie => (.pid, .reaped)
  | .reaped => (.echild, .reaped)

def Dead (p : Child) : Prop := p = .zombie ∨ p = .reaped

instance (p : Child) : Decidable (Dead p) := inferInstanceAs (Decidable (_ ∨ _))

structure DaemonCall where
  run : CallRun
  pppd : Child

structure DaemonTurn where
  turn : Turn
  pppdTerminates : Bool

def forkPppd (s : DaemonCall) (t : DaemonTurn) : Child :=
  if s.pppd = .absent ∧ (smCallTurn s.run t.turn).call.pppStarted then .running else s.pppd

def pppdInTurn (signals : Signals) (s : DaemonCall) (t : DaemonTurn) : Child :=
  if t.pppdTerminates then terminate signals.sigchld (forkPppd s t) else forkPppd s t

def daemonTurn (signals : Signals) (s : DaemonCall) (t : DaemonTurn) : DaemonCall :=
  let p := pppdInTurn signals s t
  if s.run.stage = .pump true then
    let (result, p) := waitpid p
    { run := smCallTurn s.run { t.turn with pppdExited := result == .pid }, pppd := p }
  else { run := smCallTurn s.run { t.turn with pppdExited := false }, pppd := p }

def daemonCall (cfg : SmCallConfig) (r : InitResults) (peer : Peer) : DaemonCall :=
  { run := smCallStart (smCallInit cfg r) peer, pppd := .absent }

def readsMessage (s : CallRun) : Bool :=
  decide (s.stage = .message ∧ s.call.phase ≠ .hangup) &&
    match (readMessage s).1 with
    | .message _ _ _ => true
    | .interrupted _ => false

def messagesRead (signals : Signals) : DaemonCall → List DaemonTurn → Nat
  | _, [] => 0
  | s, t :: ts => (readsMessage s.run).toNat + messagesRead signals (daemonTurn signals s t) ts

def Left (s : CallRun) : Prop := ∃ rc, s.stage = .finished rc

def ChecksDeadPppd (signals : Signals) (s : DaemonCall) (t : DaemonTurn) : Prop :=
  s.run.stage = .pump true ∧ Dead (pppdInTurn signals s t)

def DeadPppdEndsCall (signals : Signals) (s : DaemonCall) (turns : List DaemonTurn) : Prop :=
  (∀ before after, turns = before ++ after →
      Dead (Transition.run (daemonTurn signals) s before).pppd →
        messagesRead signals (Transition.run (daemonTurn signals) s before) after ≤ 1) ∧
    Transition.Along (daemonTurn signals)
      (fun s t => ChecksDeadPppd signals s t → Left (daemonTurn signals s t).run) s turns

def NoCheckOfDeadPppd (signals : Signals) (s : DaemonCall) (turns : List DaemonTurn) : Prop :=
  Transition.Along (daemonTurn signals) (fun s t => ¬ ChecksDeadPppd signals s t) s turns

theorem callSignals_sigchld : callSignals.sigchld = .ignore := rfl

section Run

variable {signals : Signals} {s : DaemonCall}

theorem pppdInTurn_dead (t : DaemonTurn) (h : Dead s.pppd) : pppdInTurn signals s t = s.pppd := by
  have hforked : forkPppd s t = s.pppd := by
    unfold forkPppd
    rw [if_neg]
    rintro ⟨habsent, -⟩
    rw [habsent] at h
    revert h
    decide
  unfold pppdInTurn terminate
  rw [hforked, if_neg (c := s.pppd = .running), ite_self]
  intro hrunning
  rw [hrunning] at h
  revert h
  decide

theorem waitpid_dead {p : Child} (h : Dead p) : Dead (waitpid p).2 := by
  rcases h with rfl | rfl
  · exact .inr rfl
  · exact .inr rfl

theorem daemonTurn_dead (t : DaemonTurn) (h : Dead s.pppd) : Dead (daemonTurn signals s t).pppd := by
  unfold daemonTurn
  rw [pppdInTurn_dead t h]
  split
  · exact waitpid_dead h
  · exact h

theorem daemonTurn_finished (t : DaemonTurn) {rc : Int} (h : s.run.stage = .finished rc) :
    (daemonTurn signals s t).run.stage = .finished rc := by
  unfold daemonTurn
  rw [if_neg (by simp [h])]
  simp [smCallTurn, h]

theorem readsMessage_stage (h : readsMessage s.run = true) : s.run.stage = .message := by
  simp only [readsMessage, Bool.and_eq_true, decide_eq_true_eq] at h
  exact h.1.1

theorem message_stages {r : CallRun} (t : Turn) (h : readsMessage r = true) :
    (smCallTurn r t).stage = .pump true ∨ Left (smCallTurn r t) := by
  simp only [readsMessage, Bool.and_eq_true, decide_eq_true_eq] at h
  obtain ⟨⟨hstage, hup⟩, hread⟩ := h
  simp only [smCallTurn, hstage, message, if_neg hup]
  rcases hr : readMessage r with ⟨⟨kind, payload, plen⟩ | why, r'⟩
  · simp only
    split_ifs
    · simp only [audioMessage]
      split
      · exact .inr ⟨0, rfl⟩
      · exact .inl rfl
    · exact .inr ⟨0, rfl⟩
    · exact .inr ⟨0, rfl⟩
    · exact .inl rfl
  · simp [hr] at hread

theorem messagesRead_finished {rc : Int} (h : s.run.stage = .finished rc) (ts : List DaemonTurn) :
    messagesRead signals s ts = 0 := by
  induction ts generalizing s with
  | nil => rfl
  | cons t ts ih =>
      have hnone : readsMessage s.run = false := by simp [readsMessage, h]
      rw [messagesRead, hnone, ih (daemonTurn_finished t h)]
      rfl

theorem messagesRead_blocked (hdead : Dead s.pppd) (h : s.run.stage = .pump true ∨ Left s.run)
    {ts : List DaemonTurn} (hts : NoCheckOfDeadPppd signals s ts) : messagesRead signals s ts = 0 := by
  rcases h with hpump | ⟨rc, hleft⟩
  · cases ts with
    | nil => rfl
    | cons t ts =>
        have hcheck : ChecksDeadPppd signals s t := by
          refine ⟨hpump, ?_⟩
          rw [pppdInTurn_dead t hdead]
          exact hdead
        exact absurd hcheck hts.1
  · exact messagesRead_finished hleft ts

theorem messagesRead_dead (hdead : Dead s.pppd) {ts : List DaemonTurn}
    (hts : NoCheckOfDeadPppd signals s ts) : messagesRead signals s ts ≤ 1 := by
  induction ts generalizing s with
  | nil => exact Nat.zero_le 1
  | cons t ts ih =>
      have hnext : Dead (daemonTurn signals s t).pppd := daemonTurn_dead t hdead
      rw [messagesRead]
      rcases hreads : readsMessage s.run with _ | _
      · have hrest := ih hnext hts.2
        simpa using hrest
      · have hstage : ¬ s.run.stage = .pump true := by simp [readsMessage_stage hreads]
        have hturn : (daemonTurn signals s t).run =
            smCallTurn s.run { t.turn with pppdExited := false } := by
          unfold daemonTurn
          rw [if_neg hstage]
        have hblocked := message_stages { t.turn with pppdExited := false } hreads
        rw [← hturn] at hblocked
        rw [messagesRead_blocked hnext hblocked hts.2]
        rfl

theorem pppdInTurn_reaped (hsig : signals.sigchld = .ignore) (t : DaemonTurn)
    (h : s.pppd ≠ .zombie) : pppdInTurn signals s t ≠ .zombie := by
  have hforked : forkPppd s t ≠ .zombie := by
    unfold forkPppd
    split
    · simp
    · exact h
  unfold pppdInTurn terminate
  rw [if_pos hsig]
  split_ifs
  · simp
  · exact hforked
  · exact hforked

theorem waitpid_zombie {p : Child} (h : p ≠ .zombie) :
    (waitpid p).1 ≠ .pid ∧ (waitpid p).2 ≠ .zombie := by
  cases p with
  | zombie => exact absurd rfl h
  | _ => simp [waitpid]

theorem daemonTurn_reaped (hsig : signals.sigchld = .ignore) (t : DaemonTurn)
    (h : s.pppd ≠ .zombie) : (daemonTurn signals s t).pppd ≠ .zombie := by
  have hin := pppdInTurn_reaped hsig t h
  unfold daemonTurn
  split
  · exact (waitpid_zombie hin).2
  · exact hin

theorem check_stays (hsig : signals.sigchld = .ignore) (h : s.pppd ≠ .zombie) {t : DaemonTurn}
    (hcheck : ChecksDeadPppd signals s t) : ¬ Left (daemonTurn signals s t).run := by
  have hwait := (waitpid_zombie (pppdInTurn_reaped hsig t h)).1
  have hexited : ((waitpid (pppdInTurn signals s t)).1 == .pid) = false := by simpa using hwait
  rintro ⟨rc, hleft⟩
  simp [daemonTurn, hcheck.1, hexited, smCallTurn, pump] at hleft

end Run

theorem dead_pppd_ends_the_call_iff (cfg : SmCallConfig) (r : InitResults) (peer : Peer)
    (turns : List DaemonTurn) :
    DeadPppdEndsCall callSignals (daemonCall cfg r peer) turns ↔
      NoCheckOfDeadPppd callSignals (daemonCall cfg r peer) turns := by
  constructor
  · rintro ⟨-, hleft⟩
    unfold NoCheckOfDeadPppd
    rw [Transition.along_iff_split] at hleft ⊢
    intro before t after heq hcheck
    have hreaped : (Transition.run (daemonTurn callSignals) (daemonCall cfg r peer) before).pppd ≠
        .zombie := by
      apply Transition.run_invariant (P := fun s : DaemonCall => s.pppd ≠ .zombie)
      · intro s t hs
        exact daemonTurn_reaped callSignals_sigchld t hs
      · simp [daemonCall]
    exact check_stays callSignals_sigchld hreaped hcheck (hleft before t after heq hcheck)
  · intro hno
    constructor
    · rintro before after rfl hdead
      exact messagesRead_dead hdead ((Transition.along_append before after).mp hno).2
    · rw [Transition.along_iff_split]
      intro before t after heq hcheck
      exact absurd hcheck (Transition.along_iff_split _ |>.mp hno before t after heq)

def hostedTurn (read : Option (List UInt8)) (pppdTerminates : Bool) : DaemonTurn :=
  { turn := { greedyTurn with pump := { spawned := true, writes := [], read := read } }
    pppdTerminates := pppdTerminates }

def livingTurns : List DaemonTurn := [hostedTurn none false, hostedTurn none false,
  hostedTurn none true]

def orphanTurns : List DaemonTurn :=
  List.replicate 4 (hostedTurn (some []) false)

theorem dead_pppd_keeps_the_call :
    ¬ DeadPppdEndsCall callSignals (daemonCall bmConfig plainInit (digitsPeer 3))
      (livingTurns ++ orphanTurns) := by
  rintro ⟨hread, -⟩
  have hone := hread livingTurns orphanTurns rfl (by decide)
  revert hone
  decide

end Softmodem.Call

import Softmodem.Bbs.Bound
import Softmodem.Bbs.Session
import Softmodem.Lib.Crossing

namespace Softmodem.Bbs

open CString Transition

-- What happens to a session; a feed is its entry and then its bytes.
inductive Event where
  | enter (bytes : Bytes)
  | byte (ch : UInt8)
  | tick (ms : UInt32)
  | takePpp (cap : Nat)

def step (e : Env) (s : Session) : Event → Session
  | .enter bytes =>
      if Left s then s
      else if startsPpp s bytes then { keepEarly s bytes with route := .ppp }
      else keepEarly s bytes
  | .byte ch => typed e s ch
  | .tick ms => tick e s ms
  | .takePpp cap => (takePpp s cap).1

-- An entry may keep bytes back for PPP and go over to it; it does nothing else.
theorem enter_frame (e : Env) (s : Session) (bytes : Bytes) :
    ∃ route ppp, step e s (.enter bytes) = { s with route := route, ppp := ppp } := by
  have hearly : ∃ ppp, keepEarly s bytes = { s with ppp := ppp } := by
    rw [keepEarly]
    split
    · exact ⟨_, rfl⟩
    · exact ⟨s.ppp, rfl⟩
  obtain ⟨ppp, hppp⟩ := hearly
  rw [step, hppp]
  split
  · exact ⟨s.route, s.ppp, rfl⟩
  · split
    · exact ⟨.ppp, ppp, rfl⟩
    · exact ⟨s.route, ppp, rfl⟩

def fed (s : Session) (bytes : Bytes) : List Event :=
  if Left s ∨ startsPpp s bytes then [.enter bytes] else .enter bytes :: bytes.map .byte

theorem run_byte (e : Env) (s : Session) (bytes : Bytes) :
    run (step e) s (bytes.map .byte) = run (typed e) s bytes := by
  induction bytes generalizing s with
  | nil => rfl
  | cons ch bytes ih => exact ih (typed e s ch)

theorem feed_eq_run (e : Env) (s : Session) (bytes : Bytes) :
    feed e s bytes = run (step e) s (fed s bytes) := by
  rw [feed, fed]
  by_cases hleft : Left s
  · simp [hleft, step]
  · by_cases hstart : startsPpp s bytes
    · simp [hleft, hstart, step]
    · simp [hleft, hstart, step, run_byte]

-- The calls the modem makes of a session.
inductive Call where
  | feed (bytes : Bytes)
  | tick (ms : UInt32)
  | takePpp (cap : Nat)

def called (e : Env) (s : Session) : Call → Session
  | .feed bytes => feed e s bytes
  | .tick ms => tick e s ms
  | .takePpp cap => (takePpp s cap).1

def Call.events (s : Session) : Call → List Event
  | .feed bytes => fed s bytes
  | .tick ms => [.tick ms]
  | .takePpp cap => [.takePpp cap]

def eventsOf (e : Env) : Session → List Call → List Event
  | _, [] => []
  | s, call :: calls => call.events s ++ eventsOf e (called e s call) calls

theorem called_eq_run (e : Env) (s : Session) (call : Call) :
    called e s call = run (step e) s (call.events s) := by
  cases call with
  | feed bytes => exact feed_eq_run e s bytes
  | tick ms => rfl
  | takePpp cap => rfl

theorem calls_eq_run (e : Env) (s : Session) (calls : List Call) :
    run (called e) s calls = run (step e) s (eventsOf e s calls) := by
  induction calls generalizing s with
  | nil => rfl
  | cons call calls ih =>
      have hhead := called_eq_run e s call
      rw [run_cons, ih, eventsOf, run_append, ← hhead]

def Authenticated (stage : Stage) : Prop :=
  stage ∈ [.termQuery, .termAsk, .main, .termMenu, .termAnsi, .termSize, .termCharset, .doors,
    Stage.door]

structure Held (s t : Session) : Prop where
  inside : Authenticated t.stage
  bound : Bound s.toCaller t.toCaller

section Inside

variable (e : Env) {s : Session}

theorem authenticated_main : Authenticated .main := by simp [Authenticated]

theorem held_of_eq (h : Authenticated s.stage) {t : Session} (hstage : t.stage = s.stage)
    (huser : t.userId = s.userId) (hlog : t.log = s.log) : Held s t :=
  ⟨hstage ▸ h, .of_eq huser hlog⟩

theorem beginTerminal_held (s : Session) : Held s (beginTerminal e s) := by
  rw [beginTerminal]
  split
  · exact ⟨authenticated_main, recordConnection_bound ..⟩
  · exact ⟨by simp [Authenticated], .refl _⟩

theorem ansiLine_held (s : Session) (line : Bytes) : Held s (ansiLine e s line) := by
  refine ⟨authenticated_main, ?_⟩
  apply Bound.trans _ (recordConnection_bound e _)
  apply Bound.trans _ (terminalSave_bound e _)
  exact .of_eq rfl rfl

theorem mainLine_held (h : s.stage = .main) (line : Bytes) : Held s (mainLine e s line) := by
  have hmain : Authenticated s.stage := h ▸ authenticated_main
  rw [mainLine]
  repeat' split
  · exact ⟨by simp [Authenticated], openDoors_bound ..⟩
  · exact ⟨hmain, connectionScreen_bound e _⟩
  · exact ⟨by simp [Authenticated], .refl _⟩
  · exact ⟨hmain, history_bound ..⟩
  · exact ⟨hmain, .refl _⟩
  · exact ⟨hmain, .refl _⟩
  · exact ⟨authenticated_main, .refl _⟩

theorem termMenuLine_held (s : Session) (line : Bytes) : Held s (termMenuLine s line) := by
  rw [termMenuLine]
  repeat' split
  all_goals exact ⟨by simp [Authenticated, promptMain], .refl _⟩

theorem termSizeLine_held (s : Session) (line : Bytes) : Held s (termSizeLine e s line) := by
  rw [termSizeLine]
  split
  · split
    · refine ⟨authenticated_main, Bound.trans ?_ (terminalSave_bound e _)⟩
      exact .of_eq rfl rfl
    · exact ⟨authenticated_main, .refl _⟩
  · exact ⟨authenticated_main, .refl _⟩

theorem termCharsetLine_held (s : Session) (line : Bytes) : Held s (termCharsetLine e s line) := by
  refine ⟨authenticated_main, Bound.trans ?_ (terminalSave_bound e _)⟩
  exact .of_eq rfl rfl

theorem doorsLine_held (h : s.stage = .doors) (line : Bytes) : Held s (doorsLine e s line) := by
  rw [doorsLine]
  split
  · exact ⟨authenticated_main, .refl _⟩
  · split
    · exact ⟨by simp [Authenticated], Door.open_bound ..⟩
    · exact ⟨by simp [Authenticated, h], .refl _⟩

theorem doorLine_held (h : s.stage = .door) (line : Bytes) : Held s (doorLine e s line) := by
  rw [doorLine]
  split
  · next door _ =>
      have hinput := Door.input_bound e s.toCaller door line
      dsimp only
      split
      · exact ⟨by simp [Authenticated], hinput⟩
      · exact ⟨by simp [Authenticated, h], hinput⟩
  · exact ⟨by simp [Authenticated, h], .refl _⟩

theorem handleLine_held (h : Authenticated s.stage) (line : Bytes) :
    Held s (handleLine e s line) := by
  rw [handleLine]
  cases hstage : s.stage with
  | select => simp [hstage, Authenticated] at h
  | login => simp [hstage, Authenticated] at h
  | password => simp [hstage, Authenticated] at h
  | newName => simp [hstage, Authenticated] at h
  | newPassword => simp [hstage, Authenticated] at h
  | termQuery => exact ⟨authenticated_main, .refl _⟩
  | termAsk => exact ansiLine_held ..
  | termAnsi => exact ansiLine_held ..
  | main => exact mainLine_held e hstage _
  | termMenu => exact termMenuLine_held ..
  | termSize => exact termSizeLine_held ..
  | termCharset => exact termCharsetLine_held ..
  | doors => exact doorsLine_held e hstage _
  | door => exact doorLine_held e hstage _

theorem typed_held (h : Authenticated s.stage) (ch : UInt8) : Held s (typed e s ch) := by
  rw [typed]
  split
  · rw [answered]
    split
    · exact held_of_eq h rfl rfl rfl
    · exact held_of_eq h rfl rfl rfl
  · split
    · split
      · exact held_of_eq h rfl rfl rfl
      · have hline := handleLine_held e h s.line
        exact ⟨hline.inside, hline.bound⟩
    · split
      · exact held_of_eq h rfl rfl rfl
      · split
        · exact held_of_eq h rfl rfl rfl
        · exact held_of_eq h rfl rfl rfl

theorem reported_frame (s : Session) :
    (reported s).stage = s.stage ∧ (reported s).userId = s.userId ∧
      (reported s).log = s.log := by
  simp only [reported]
  repeat' split
  all_goals exact ⟨rfl, rfl, rfl⟩

theorem tick_held (h : Authenticated s.stage) (ms : UInt32) : Held s (tick e s ms) := by
  obtain ⟨hstage, huser, hlog⟩ := reported_frame { s with queryMs := s.queryMs + ms }
  rw [tick]
  split
  · exact held_of_eq h rfl rfl rfl
  · dsimp only
    split
    · exact held_of_eq h hstage huser hlog
    · split
      · refine ⟨authenticated_main, ?_⟩
        apply Bound.trans _ (recordConnection_bound e _)
        apply Bound.trans _ (terminalSave_bound e _)
        exact .of_eq huser hlog
      · exact ⟨by simp [Authenticated], .of_eq huser hlog⟩

theorem step_held (h : Authenticated s.stage) (event : Event) : Held s (step e s event) := by
  cases event with
  | enter bytes =>
      obtain ⟨route, ppp, henter⟩ := enter_frame e s bytes
      rw [henter]
      exact held_of_eq h rfl rfl rfl
  | byte ch => exact typed_held e h ch
  | tick ms => exact tick_held e h ms
  | takePpp cap => exact held_of_eq h rfl rfl rfl

end Inside

section Outside

def typedLine (s : Session) : Bytes := s.line.dropWhile isSpace

-- How a line end lets a caller in, and what of it stands in the log.
inductive Granted (e : Env) (s : Session) (c : Caller) : Prop where
  | login (columns : List Int) (stage : s.stage = .password)
      (found : loginLookup e s.toCaller s.pendingName (typedLine s) = (c, true))
      (log : c.log = s.log ++ [(.selectUser s.pendingName,
        .row columns (some (hex16 (passwordHash s.pendingName (typedLine s)))))])
      (userId : c.userId = toInt (columns.getD 0 0))
  | register (rowid createdAt : Int) (stage : s.stage = .newPassword)
      (made : registerUser e s.toCaller s.pendingName (typedLine s) = (c, true))
      (log : c.log = s.log ++ [(.insertUser s.pendingName
        (hex16 (passwordHash s.pendingName (typedLine s))) createdAt, .done rowid)])
      (userId : c.userId = toInt rowid)

section Callers

variable (e : Env) (c : Caller) (name pass : Bytes)

theorem ask_log (q : Statement) : (ask e c q).1.log = c.log ++ [(q, (ask e c q).2)] := rfl

theorem loginLookup_matched {d : Caller} (h : loginLookup e c name pass = (d, true)) :
    ∃ columns : List Int,
      d.log = c.log ++ [(.selectUser name, .row columns (some (hex16 (passwordHash name pass))))] ∧
        d.userId = toInt (columns.getD 0 0) := by
  have hlog := ask_log e c (.selectUser name)
  rw [loginLookup] at h
  split at h
  · next asked columns stored hask =>
      rw [hask] at hlog
      split at h
      · next hmatch =>
          rw [hmatch] at hlog
          obtain ⟨rfl, -⟩ := Prod.mk.inj h
          exact ⟨columns, hlog, rfl⟩
      · exact absurd (Prod.mk.inj h).2 (by simp)
  · exact absurd (Prod.mk.inj h).2 (by simp)

theorem loginLookup_failed {d : Caller} (h : loginLookup e c name pass = (d, false)) :
    ∃ a, d.log = c.log ++ [(.selectUser name, a)] := by
  have hlog := ask_log e c (.selectUser name)
  rw [loginLookup] at h
  split at h
  · next hask =>
      rw [hask] at hlog
      split at h
      · exact absurd (Prod.mk.inj h).2 (by simp)
      · obtain ⟨rfl, -⟩ := Prod.mk.inj h
        exact ⟨_, hlog⟩
  · next hask =>
      rw [hask] at hlog
      obtain ⟨rfl, -⟩ := Prod.mk.inj h
      exact ⟨_, hlog⟩

theorem lastId_append {log : Log} {x : Statement × Answer} {id : Int}
    (h : Statement.inserted x = some id) : lastId (log ++ [x]) = id := by
  rw [lastId, List.filterMap_append]
  simp [h]

theorem inserted_of_done {hash : Bytes} {createdAt : Int}
    (h : (ask e c (.insertUser name hash createdAt)).2.Done) :
    ∃ rowid, (ask e c (.insertUser name hash createdAt)).2 = .done rowid := by
  have hplain := e.inserts c.log name hash createdAt
  rw [ask] at h ⊢
  dsimp only at h ⊢
  split at h
  · next hopen =>
      rw [if_pos hopen]
      cases hanswer : e.answer c.log (.insertUser name hash createdAt) with
      | refused => simp [hanswer, Answer.Done] at h
      | row columns text => simp [hanswer, Answer.Done] at h
      | done rowid => exact ⟨rowid, rfl⟩
      | existed => exact absurd hanswer hplain
      | failed => simp [hanswer, Answer.Done] at h
  · exact h.elim

theorem clocked_log (p : Prop) [Decidable p] :
    (if p then c else { c with clock := c.clock + 1 }).log = c.log := by
  split
  · rfl
  · rfl

theorem registerUser_inserted {d : Caller} (h : registerUser e c name pass = (d, true)) :
    ∃ rowid createdAt : Int,
      d.log = c.log ++ [(.insertUser name (hex16 (passwordHash name pass)) createdAt,
        .done rowid)] ∧ d.userId = toInt rowid := by
  rw [registerUser] at h
  split at h
  · exact absurd (Prod.mk.inj h).2 (by simp)
  · dsimp only at h
    split at h
    · next hdone =>
        obtain ⟨rowid, hrow⟩ := inserted_of_done e c name hdone
        have hlog := ask_log e c
          (.insertUser name (hex16 (passwordHash name pass)) (e.time c.clock))
        rw [hrow] at hlog
        obtain ⟨rfl, -⟩ := Prod.mk.inj h
        refine ⟨rowid, e.time c.clock, (clocked_log ..).trans hlog, ?_⟩
        show toInt (lastId _) = toInt rowid
        rw [clocked_log, hlog, lastId_append rfl]
    · exact absurd (Prod.mk.inj h).2 (by simp)

theorem registerUser_failed {d : Caller} (h : registerUser e c name pass = (d, false)) :
    ∃ new, d.log = c.log ++ new ∧ Anonymous new := by
  rw [registerUser] at h
  split at h
  · obtain ⟨rfl, -⟩ := Prod.mk.inj h
    exact ⟨[], by simp, fun _ hx => absurd hx List.not_mem_nil⟩
  · dsimp only at h
    split at h
    · exact absurd (Prod.mk.inj h).2 (by simp)
    · obtain ⟨rfl, -⟩ := Prod.mk.inj h
      refine ⟨_, (clocked_log ..).trans (ask_log ..), ?_⟩
      intro x hx
      rw [List.mem_singleton.mp hx]
      rfl

end Callers

-- How a line end leads in: the session, the event and the session after it.
def Enters (e : Env) (s : Session) (event : Event) (t : Session) : Prop :=
  (event = .byte 13 ∨ event = .byte 10) ∧ s.line ≠ [] ∧
    ∃ c, Granted e s c ∧ Bound c t.toCaller

theorem Anonymous.append {log new : Log} (h : Anonymous log) (hnew : Anonymous new) :
    Anonymous (log ++ new) := by
  intro x hx
  rcases List.mem_append.mp hx with hx | hx
  · exact h x hx
  · exact hnew x hx

def Outside (s : Session) : Prop := ¬ Authenticated s.stage ∧ Anonymous s.log

section Lines

variable (e : Env) {s : Session}

theorem passwordLine_cases (hstage : s.stage = .password) (h : Anonymous s.log) :
    Outside (passwordLine e s (typedLine s)) ∨
      Authenticated (passwordLine e s (typedLine s)).stage ∧
        ∃ c, Granted e s c ∧ Bound c (passwordLine e s (typedLine s)).toCaller := by
  rw [passwordLine]
  cases hlookup : loginLookup e s.toCaller s.pendingName (typedLine s) with
  | mk c found =>
      cases found with
      | true =>
          obtain ⟨columns, hlog, huser⟩ := loginLookup_matched e _ _ _ hlookup
          have hheld := beginTerminal_held e { s with toCaller := c }
          exact .inr ⟨hheld.inside, c, .login columns hstage hlookup hlog huser, hheld.bound⟩
      | false =>
          obtain ⟨a, hlog⟩ := loginLookup_failed e _ _ _ hlookup
          refine .inl ⟨by simp [Authenticated], ?_⟩
          show Anonymous c.log
          rw [hlog]
          exact h.append fun x hx => by rw [List.mem_singleton.mp hx]; rfl

theorem newPasswordLine_cases (hstage : s.stage = .newPassword) (h : Anonymous s.log) :
    Outside (newPasswordLine e s (typedLine s)) ∨
      Authenticated (newPasswordLine e s (typedLine s)).stage ∧
        ∃ c, Granted e s c ∧ Bound c (newPasswordLine e s (typedLine s)).toCaller := by
  rw [newPasswordLine]
  cases hregister : registerUser e s.toCaller s.pendingName (typedLine s) with
  | mk c made =>
      cases made with
      | true =>
          obtain ⟨rowid, createdAt, hlog, huser⟩ := registerUser_inserted e _ _ _ hregister
          have hheld := beginTerminal_held e { s with toCaller := c }
          exact .inr ⟨hheld.inside, c, .register rowid createdAt hstage hregister hlog huser,
            hheld.bound⟩
      | false =>
          obtain ⟨new, hlog, hnew⟩ := registerUser_failed e _ _ _ hregister
          refine .inl ⟨by simp [Authenticated], ?_⟩
          show Anonymous c.log
          rw [hlog]
          exact h.append hnew

theorem outside_stage {stage : Stage} (h : ¬ Authenticated stage) :
    stage = .select ∨ stage = .login ∨ stage = .password ∨ stage = .newName ∨
      stage = .newPassword := by
  cases stage <;> simp [Authenticated] at h ⊢

theorem handleLine_cases (h : Outside s) :
    Outside (handleLine e s s.line) ∨
      Authenticated (handleLine e s s.line).stage ∧
        ∃ c, Granted e s c ∧ Bound c (handleLine e s s.line).toCaller := by
  obtain ⟨hout, hlog⟩ := h
  rw [handleLine]
  rcases outside_stage hout with hstage | hstage | hstage | hstage | hstage
  · left
    simp only [hstage, selectLine]
    split
    · exact ⟨by simp [Authenticated], hlog⟩
    · exact ⟨by simp [Authenticated], hlog⟩
  · left
    simp only [hstage, loginLine]
    split
    · exact ⟨by simp [Authenticated], hlog⟩
    · exact ⟨by simp [Authenticated], hlog⟩
  · simp only [hstage]
    exact passwordLine_cases e hstage hlog
  · left
    simp only [hstage]
    exact ⟨by simp [Authenticated], hlog⟩
  · simp only [hstage]
    exact newPasswordLine_cases e hstage hlog

theorem typed_cases (h : Outside s) (ch : UInt8) :
    Outside (typed e s ch) ∨
      Authenticated (typed e s ch).stage ∧ Enters e s (.byte ch) (typed e s ch) := by
  rw [typed]
  split
  · next hquery => exact absurd (by simp [Authenticated, hquery]) h.1
  · split
    · next hend =>
        split
        · exact .inl h
        · next hline =>
            refine (handleLine_cases e h).imp id fun ⟨hinside, hgranted⟩ => ?_
            refine ⟨hinside, ?_, hline, hgranted⟩
            exact hend.imp (congrArg Event.byte) (congrArg Event.byte)
    · split
      · exact .inl h
      · split
        · exact .inl h
        · exact .inl h

theorem step_cases (h : Outside s) (event : Event) :
    Outside (step e s event) ∨
      Authenticated (step e s event).stage ∧ Enters e s event (step e s event) := by
  cases event with
  | enter bytes =>
      left
      obtain ⟨route, ppp, henter⟩ := enter_frame e s bytes
      rw [henter]
      exact h
  | byte ch => exact typed_cases e h ch
  | tick ms =>
      left
      rw [step, tick, if_pos fun hquery => h.1 (by simp [Authenticated, hquery])]
      exact h
  | takePpp cap => exact .inl h

end Lines

theorem create_outside (e : Env) (about : ConnectionMeta) : Outside (create e about) :=
  ⟨by simp [create, Authenticated], fun _ hx => absurd hx List.not_mem_nil⟩

end Outside

section Gate

variable (e : Env)

-- The line end that let the caller in, and all that has happened since.
def LoggedIn (s : Session) (events : List Event) : Prop :=
  ∃ before event after c, events = before ++ event :: after ∧
    (event = .byte 13 ∨ event = .byte 10) ∧ Outside (run (step e) s before) ∧
      Granted e (run (step e) s before) c ∧ Bound c (run (step e) s events).toCaller

structure Gate (s : Session) (events : List Event) : Prop where
  outside : ¬ Authenticated (run (step e) s events).stage → Anonymous (run (step e) s events).log
  inside : Authenticated (run (step e) s events).stage → LoggedIn e s events
  onward : Authenticated (run (step e) s events).stage → ∀ later,
    Held (run (step e) s events) (run (step e) s (events ++ later))
  closing : ∃ new, destroy e (run (step e) s events) = (run (step e) s events).log ++ new ∧
    Anonymous new

theorem destroy_anonymous (s : Session) :
    ∃ new, destroy e s = s.log ++ new ∧ Anonymous new := by
  rw [destroy]
  split
  · refine ⟨_, ask_log .., fun x hx => ?_⟩
    rw [List.mem_singleton.mp hx]
    rfl
  · exact ⟨[], (List.append_nil _).symm, fun _ hx => absurd hx List.not_mem_nil⟩

theorem gate_crossing :
    Crossing (step e) (fun s => Authenticated s.stage) (fun s => Anonymous s.log) (Enters e)
      (fun s t => Bound s.toCaller t.toCaller) where
  refl s := .refl s.toCaller
  trans _ _ _ := Bound.trans
  stays _ event hs :=
    have hheld := step_held e hs event
    ⟨hheld.inside, hheld.bound⟩
  crosses _ event hs hlog := step_cases e ⟨hs, hlog⟩ event

theorem outside_or_loggedIn {s : Session} (h : Outside s) (events : List Event) :
    Outside (run (step e) s events) ∨
      Authenticated (run (step e) s events).stage ∧ LoggedIn e s events := by
  refine ((gate_crossing e).run_outside h.1 h.2 events).imp id ?_
  rintro ⟨hin, before, event, after, hsplit, hout, hlog, henters, hkept⟩
  obtain ⟨hend, -, c, hgranted, hbound⟩ := henters
  exact ⟨hin, before, event, after, c, hsplit, hend, ⟨hout, hlog⟩, hgranted, hbound.trans hkept⟩

theorem authentication_gate (about : ConnectionMeta) (events : List Event) :
    Gate e (create e about) events := by
  have hcases := outside_or_loggedIn e (create_outside e about) events
  refine ⟨fun hout => ?_, fun hin => ?_, fun hin later => ?_, destroy_anonymous e _⟩
  · rcases hcases with h | h
    · exact h.2
    · exact absurd h.1 hout
  · rcases hcases with h | h
    · exact absurd hin h.1
    · exact h.2
  · rw [run_append]
    obtain ⟨hinside, hkept⟩ := (gate_crossing e).run_inside hin later
    exact ⟨hinside, hkept⟩

end Gate

section Example

-- A board with one account, whose terminal is known.
def oneAccount : Env where
  opened := true
  answer _ q :=
    if q = .selectUser (ascii "sysop") then
      .row [7, 0, 10, 1, 1, 80, 24, 0] (some (hex16 (passwordHash (ascii "sysop") (ascii "key"))))
    else .failed
  time _ := 1
  inserts _ _ _ _ := by simp

def quietLine : ConnectionMeta :=
  { protocol := [], txBps := 0, rxBps := 0, connectedAt := 1, audioCodec := [], packetsRx := 0
    packetsTx := 0, packetsLost := 0, jitter := 0 }

example : (run (called oneAccount) (create oneAccount quietLine)
    [.feed (ascii "BBS\rsysop\rno\r"), .feed (ascii "sysop\rkey\r")]).stage = .main := by
  decide

end Example

end Softmodem.Bbs

import Softmodem.Bbs.Geometry

namespace Softmodem.Bbs

open CString Transition

-- The row that a statement has put into the table of connections.
def Statement.recorded : Statement × Answer → Option Int
  | (.insertConnection .., .done rowid) => some rowid
  | _ => none

def Inserted (log : Log) (id : Int) : Prop := ∃ x ∈ log, Statement.recorded x = some id

-- The id whose row of connections a statement has changed.
def Statement.updated : Statement × Answer → Option Int
  | (.updateConnection _ _ _ _ id, a) => if a.Done then some id else none
  | _ => none

def updatedRows (rows : List Int) (log : Log) : List Int :=
  rows.filter fun id => id ∈ log.filterMap Statement.updated

-- Whatever rows the table holds by then, the end of the session changes only its own.
def UpdatesOwnRow (e : Env) (s : Session) : Prop :=
  ∀ rows, ∀ id ∈ updatedRows rows (destroy e s), Inserted s.log id

-- An insert into connections that was prepared and has made no row.
def FailedInsert : Statement × Answer → Prop
  | (.insertConnection .., .refused) => False
  | (.insertConnection .., .done _) => False
  | (.insertConnection .., _) => True
  | _ => False

def SafeInsert (log : Log) (x : Statement × Answer) : Prop := FailedInsert x → lastId log = 0

def InsertsSafe (log : Log) : Prop := Along (fun log x => log ++ [x]) SafeInsert [] log

def closing (e : Env) (s : Session) : Statement :=
  .updateConnection (e.time s.clock) (e.time s.clock - s.about.connectedAt) (terminalType s.ansi)
    s.ansi s.connectionId

section Rows

variable {log : Log} {x : Statement × Answer} {id : Int}

theorem run_snoc (log new : Log) : run (fun log x => log ++ [x]) log new = log ++ new := by
  induction new generalizing log with
  | nil => simp
  | cons x new ih => simp [ih]

theorem insertsSafe_append : InsertsSafe (log ++ [x]) ↔ InsertsSafe log ∧ SafeInsert log x := by
  rw [InsertsSafe, along_append, run_snoc]
  simp [InsertsSafe, Along]

theorem inserted_append :
    Inserted (log ++ [x]) id ↔ Inserted log id ∨ Statement.recorded x = some id := by
  simp [Inserted, or_and_right, exists_or]

theorem lastId_kept (h : Statement.inserted x = none) : lastId (log ++ [x]) = lastId log := by
  rw [lastId, List.filterMap_append]
  simp [h, lastId]

end Rows

def Statement.Recording : Statement → Prop
  | .insertConnection .. => True
  | .updateConnection .. => True
  | _ => False

-- The connection id that the statements of a session leave it with.
inductive Records : Log → Int → Prop where
  | start : Records [] 0
  | other {log : Log} {id : Int} {q : Statement} (a : Answer) (h : Records log id)
      (hq : ¬ q.Recording) : Records (log ++ [(q, a)]) id
  | refused {log : Log} {id : Int} (userId : Int) (about : ConnectionMeta) (type : Bytes)
      (ansi : Int) (h : Records log id) :
      Records (log ++ [(.insertConnection userId about type ansi, .refused)]) id
  | attempt {log : Log} {a : Answer} (userId : Int) (about : ConnectionMeta) (type : Bytes)
      (ansi : Int) (h : Records log 0) (ha : a ≠ .refused) :
      Records (log ++ [(.insertConnection userId about type ansi, a)])
        (lastId (log ++ [(.insertConnection userId about type ansi, a)]))

namespace Records

variable {log : Log} {id : Int}

theorem filterMap_updated (h : Records log id) : log.filterMap Statement.updated = [] := by
  induction h with
  | start => rfl
  | @other log id q a h hq ih =>
      cases q with
      | updateConnection => exact absurd trivial hq
      | _ => simp [ih, Statement.updated]
  | refused => simp [*, Statement.updated]
  | attempt => simp [*, Statement.updated]

-- No id means that nothing was inserted; an id is that of the last row of any table.
structure Standing (log : Log) (id : Int) : Prop where
  unset : id = 0 → InsertsSafe log ∧ ∀ rowid, Inserted log rowid → rowid = 0
  set : id ≠ 0 → (Inserted log id ↔ InsertsSafe log)

theorem Standing.of_iff {log' : Log} (h : Standing log id)
    (hinserted : ∀ rowid, Inserted log' rowid ↔ Inserted log rowid)
    (hsafe : InsertsSafe log' ↔ InsertsSafe log) : Standing log' id := by
  refine ⟨fun hid => ?_, fun hid => ?_⟩
  · obtain ⟨hlog, hnone⟩ := h.unset hid
    exact ⟨hsafe.mpr hlog, fun rowid hrow => hnone rowid ((hinserted rowid).mp hrow)⟩
  · rw [hinserted, hsafe]
    exact h.set hid

theorem Standing.inserted {x : Statement × Answer} {rowid : Int} (h : Standing log 0)
    (hlast : lastId (log ++ [x]) = rowid) (hrecorded : Statement.recorded x = some rowid)
    (hdone : ¬ FailedInsert x) : Standing (log ++ [x]) (lastId (log ++ [x])) := by
  obtain ⟨hsafe, hnone⟩ := h.unset rfl
  have hsafe' : InsertsSafe (log ++ [x]) :=
    insertsSafe_append.mpr ⟨hsafe, fun hfailed => absurd hfailed hdone⟩
  rw [hlast]
  refine ⟨fun hid => ⟨hsafe', fun other hother => ?_⟩, fun _ => ?_⟩
  · rcases inserted_append.mp hother with hold | hnew
    · exact hnone other hold
    · rw [hrecorded] at hnew
      exact (Option.some.inj hnew).symm.trans hid
  · exact ⟨fun _ => hsafe', fun _ => inserted_append.mpr (.inr hrecorded)⟩

theorem Standing.failed {x : Statement × Answer} (h : Standing log 0)
    (hlast : lastId (log ++ [x]) = lastId log) (hrecorded : Statement.recorded x = none)
    (hfailed : FailedInsert x) : Standing (log ++ [x]) (lastId (log ++ [x])) := by
  obtain ⟨hsafe, hnone⟩ := h.unset rfl
  have hnone' (rowid : Int) (hrow : Inserted (log ++ [x]) rowid) : rowid = 0 := by
    rcases inserted_append.mp hrow with hold | hnew
    · exact hnone rowid hold
    · simp [hrecorded] at hnew
  rw [hlast]
  refine ⟨fun hid => ⟨insertsSafe_append.mpr ⟨hsafe, fun _ => hid⟩, hnone'⟩, fun hid => ?_⟩
  constructor
  · intro hrow
    exact absurd (hnone' _ hrow) hid
  · intro hlog
    exact absurd ((insertsSafe_append.mp hlog).2 hfailed) hid

theorem standing (h : Records log id) : Standing log id := by
  induction h with
  | start => exact ⟨fun _ => ⟨trivial, by simp [Inserted]⟩, fun hid => absurd rfl hid⟩
  | @other log id q a h hq ih =>
      have hrecorded : Statement.recorded (q, a) = none := by
        cases q with
        | insertConnection => exact absurd trivial hq
        | _ => rfl
      have hdone : ¬ FailedInsert (q, a) := by
        cases q with
        | insertConnection => exact absurd trivial hq
        | _ => exact not_false
      refine ih.of_iff (fun rowid => ?_) ?_
      · simp [inserted_append, hrecorded]
      · simp [insertsSafe_append, SafeInsert, hdone]
  | refused userId about type ansi h ih =>
      refine ih.of_iff (fun rowid => ?_) ?_
      · simp [inserted_append, Statement.recorded]
      · simp [insertsSafe_append, SafeInsert, FailedInsert]
  | @attempt log a userId about type ansi h ha ih =>
      cases a with
      | refused => exact absurd rfl ha
      | done rowid => exact ih.inserted (lastId_append rfl) rfl not_false
      | row columns text => exact ih.failed (lastId_kept rfl) rfl trivial
      | existed => exact ih.failed (lastId_kept rfl) rfl trivial
      | failed => exact ih.failed (lastId_kept rfl) rfl trivial

end Records

structure Tracked (c : Caller) : Prop where
  records : Records c.log c.connectionId
  closed : c.db = false → c.connectionId = 0

section Database

variable (e : Env) {c : Caller}

theorem Tracked.of_eq {d : Caller} (h : Tracked c) (hlog : d.log = c.log)
    (hid : d.connectionId = c.connectionId) (hdb : d.db = c.db) : Tracked d := by
  refine ⟨?_, ?_⟩
  · rw [hlog, hid]
    exact h.records
  · rw [hid, hdb]
    exact h.closed

theorem ask_tracked (h : Tracked c) {q : Statement} (hq : ¬ q.Recording) :
    Tracked (ask e c q).1 :=
  ⟨.other _ h.records hq, h.closed⟩

theorem recordConnection_tracked (h : Tracked c) : Tracked (recordConnection e c) := by
  rw [recordConnection]
  split
  · exact h
  · next hnew =>
    have hid : c.connectionId = 0 := by
      by_contra hset
      exact hnew (.inl hset)
    have hzero : Records c.log 0 := hid ▸ h.records
    dsimp only
    split
    · next hrefused =>
      refine ⟨?_, h.closed⟩
      rw [ask_log, hrefused]
      exact .refused _ _ _ _ h.records
    · next hasked =>
      refine ⟨.attempt _ _ _ _ hzero hasked, fun hdb => ?_⟩
      have hdb' : c.db = false := hdb
      exact absurd (by simp [ask, hdb']) hasked

theorem loginLookup_tracked (h : Tracked c) (name pass : Bytes) :
    Tracked (loginLookup e c name pass).1 := by
  have hasked : Tracked (ask e c (.selectUser name)).1 := ask_tracked e h id
  rw [loginLookup]
  split
  · next hask =>
    rw [hask] at hasked
    split
    · exact hasked.of_eq rfl rfl rfl
    · exact hasked
  · next hask =>
    rw [hask] at hasked
    exact hasked

theorem registerUser_tracked (h : Tracked c) (name pass : Bytes) :
    Tracked (registerUser e c name pass).1 := by
  have hasked : Tracked
      (ask e c (.insertUser name (hex16 (passwordHash name pass)) (e.time c.clock))).1 :=
    ask_tracked e h id
  have hclocked (d : Caller) (hd : Tracked d) (p : Prop) [Decidable p] :
      Tracked (if p then d else { d with clock := d.clock + 1 }) := by
    split
    · exact hd
    · exact hd.of_eq rfl rfl rfl
  rw [registerUser]
  split
  · exact h
  · dsimp only
    split
    · exact (hclocked _ hasked _).of_eq rfl rfl rfl
    · exact hclocked _ hasked _

theorem DoorMove.tracked {e : Env} {d : Caller} (h : DoorMove e c d) (hc : Tracked c) :
    Tracked d := by
  cases h with
  | context ctx => exact hc.of_eq rfl rfl rfl
  | time => exact hc.of_eq rfl rfl rfl
  | load game key => exact ask_tracked e hc id
  | save game key v => exact ask_tracked e hc id

theorem Played.tracked {e : Env} {d : Caller} (h : Played e c d) (hc : Tracked c) : Tracked d :=
  h.invariant (R := fun c d => Tracked c → Tracked d) (fun _ => id)
    (fun _ _ _ hbc hcd hb => hcd (hbc hb)) (fun _ _ => DoorMove.tracked) hc

end Database

section Lines

variable (e : Env) {s : Session}

theorem beginTerminal_tracked (h : Tracked s.toCaller) : Tracked (beginTerminal e s).toCaller := by
  rw [beginTerminal]
  split
  · exact recordConnection_tracked e h
  · exact h

theorem passwordLine_tracked (h : Tracked s.toCaller) (line : Bytes) :
    Tracked (passwordLine e s line).toCaller := by
  have hlookup := loginLookup_tracked e h s.pendingName line
  rw [passwordLine]
  dsimp only
  split
  · exact beginTerminal_tracked e hlookup
  · exact hlookup

theorem newPasswordLine_tracked (h : Tracked s.toCaller) (line : Bytes) :
    Tracked (newPasswordLine e s line).toCaller := by
  have hmade := registerUser_tracked e h s.pendingName line
  rw [newPasswordLine]
  dsimp only
  split
  · exact beginTerminal_tracked e hmade
  · exact hmade

theorem terminalSave_tracked {c : Caller} (h : Tracked c) : Tracked (terminalSave e c) :=
  ask_tracked e h id

theorem ansiLine_tracked (h : Tracked s.toCaller) (line : Bytes) :
    Tracked (ansiLine e s line).toCaller :=
  recordConnection_tracked e (terminalSave_tracked e (h.of_eq rfl rfl rfl))

theorem mainLine_tracked (h : Tracked s.toCaller) (line : Bytes) :
    Tracked (mainLine e s line).toCaller := by
  rw [mainLine]
  repeat' split
  · exact (openDoors_played e _).tracked h
  · exact (readTime_played e _).tracked h
  · exact h
  · exact ask_tracked e h id
  · exact h
  · exact h
  · exact h

theorem termMenuLine_tracked (h : Tracked s.toCaller) (line : Bytes) :
    Tracked (termMenuLine s line).toCaller := by
  rw [termMenuLine]
  repeat' split
  all_goals exact h

theorem termSizeLine_tracked (h : Tracked s.toCaller) (line : Bytes) :
    Tracked (termSizeLine e s line).toCaller := by
  rw [termSizeLine]
  split
  · split
    · exact terminalSave_tracked e (h.of_eq rfl rfl rfl)
    · exact h
  · exact h

theorem termCharsetLine_tracked (h : Tracked s.toCaller) (line : Bytes) :
    Tracked (termCharsetLine e s line).toCaller :=
  terminalSave_tracked e (h.of_eq rfl rfl rfl)

theorem doorsLine_tracked (h : Tracked s.toCaller) (line : Bytes) :
    Tracked (doorsLine e s line).toCaller := by
  rw [doorsLine]
  split
  · exact h
  · split
    · next door _ => exact (door.open_played e _).tracked h
    · exact h

theorem doorLine_tracked (h : Tracked s.toCaller) (line : Bytes) :
    Tracked (doorLine e s line).toCaller := by
  rw [doorLine]
  split
  · next door _ =>
      have hinput := (door.input_played e s.toCaller line).tracked h
      dsimp only
      split
      · exact hinput
      · exact hinput
  · exact h

theorem handleLine_tracked (h : Tracked s.toCaller) (line : Bytes) :
    Tracked (handleLine e s line).toCaller := by
  rw [handleLine]
  cases s.stage with
  | select =>
      simp only [selectLine]
      split <;> exact h
  | login =>
      simp only [loginLine]
      split <;> exact h
  | password => exact passwordLine_tracked e h _
  | newName => exact h
  | newPassword => exact newPasswordLine_tracked e h _
  | termQuery => exact h
  | termAsk => exact ansiLine_tracked e h _
  | termAnsi => exact ansiLine_tracked e h _
  | main => exact mainLine_tracked e h _
  | termMenu => exact termMenuLine_tracked h _
  | termSize => exact termSizeLine_tracked e h _
  | termCharset => exact termCharsetLine_tracked e h _
  | doors => exact doorsLine_tracked e h _
  | door => exact doorLine_tracked e h _

end Lines

section Steps

variable (e : Env) {s : Session}

theorem typed_tracked (h : Tracked s.toCaller) (ch : UInt8) :
    Tracked (typed e s ch).toCaller := by
  rw [typed]
  split
  · rw [answered]
    split <;> exact h
  · split
    · split
      · exact h
      · exact handleLine_tracked e h s.line
    · repeat' split
      all_goals exact h

theorem reported_tracked (h : Tracked s.toCaller) : Tracked (reported s).toCaller := by
  simp only [reported]
  repeat' split
  all_goals exact h.of_eq rfl rfl rfl

theorem tick_tracked (h : Tracked s.toCaller) (ms : UInt32) :
    Tracked (tick e s ms).toCaller := by
  by_cases hstage : s.stage = .termQuery
  · have hticked : Tracked (ticked s ms).toCaller := reported_tracked h
    have hdetected : Tracked (detected (ticked s ms)).toCaller := hticked.of_eq rfl rfl rfl
    rw [tick_query e hstage]
    split
    · exact hticked
    · rw [decided]
      split
      · exact recordConnection_tracked e (terminalSave_tracked e hdetected)
      · exact hdetected
  · rw [tick, if_pos hstage]
    exact h

theorem step_tracked (h : Tracked s.toCaller) (event : Event) :
    Tracked (step e s event).toCaller := by
  cases event with
  | enter bytes =>
      obtain ⟨route, ppp, henter⟩ := enter_frame e s bytes
      rw [henter]
      exact h
  | byte ch => exact typed_tracked e h ch
  | tick ms => exact tick_tracked e h ms
  | takePpp cap => exact h

theorem run_tracked (about : ConnectionMeta) (events : List Event) :
    Tracked (run (step e) (create e about) events).toCaller :=
  run_invariant (P := fun s : Session => Tracked s.toCaller)
    (fun _ event h => step_tracked e h event) events ⟨.start, fun _ => rfl⟩

theorem updatesOwnRow_iff_inserted :
    UpdatesOwnRow e s ↔
      ∀ id ∈ (destroy e s).filterMap Statement.updated, Inserted s.log id := by
  constructor
  · intro h id hid
    exact h [id] id (by simpa [updatedRows] using hid)
  · intro h rows id hid
    exact h id (by simpa using (List.mem_filter.mp hid).2)

theorem updated_closing (a : Answer) :
    Statement.updated (closing e s, a) = if a.Done then some s.connectionId else none := rfl

theorem Tracked.updatesOwnRow_iff (h : Tracked s.toCaller) :
    UpdatesOwnRow e s ↔ (e.answer s.log (closing e s)).Done → InsertsSafe s.log := by
  have hstanding := h.records.standing
  have hbefore := h.records.filterMap_updated
  rw [updatesOwnRow_iff_inserted, destroy]
  split
  · next hopen =>
    obtain ⟨hdb, hid⟩ := hopen
    have hclosing : (ask e s.toCaller (closing e s)).1.log.filterMap Statement.updated =
        if (e.answer s.log (closing e s)).Done then [s.connectionId] else [] := by
      have hanswer : (ask e s.toCaller (closing e s)).2 = e.answer s.log (closing e s) := by
        simp [ask, hdb]
      rw [ask_log, List.filterMap_append, hbefore, hanswer, List.nil_append]
      split
      · next hdone => simp [updated_closing, hdone]
      · next hfailed => simp [updated_closing, hfailed]
    change (∀ id ∈ (ask e s.toCaller (closing e s)).1.log.filterMap Statement.updated, _) ↔ _
    rw [hclosing]
    split
    · next hdone => simp [hdone, hstanding.set hid]
    · next hfailed => simp [hfailed]
  · next hshut =>
    have hid : s.connectionId = 0 := by
      by_contra hset
      cases hdb : s.db with
      | false => exact hset (h.closed hdb)
      | true => exact hshut ⟨hdb, hset⟩
    simp [hbefore, (hstanding.unset hid).1]

end Steps

theorem updates_own_row_iff (e : Env) (about : ConnectionMeta) (events : List Event) :
    UpdatesOwnRow e (run (step e) (create e about) events) ↔
      ((e.answer (run (step e) (create e about) events).log
          (closing e (run (step e) (create e about) events))).Done →
        InsertsSafe (run (step e) (create e about) events).log) :=
  (run_tracked e about events).updatesOwnRow_iff e

-- A board with one account before the new one; another call keeps its connections busy.
def busyBoard : Env where
  opened := true
  answer _ q :=
    match q with
    | .insertUser .. => .done 2
    | .insertConnection .. => .failed
    | _ => .existed
  time _ := 1
  inserts _ _ _ _ := by simp

theorem row_of_another_call_is_updated :
    2 ∈ updatedRows [1, 2] (destroy busyBoard (run (step busyBoard) (create busyBoard quietLine)
        (newCaller ++ .byte 13 :: sizeAnswer "24;80t"))) ∧
      ¬ UpdatesOwnRow busyBoard (run (step busyBoard) (create busyBoard quietLine)
        (newCaller ++ .byte 13 :: sizeAnswer "24;80t")) := by
  have hrow : 2 ∈ updatedRows [1, 2] (destroy busyBoard
      (run (step busyBoard) (create busyBoard quietLine)
        (newCaller ++ .byte 13 :: sizeAnswer "24;80t"))) := by
    decide +kernel
  refine ⟨hrow, fun h => ?_⟩
  have hinserted := h [1, 2] 2 hrow
  revert hinserted
  simp only [Inserted]
  decide

end Softmodem.Bbs

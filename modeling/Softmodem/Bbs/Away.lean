import Softmodem.Bbs.Geometry

namespace Softmodem.Bbs

open CString Transition

def Statement.OfGame : Statement → Prop
  | .selectGame .. => True
  | .insertGame .. => True
  | _ => False

-- What everything but the doors does: the context of the doors stays, no game is asked about.
structure Aside (c d : Caller) : Prop where
  doorCtx : d.doorCtx = c.doorCtx
  handle : c.handle.length ≤ 47 → d.handle.length ≤ 47
  log : ∃ new, d.log = c.log ++ new ∧ ∀ x ∈ new, ¬ x.1.OfGame

namespace Aside

variable {b c d : Caller}

theorem of_eq (hctx : d.doorCtx = c.doorCtx) (hlog : d.log = c.log)
    (hhandle : c.handle.length ≤ 47 → d.handle.length ≤ 47) : Aside c d :=
  ⟨hctx, hhandle, [], by rw [hlog, List.append_nil], fun _ hx => absurd hx List.not_mem_nil⟩

theorem refl (c : Caller) : Aside c c := of_eq rfl rfl id

theorem trans (h : Aside b c) (h' : Aside c d) : Aside b d := by
  obtain ⟨hctx, hhandle, new, hlog, hnew⟩ := h
  obtain ⟨hctx', hhandle', more, hlog', hmore⟩ := h'
  refine ⟨hctx'.trans hctx, hhandle' ∘ hhandle, new ++ more, ?_, fun x hx => ?_⟩
  · rw [hlog', hlog, List.append_assoc]
  · exact (List.mem_append.mp hx).elim (hnew x) (hmore x)

theorem ask (e : Env) (c : Caller) {q : Statement} (hq : ¬ q.OfGame) : Aside c (ask e c q).1 := by
  refine ⟨rfl, id, [(q, (Bbs.ask e c q).2)], rfl, fun x hx => ?_⟩
  rw [List.mem_singleton.mp hx]
  exact hq

end Aside

section Database

variable (e : Env) (c : Caller)

theorem terminalSave_aside : Aside c (terminalSave e c) := .ask e c id

theorem recordConnection_aside : Aside c (recordConnection e c) := by
  rw [recordConnection]
  split
  · exact .refl c
  · have hasked : Aside c
        (ask e c (.insertConnection c.userId c.about (terminalType c.ansi) c.ansi)).1 :=
      .ask e c id
    apply hasked.trans
    dsimp only
    split
    · exact .refl _
    · exact .of_eq rfl rfl id

theorem loginLookup_aside (name pass : Bytes) : Aside c (loginLookup e c name pass).1 := by
  have hasked : Aside c (ask e c (.selectUser name)).1 := .ask e c id
  rw [loginLookup]
  split
  · next hask =>
    rw [hask] at hasked
    split
    · exact hasked.trans (.of_eq rfl rfl fun _ => List.length_take_le _ _)
    · exact hasked
  · next hask =>
    rw [hask] at hasked
    exact hasked

theorem registerUser_aside (name pass : Bytes) : Aside c (registerUser e c name pass).1 := by
  have hasked : Aside c
      (ask e c (.insertUser name (hex16 (passwordHash name pass)) (e.time c.clock))).1 :=
    .ask e c id
  have hclocked (d : Caller) (p : Prop) [Decidable p] :
      Aside d (if p then d else { d with clock := d.clock + 1 }) := by
    split
    · exact .refl d
    · exact .of_eq rfl rfl id
  rw [registerUser]
  split
  · exact .refl c
  · dsimp only
    split
    · exact (hasked.trans (hclocked _ _)).trans
        (.of_eq rfl rfl fun _ => List.length_take_le _ _)
    · exact hasked.trans (hclocked _ _)

end Database

-- What the buffers of a session hold, each against its size in the source.
structure Within (line query : Bytes) (queryLen : Nat) (ppp pendingName : Bytes) : Prop where
  line_le : line.length ≤ 159
  query_length : query.length = 96
  query_last : query[95]? = some 0
  queryLen_le : queryLen ≤ 95
  ppp_le : ppp.length ≤ 1024
  pendingName_le : pendingName.length ≤ 47

abbrev Session.Fits (s : Session) : Prop := Within s.line s.query s.queryLen s.ppp s.pendingName

-- Outside of the doors, and not on the way into one.
structure Away (s t : Session) : Prop where
  aside : Aside s.toCaller t.toCaller
  stage : t.stage ≠ .door
  fits : s.Fits → t.Fits

-- What the end of a line may do.
inductive Lined (e : Env) (s : Session) : Session → Prop where
  | away {t : Session} (h : Away s t) : Lined e s t
  | menu : Lined e s { s with toCaller := openDoors e s.toCaller, stage := .doors }
  | opened (door : Door) :
      Lined e s
        { s with toCaller := door.open e s.toCaller, door := some door, stage := .door }
  | stays (door : Door) (line : Bytes) (hstage : s.stage = .door) (hdoor : s.door = some door)
      (hplays : (door.input e s.toCaller line).2 = false) :
      Lined e s { s with toCaller := (door.input e s.toCaller line).1 }
  | returned (door : Door) (line : Bytes) (hstage : s.stage = .door)
      (hdoor : s.door = some door) :
      Lined e s
        { s with toCaller := (door.input e s.toCaller line).1, door := none, stage := .doors }
  | idle : Lined e s s

-- What a step may do: end a line, go on outside of the doors, or change nothing but a buffer.
inductive Stepped (e : Env) (s : Session) : Session → Prop where
  | lined {t : Session} (h : Lined e s t) : Stepped e s { t with line := [] }
  | away {t : Session} (h : Away s t) : Stepped e s t
  | buffered {t : Session} (hcaller : t.toCaller = s.toCaller) (hstage : t.stage = s.stage)
      (hdoor : t.door = s.door) (hfits : s.Fits → t.Fits) : Stepped e s t

section Lines

variable (e : Env) {s : Session}

theorem beginTerminal_away (s : Session) : Away s (beginTerminal e s) := by
  rw [beginTerminal]
  split
  · exact ⟨recordConnection_aside e _, by simp [promptMain], id⟩
  · exact ⟨.refl _, by simp, fun h => { h with queryLen_le := Nat.zero_le _ }⟩

theorem passwordLine_away (s : Session) (line : Bytes) : Away s (passwordLine e s line) := by
  have hlookup := loginLookup_aside e s.toCaller s.pendingName line
  rw [passwordLine]
  dsimp only
  split
  · have hbegun := beginTerminal_away e
      { s with toCaller := (loginLookup e s.toCaller s.pendingName line).1 }
    exact ⟨hlookup.trans hbegun.aside, hbegun.stage, hbegun.fits⟩
  · exact ⟨hlookup, by simp, id⟩

theorem newPasswordLine_away (s : Session) (line : Bytes) :
    Away s (newPasswordLine e s line) := by
  have hmade := registerUser_aside e s.toCaller s.pendingName line
  rw [newPasswordLine]
  dsimp only
  split
  · have hbegun := beginTerminal_away e
      { s with toCaller := (registerUser e s.toCaller s.pendingName line).1 }
    exact ⟨hmade.trans hbegun.aside, hbegun.stage, hbegun.fits⟩
  · exact ⟨hmade, by simp, id⟩

theorem promptMain_away (c : Caller) (h : Aside s.toCaller c) :
    Away s (promptMain { s with toCaller := c }) :=
  ⟨h, by simp [promptMain], id⟩

theorem ansiLine_away (s : Session) (line : Bytes) : Away s (ansiLine e s line) := by
  apply promptMain_away
  apply Aside.trans _ (recordConnection_aside e _)
  apply Aside.trans _ (terminalSave_aside e _)
  exact .of_eq rfl rfl id

theorem termSizeLine_away (s : Session) (line : Bytes) : Away s (termSizeLine e s line) := by
  rw [termSizeLine]
  split
  · split
    · apply promptMain_away
      apply Aside.trans _ (terminalSave_aside e _)
      exact .of_eq rfl rfl id
    · exact promptMain_away _ (.refl _)
  · exact promptMain_away _ (.refl _)

theorem termCharsetLine_away (s : Session) (line : Bytes) :
    Away s (termCharsetLine e s line) := by
  apply promptMain_away
  apply Aside.trans _ (terminalSave_aside e _)
  exact .of_eq rfl rfl id

theorem termMenuLine_away (s : Session) (line : Bytes) : Away s (termMenuLine s line) := by
  rw [termMenuLine]
  repeat' split
  all_goals exact ⟨.refl _, by simp [promptMain], id⟩

theorem mainLine_lined (hstage : s.stage = .main) (line : Bytes) :
    Lined e s (mainLine e s line) := by
  have hkeep : s.stage ≠ .door := by simp [hstage]
  rw [mainLine]
  repeat' split
  · exact .menu
  · exact .away ⟨.of_eq rfl rfl id, hkeep, id⟩
  · exact .away ⟨.refl _, by simp, id⟩
  · exact .away ⟨.ask e _ id, hkeep, id⟩
  · exact .away ⟨.refl _, hkeep, id⟩
  · exact .away ⟨.refl _, hkeep, id⟩
  · exact .away (promptMain_away _ (.refl _))

theorem doorsLine_lined (hstage : s.stage = .doors) (line : Bytes) :
    Lined e s (doorsLine e s line) := by
  rw [doorsLine]
  split
  · exact .away (promptMain_away _ (.refl _))
  · split
    · next door _ => exact .opened door
    · exact .away ⟨.refl _, by simp [hstage], id⟩

theorem doorLine_lined (hstage : s.stage = .door) (line : Bytes) :
    Lined e s (doorLine e s line) := by
  rw [doorLine]
  split
  · next door hdoor =>
    dsimp only
    split
    · exact .returned door line hstage hdoor
    · next hplays => exact .stays door line hstage hdoor (Bool.eq_false_iff.mpr hplays)
  · exact .idle

theorem handleLine_lined (s : Session) (line : Bytes) : Lined e s (handleLine e s line) := by
  have htaken (h : s.Fits) (line : Bytes) :
      Within s.line s.query s.queryLen s.ppp (line.take 47) :=
    { h with pendingName_le := List.length_take_le _ _ }
  rw [handleLine]
  cases hstage : s.stage with
  | select =>
      have hcleared (h : s.Fits) : Within s.line s.query s.queryLen [] s.pendingName :=
        { h with ppp_le := by simp }
      simp only [selectLine]
      split
      · exact .away ⟨.refl _, by simp, hcleared⟩
      · exact .away ⟨.refl _, by simp [hstage], hcleared⟩
  | login =>
      simp only [loginLine]
      split
      · exact .away ⟨.refl _, by simp, id⟩
      · exact .away ⟨.refl _, by simp, fun h => htaken h _⟩
  | password => exact .away (passwordLine_away e s _)
  | newName => exact .away ⟨.refl _, by simp, fun h => htaken h _⟩
  | newPassword => exact .away (newPasswordLine_away e s _)
  | termQuery => exact .away (promptMain_away _ (.refl _))
  | termAsk => exact .away (ansiLine_away e s _)
  | termAnsi => exact .away (ansiLine_away e s _)
  | main => exact mainLine_lined e hstage _
  | termMenu => exact .away (termMenuLine_away s _)
  | termSize => exact .away (termSizeLine_away e s _)
  | termCharset => exact .away (termCharsetLine_away e s _)
  | doors => exact doorsLine_lined e hstage _
  | door => exact doorLine_lined e hstage _

end Lines

section Steps

variable (e : Env)

theorem answered_fits {s : Session} (h : s.Fits) (ch : UInt8) : (answered s ch).Fits := by
  rw [answered]
  split
  · next hroom =>
    refine { h with query_length := by simp [h.query_length], query_last := ?_, queryLen_le := hroom }
    rw [List.getElem?_set, List.getElem?_set, h.query_last]
    simp [h.query_length, Nat.ne_of_lt hroom]
    omega
  · refine { h with query_length := by simp [h.query_length], query_last := ?_ }
    rw [List.getElem?_set, h.query_last]
    simp [h.query_length]
    omega

theorem typed_stepped (s : Session) (ch : UInt8) : Stepped e s (typed e s ch) := by
  rw [typed]
  split
  · refine .buffered ?_ ?_ ?_ fun h => answered_fits h ch
    all_goals
      rw [answered]
      split <;> rfl
  · split
    · split
      · exact .buffered rfl rfl rfl id
      · exact .lined (handleLine_lined e s s.line)
    · split
      · refine .buffered rfl rfl rfl fun h => { h with line_le := ?_ }
        simpa using Nat.le_succ_of_le h.line_le
      · split
        · next hroom =>
          refine .buffered rfl rfl rfl fun h => { h with line_le := ?_ }
          rw [List.length_append]
          exact hroom.2.2
        · exact .buffered rfl rfl rfl id

theorem ticked_away {s : Session} (hstage : s.stage = .termQuery) (ms : UInt32) :
    Away s (ticked s ms) := by
  simp only [ticked, reported]
  repeat' split
  all_goals exact ⟨.of_eq rfl rfl id, by simp [hstage], id⟩

theorem tick_stepped (s : Session) (ms : UInt32) : Stepped e s (tick e s ms) := by
  by_cases hstage : s.stage = .termQuery
  · have hticked := ticked_away hstage ms
    have hdetected : Aside s.toCaller (detected (ticked s ms)).toCaller :=
      hticked.aside.trans (.of_eq rfl rfl id)
    rw [tick_query e hstage]
    split
    · exact .away hticked
    · rw [decided]
      split
      · exact .away ⟨(hdetected.trans (terminalSave_aside e _)).trans (recordConnection_aside e _),
          by simp [promptMain], hticked.fits⟩
      · exact .away ⟨hdetected, by simp, hticked.fits⟩
  · rw [tick, if_pos hstage]
    exact .buffered rfl rfl rfl id

theorem keepEarly_buffered (s : Session) (bytes : Bytes) (route : Route) :
    Stepped e s { keepEarly s bytes with route := route } := by
  rw [keepEarly]
  split
  · refine .buffered rfl rfl rfl fun h => { h with ppp_le := ?_ }
    have hppp := h.ppp_le
    simp only [List.length_append, List.length_take]
    omega
  · exact .buffered rfl rfl rfl id

theorem step_stepped (s : Session) (event : Event) : Stepped e s (step e s event) := by
  cases event with
  | enter bytes =>
      rw [step]
      split
      · exact .buffered rfl rfl rfl id
      · split
        · exact keepEarly_buffered e s bytes .ppp
        · exact keepEarly_buffered e s bytes (keepEarly s bytes).route
  | byte ch => exact typed_stepped e s ch
  | tick ms => exact tick_stepped e s ms
  | takePpp cap =>
      refine .buffered rfl rfl rfl fun h => { h with ppp_le := ?_ }
      exact (List.length_drop ▸ Nat.sub_le ..).trans h.ppp_le

end Steps

end Softmodem.Bbs

import Softmodem.Bbs.Gate
import Softmodem.Lib.CText

namespace Softmodem.Bbs

open CString Transition

-- The size a statement writes into an account.
def Statement.size : Statement → Option (Int × Int)
  | .updateUser _ _ _ columns rows _ _ => some (columns, rows)
  | _ => none

def savedSizes (log : Log) : List (Int × Int) := log.filterMap fun x => x.1.size

def SavesFit (log : Log) : Prop := ∀ size ∈ savedSizes log, sizeFits size.1 size.2 = true

structure TerminalFits (s : Session) : Prop where
  shown : s.stage = .main ∨ s.stage = .doors ∨ s.stage = .door → sizeFits s.columns s.rows = true
  saved : SavesFit s.log

-- The size the terminal has answered so far.
def sizeReport (s : Session) : Option (Int × Int) :=
  (strstr [27, 91, 56, 59] (cstr s.query)).bind fun report => scanPair (report.drop 4)

def AnswerFits (s : Session) : Event → Prop
  | .tick ms => s.stage = .termQuery → 1500 ≤ s.queryMs + ms → ∀ size ∈ sizeReport s,
      sizeFits (if size.2 = 0 then 80 else size.2) (if size.1 = 0 then 24 else size.1) = true
  | _ => True

instance (s : Session) : DecidablePred (AnswerFits s)
  | .tick ms => inferInstanceAs (Decidable (s.stage = .termQuery → 1500 ≤ s.queryMs + ms →
      ∀ size ∈ sizeReport s, _))
  | .enter _ => isTrue trivial
  | .byte _ => isTrue trivial
  | .takePpp _ => isTrue trivial

-- The line end with which a caller who has typed NEW gets an account.
structure Registers (e : Env) (s : Session) (ch : UInt8) : Prop where
  stage : s.stage = .newPassword
  lineEnd : ch = 13 ∨ ch = 10
  line : s.line ≠ []
  made : (registerUser e s.toCaller s.pendingName (typedLine s)).2 = true

section Scanning

def unsigned (number : Bytes) : Bytes :=
  match number with
  | 43 :: rest => rest
  | 45 :: rest => rest
  | rest => rest

theorem scanInt_unsigned (text : Bytes) :
    scanInt text =
      if (unsigned (text.dropWhile isSpace)).head?.any isDigit then
        some (atoi (text.dropWhile isSpace),
          (unsigned (text.dropWhile isSpace)).dropWhile isDigit)
      else none := rfl

theorem unsigned_append {number : Bytes} (h : number ≠ []) (t : Bytes) :
    unsigned (number ++ t) = unsigned number ++ t := by
  obtain ⟨c, rest, rfl⟩ := List.exists_cons_of_ne_nil h
  rw [List.cons_append]
  unfold unsigned
  split
  · next heq =>
    obtain ⟨rfl, rfl⟩ := List.cons.inj heq
    rfl
  · next heq =>
    obtain ⟨rfl, rfl⟩ := List.cons.inj heq
    rfl
  · next hplus hminus =>
    split
    · next heq =>
      obtain ⟨rfl, rfl⟩ := List.cons.inj heq
      exact absurd rfl (hplus _)
    · next heq =>
      obtain ⟨rfl, rfl⟩ := List.cons.inj heq
      exact absurd rfl (hminus _)
    · rfl

theorem scanInt_append {text rest : Bytes} {v : Int} (h : scanInt text = some (v, rest))
    (t : Bytes) :
    ∃ w, scanInt (text ++ t) = some (w, if rest = [] then t.dropWhile isDigit else rest ++ t) := by
  rw [scanInt_unsigned] at h
  split at h
  · next hdigit =>
    obtain ⟨-, hrest⟩ := Prod.mk.inj (Option.some.inj h)
    have hdigits : unsigned (text.dropWhile isSpace) ≠ [] := by
      intro hnil
      simp [hnil] at hdigit
    have hnumber : text.dropWhile isSpace ≠ [] := by
      intro hnil
      exact hdigits (by rw [hnil]; rfl)
    have hspace : (text ++ t).dropWhile isSpace = text.dropWhile isSpace ++ t := by
      rw [List.dropWhile_append, if_neg]
      simpa using hnumber
    have hhead : (unsigned (text.dropWhile isSpace) ++ t).head? =
        (unsigned (text.dropWhile isSpace)).head? := List.head?_append_of_ne_nil _ hdigits
    rw [scanInt_unsigned, hspace, unsigned_append hnumber, hhead, if_pos hdigit,
      List.dropWhile_append, hrest]
    refine ⟨_, congrArg some (congrArg _ ?_)⟩
    cases rest <;> simp
  · cases h

theorem scanPair_append {text : Bytes} {p : Int × Int} (h : scanPair text = some p) (t : Bytes) :
    ∃ q, scanPair (text ++ t) = some q := by
  unfold scanPair at h
  split at h
  · next first rest hfirst =>
    obtain ⟨second, hsecond, -⟩ := Option.map_eq_some_iff.mp h
    obtain ⟨w, hfirst'⟩ := scanInt_append hfirst t
    obtain ⟨v, hsecond'⟩ := scanInt_append hsecond t
    rw [if_neg (by simp), List.cons_append] at hfirst'
    exact ⟨_, by simp only [scanPair, hfirst', hsecond']; rfl⟩
  · cases h

theorem report_append {text : Bytes} {p : Int × Int} {more : Bytes}
    (h : (strstr [27, 91, 56, 59] text).bind (fun report => scanPair (report.drop 4)) = some p)
    (hmore : text <+: more) :
    ∃ q, (strstr [27, 91, 56, 59] more).bind (fun report => scanPair (report.drop 4)) = some q := by
  obtain ⟨t, rfl⟩ := hmore
  obtain ⟨report, hreport, hpair⟩ := Option.bind_eq_some_iff.mp h
  have hlen : 4 ≤ report.length := (strstr_starts hreport).length_le
  obtain ⟨q, hq⟩ := scanPair_append hpair t
  refine ⟨q, ?_⟩
  rw [strstr_append hreport, Option.bind_some, List.drop_append_of_le_length hlen]
  exact hq

end Scanning

structure SameSize (c d : Caller) : Prop where
  columns : d.columns = c.columns
  rows : d.rows = c.rows
  saved : savedSizes d.log = savedSizes c.log

namespace SameSize

variable {b c d : Caller}

theorem refl (c : Caller) : SameSize c c := ⟨rfl, rfl, rfl⟩

theorem trans (h : SameSize b c) (h' : SameSize c d) : SameSize b d :=
  ⟨h'.columns.trans h.columns, h'.rows.trans h.rows, h'.saved.trans h.saved⟩

end SameSize

section Callers

variable (e : Env) (c : Caller)

theorem savedSizes_ask (q : Statement) :
    savedSizes (ask e c q).1.log = savedSizes c.log ++ q.size.toList := by
  rw [ask_log, savedSizes, savedSizes, List.filterMap_append]
  cases hsize : q.size <;> simp [hsize]

theorem ask_sameSize {q : Statement} (h : q.size = none) : SameSize c (ask e c q).1 := by
  refine ⟨rfl, rfl, ?_⟩
  rw [savedSizes_ask, h, Option.toList_none, List.append_nil]

theorem Played.sameSize {e : Env} {c d : Caller} (h : Played e c d) : SameSize c d := by
  refine h.invariant SameSize.refl (fun _ _ _ => SameSize.trans) fun c d hmove => ?_
  cases hmove with
  | context ctx => exact ⟨rfl, rfl, rfl⟩
  | time => exact ⟨rfl, rfl, rfl⟩
  | load game key => exact ask_sameSize e c rfl
  | save game key v => exact ask_sameSize e c rfl

theorem recordConnection_sameSize : SameSize c (recordConnection e c) := by
  rw [recordConnection]
  split
  · exact .refl c
  · have hasked : SameSize c
        (ask e c (.insertConnection c.userId c.about (terminalType c.ansi) c.ansi)).1 :=
      ask_sameSize e c rfl
    apply hasked.trans
    dsimp only
    split
    · exact .refl _
    · exact ⟨rfl, rfl, rfl⟩

theorem terminalSave_size :
    (terminalSave e c).columns = c.columns ∧ (terminalSave e c).rows = c.rows ∧
      savedSizes (terminalSave e c).log = savedSizes c.log ++ [(c.columns, c.rows)] :=
  ⟨rfl, rfl, savedSizes_ask e c _⟩

theorem registerUser_sameSize (name pass : Bytes) :
    SameSize c (registerUser e c name pass).1 := by
  rw [registerUser]
  split
  · exact .refl c
  · have hasked : SameSize c
        (ask e c (.insertUser name (hex16 (passwordHash name pass)) (e.time c.clock))).1 :=
      ask_sameSize e c rfl
    dsimp only
    split <;> split <;> exact ⟨hasked.columns, hasked.rows, hasked.saved⟩

theorem loginLookup_sameSize {name pass : Bytes} {d : Caller}
    (h : loginLookup e c name pass = (d, false)) : SameSize c d := by
  have hasked : SameSize c (ask e c (.selectUser name)).1 := ask_sameSize e c rfl
  rw [loginLookup] at h
  split at h
  · next hask =>
      rw [hask] at hasked
      split at h
      · exact absurd (Prod.mk.inj h).2 (by simp)
      · exact (Prod.mk.inj h).1 ▸ hasked
  · next hask =>
      rw [hask] at hasked
      exact (Prod.mk.inj h).1 ▸ hasked

end Callers

def InMenu (stage : Stage) : Prop :=
  stage ∈ [.main, .termMenu, .termAnsi, .termSize, .termCharset, .doors, Stage.door]

structure Sized (c : Caller) : Prop where
  shown : sizeFits c.columns c.rows = true
  saved : SavesFit c.log

theorem Sized.same {c d : Caller} (h : Sized c) (hsame : SameSize c d) : Sized d := by
  refine ⟨?_, ?_⟩
  · rw [hsame.columns, hsame.rows]
    exact h.shown
  · rw [SavesFit, hsame.saved]
    exact h.saved

theorem terminalSave_sized (e : Env) {c : Caller} (hshown : sizeFits c.columns c.rows = true)
    (hsaved : SavesFit c.log) : Sized (terminalSave e c) := by
  obtain ⟨hcolumns, hrows, hsizes⟩ := terminalSave_size e c
  refine ⟨by rw [hcolumns, hrows]; exact hshown, ?_⟩
  rw [SavesFit, hsizes]
  intro size hsize
  rcases List.mem_append.mp hsize with hsize | hsize
  · exact hsaved size hsize
  · rw [List.mem_singleton.mp hsize]
    exact hshown

structure Browsing (s : Session) : Prop where
  stage : InMenu s.stage
  sized : Sized s.toCaller

section Menus

variable (e : Env) {s : Session}

theorem inMenu_main : InMenu .main := by simp [InMenu]

theorem ansiLine_browsing (h : SavesFit s.log) (line : Bytes) : Browsing (ansiLine e s line) := by
  refine ⟨inMenu_main, Sized.same ?_ (recordConnection_sameSize e _)⟩
  exact terminalSave_sized e (by simp [sizeFits]) h

theorem mainLine_browsing (h : Browsing s) (hstage : s.stage = .main) (line : Bytes) :
    Browsing (mainLine e s line) := by
  have hmain : InMenu s.stage := hstage ▸ inMenu_main
  rw [mainLine]
  repeat' split
  · exact ⟨by simp [InMenu], h.sized.same (openDoors_played e _).sameSize⟩
  · exact ⟨hmain, h.sized.same (readTime_played e _).sameSize⟩
  · exact ⟨by simp [InMenu], h.sized⟩
  · exact ⟨hmain, h.sized.same (ask_sameSize e _ rfl)⟩
  · exact ⟨hmain, h.sized⟩
  · exact ⟨hmain, h.sized⟩
  · exact ⟨inMenu_main, h.sized⟩

theorem termMenuLine_browsing (h : Browsing s) (line : Bytes) : Browsing (termMenuLine s line) := by
  rw [termMenuLine]
  repeat' split
  all_goals exact ⟨by simp [InMenu, promptMain], h.sized⟩

theorem termSizeLine_browsing (h : Browsing s) (line : Bytes) :
    Browsing (termSizeLine e s line) := by
  rw [termSizeLine]
  split
  · split
    · next hfits => exact ⟨inMenu_main, terminalSave_sized e hfits h.sized.saved⟩
    · exact ⟨inMenu_main, h.sized⟩
  · exact ⟨inMenu_main, h.sized⟩

theorem termCharsetLine_browsing (h : Browsing s) (line : Bytes) :
    Browsing (termCharsetLine e s line) :=
  ⟨inMenu_main, terminalSave_sized e h.sized.shown h.sized.saved⟩

theorem doorsLine_browsing (h : Browsing s) (line : Bytes) : Browsing (doorsLine e s line) := by
  rw [doorsLine]
  split
  · exact ⟨inMenu_main, h.sized⟩
  · split
    · next door _ => exact ⟨by simp [InMenu], h.sized.same (door.open_played e _).sameSize⟩
    · exact ⟨h.stage, h.sized⟩

theorem doorLine_browsing (h : Browsing s) (line : Bytes) : Browsing (doorLine e s line) := by
  rw [doorLine]
  split
  · next door _ =>
      have hinput := h.sized.same (door.input_played e s.toCaller line).sameSize
      dsimp only
      split
      · exact ⟨by simp [InMenu], hinput⟩
      · exact ⟨h.stage, hinput⟩
  · exact h

theorem handleLine_browsing (h : Browsing s) (line : Bytes) : Browsing (handleLine e s line) := by
  have hmenu := h.stage
  rw [handleLine]
  cases hstage : s.stage with
  | select => simp [hstage, InMenu] at hmenu
  | login => simp [hstage, InMenu] at hmenu
  | password => simp [hstage, InMenu] at hmenu
  | newName => simp [hstage, InMenu] at hmenu
  | newPassword => simp [hstage, InMenu] at hmenu
  | termQuery => simp [hstage, InMenu] at hmenu
  | termAsk => simp [hstage, InMenu] at hmenu
  | termAnsi => exact ansiLine_browsing e h.sized.saved _
  | main => exact mainLine_browsing e h hstage _
  | termMenu => exact termMenuLine_browsing h _
  | termSize => exact termSizeLine_browsing e h _
  | termCharset => exact termCharsetLine_browsing e h _
  | doors => exact doorsLine_browsing e h _
  | door => exact doorLine_browsing e h _

end Menus

-- The bytes answered so far, and the size that has been read from them.
structure Queried (s : Session) : Prop where
  shape : ∃ pre post, s.query = pre ++ 0 :: post ∧ pre.length = s.queryLen ∧ s.query.length = 96
  unread : sizeReport s = none → s.columns = 0 ∧ s.rows = 0

inductive Measured (s : Session) : Prop where
  | query (stage : s.stage = .termQuery) (saved : SavesFit s.log) (queried : Queried s)
  | ask (stage : s.stage = .termAsk) (saved : SavesFit s.log)
  | browsing (browsing : Browsing s)

section Query

variable {s : Session}

theorem answered_prefix (h : Queried s) (ch : UInt8) :
    cstr s.query <+: cstr (answered s ch).query ∧
      ∃ pre post, (answered s ch).query = pre ++ 0 :: post ∧ pre.length = (answered s ch).queryLen ∧
        (answered s ch).query.length = 96 := by
  obtain ⟨pre, post, hquery, hpre, hlen⟩ := h.shape
  rw [answered]
  split
  · next hroom =>
    have hpost : 96 = pre.length + (post.length + 1) := by
      rw [← hlen, hquery, List.length_append, List.length_cons]
    cases post with
    | nil =>
        rw [List.length_nil] at hpost
        omega
    | cons c post =>
        have hset : (s.query.set s.queryLen ch).set (s.queryLen + 1) 0 =
            (pre ++ [ch]) ++ 0 :: post := by
          rw [hquery, ← hpre]
          simp
        refine ⟨?_, pre ++ [ch], post, hset, by simp [hpre], by simp [hlen]⟩
        dsimp only
        rw [hset, hquery, cstr_append_zero, cstr_append_zero]
        exact takeWhile_prefix_append _ _ _
  · have hset : s.query.set s.queryLen 0 = s.query := by
      rw [hquery, ← hpre]
      simp
    refine ⟨?_, pre, post, hset.trans hquery, hpre, by simp [hlen]⟩
    simp only [hset, List.prefix_rfl]

theorem answered_queried (h : Queried s) (ch : UInt8) : Queried (answered s ch) := by
  obtain ⟨hbegins, hshape⟩ := answered_prefix h ch
  have hsize : (answered s ch).columns = s.columns ∧ (answered s ch).rows = s.rows := by
    rw [answered]
    split <;> exact ⟨rfl, rfl⟩
  refine ⟨hshape, fun hunread => ?_⟩
  rw [hsize.1, hsize.2]
  apply h.unread
  rw [Option.eq_none_iff_forall_ne_some]
  intro p hp
  obtain ⟨q, hq⟩ := report_append hp hbegins
  exact absurd (hunread.symm.trans hq) (by simp)

theorem reported_query (s : Session) :
    (reported s).query = s.query ∧ (reported s).queryLen = s.queryLen ∧
      (reported s).queryMs = s.queryMs := by
  simp only [reported]
  repeat' split
  all_goals exact ⟨rfl, rfl, rfl⟩

theorem reported_unread (h : sizeReport s = none) :
    (reported s).columns = s.columns ∧ (reported s).rows = s.rows := by
  unfold sizeReport at h
  simp only [reported, h]
  repeat' split
  all_goals exact ⟨rfl, rfl⟩

theorem reported_read {row col : Int} (h : sizeReport s = some (row, col)) :
    (reported s).columns = col ∧ (reported s).rows = row ∧ (reported s).ansi = 1 := by
  unfold sizeReport at h
  simp only [reported, h]
  simp

end Query

section Steps

variable (e : Env) {s : Session}

theorem typed_measured (h : Measured s) (ch : UInt8) : Measured (typed e s ch) := by
  cases h with
  | query hstage hsaved hqueried =>
      rw [typed, if_pos hstage]
      refine .query ?_ ?_ (answered_queried hqueried ch)
      · rw [answered]
        split <;> exact hstage
      · rw [answered]
        split <;> exact hsaved
  | ask hstage hsaved =>
      rw [typed, if_neg (by simp [hstage])]
      split
      · split
        · exact .ask hstage hsaved
        · simp only [handleLine, hstage]
          have hline := ansiLine_browsing e hsaved (s.line.dropWhile isSpace)
          exact .browsing ⟨hline.stage, hline.sized⟩
      · split
        · exact .ask hstage hsaved
        · split
          · exact .ask hstage hsaved
          · exact .ask hstage hsaved
  | browsing h =>
      have hquery : s.stage ≠ .termQuery := by
        intro hstage
        have hmenu := h.stage
        simp [hstage, InMenu] at hmenu
      rw [typed, if_neg hquery]
      split
      · split
        · exact .browsing h
        · have hline := handleLine_browsing e h s.line
          exact .browsing ⟨hline.stage, hline.sized⟩
      · split
        · exact .browsing ⟨h.stage, h.sized⟩
        · split
          · exact .browsing ⟨h.stage, h.sized⟩
          · exact .browsing h

def ticked (s : Session) (ms : UInt32) : Session := reported { s with queryMs := s.queryMs + ms }

-- What the end of the detection takes the size to be.
def detected (s : Session) : Session :=
  { s with
    columns := if s.columns = 0 then 80 else s.columns
    rows := if s.rows = 0 then 24 else s.rows }

def decided (e : Env) (s : Session) : Session :=
  if s.ansi ≠ 0 then
    promptMain { s with toCaller := recordConnection e (terminalSave e s.toCaller) }
  else { s with stage := .termAsk }

theorem tick_query (hstage : s.stage = .termQuery) (ms : UInt32) :
    tick e s ms =
      if s.queryMs + ms < 1500 then ticked s ms else decided e (detected (ticked s ms)) := by
  have hms : (ticked s ms).queryMs = s.queryMs + ms := (reported_query _).2.2
  rw [tick, if_neg (by simp [hstage])]
  change (if (ticked s ms).queryMs < 1500 then ticked s ms
    else decided e (detected (ticked s ms))) = _
  rw [hms]

theorem ticked_queried (h : Queried s) (ms : UInt32) : Queried (ticked s ms) := by
  obtain ⟨hquery, hlen, -⟩ := reported_query { s with queryMs := s.queryMs + ms }
  obtain ⟨pre, post, hshape, hpre, hsize⟩ := h.shape
  have hreport : sizeReport (ticked s ms) = sizeReport s := by
    rw [sizeReport, ticked, hquery]
    rfl
  refine ⟨⟨pre, post, hquery.trans hshape, hpre.trans hlen.symm, ?_⟩, ?_⟩
  · rw [ticked, hquery]
    exact hsize
  · rw [hreport]
    intro hunread
    obtain ⟨hcolumns, hrows⟩ := @reported_unread { s with queryMs := s.queryMs + ms } hunread
    rw [ticked, hcolumns, hrows]
    exact h.unread hunread

theorem decided_fits {d : Session} (hsaved : SavesFit d.log)
    (hfits : sizeFits d.columns d.rows = true) : Measured (decided e d) := by
  rw [decided]
  split
  · exact .browsing ⟨inMenu_main,
      (terminalSave_sized e hfits hsaved).same (recordConnection_sameSize e _)⟩
  · exact .ask rfl hsaved

theorem tick_measured (h : Measured s) {ms : UInt32} (hfits : AnswerFits s (.tick ms)) :
    Measured (tick e s ms) := by
  cases h with
  | query hstage hsaved hqueried =>
      obtain ⟨hkept, -, hlog⟩ := reported_frame { s with queryMs := s.queryMs + ms }
      have hsaved' : SavesFit (ticked s ms).log := by
        rw [ticked, hlog]
        exact hsaved
      rw [tick_query e hstage]
      split
      · exact .query (hkept.trans hstage) hsaved' (ticked_queried hqueried ms)
      · next hlate =>
        have hsaved'' : SavesFit (detected (ticked s ms)).log := hsaved'
        apply decided_fits e hsaved''
        cases hreport : sizeReport s with
        | none =>
            obtain ⟨hcolumns, hrows⟩ :=
              @reported_unread { s with queryMs := s.queryMs + ms } hreport
            obtain ⟨hnone, hnone'⟩ := hqueried.unread hreport
            have hcolumns' : (ticked s ms).columns = 0 := hcolumns.trans hnone
            have hrows' : (ticked s ms).rows = 0 := hrows.trans hnone'
            simp [detected, hcolumns', hrows', sizeFits]
        | some size =>
            obtain ⟨row, col⟩ := size
            obtain ⟨hcolumns, hrows, -⟩ :=
              @reported_read { s with queryMs := s.queryMs + ms } _ _ hreport
            have hfit := hfits hstage (UInt32.not_lt.mp hlate) (row, col) hreport
            rw [← hcolumns, ← hrows] at hfit
            exact hfit
  | ask hstage hsaved =>
      rw [tick, if_pos (by simp [hstage])]
      exact .ask hstage hsaved
  | browsing h =>
      rw [tick, if_pos]
      · exact .browsing h
      · intro hstage
        have hmenu := h.stage
        simp [hstage, InMenu] at hmenu

theorem tick_fits {ms : UInt32} (h : TerminalFits (tick e s ms)) : AnswerFits s (.tick ms) := by
  rintro hstage hlate ⟨row, col⟩ hreport
  obtain ⟨hcolumns, hrows, hansi⟩ := @reported_read { s with queryMs := s.queryMs + ms } _ _ hreport
  have hansi' : (detected (ticked s ms)).ansi ≠ 0 := by
    have hone : (ticked s ms).ansi = 1 := hansi
    simp [detected, hone]
  have hlate' : ¬ s.queryMs + ms < 1500 := UInt32.not_lt.mpr hlate
  rw [tick_query e hstage, if_neg hlate', decided, if_pos hansi'] at h
  have hshown := h.shown (.inl rfl)
  obtain ⟨hsame, hsame', -⟩ := recordConnection_sameSize e
    (terminalSave e (detected (ticked s ms)).toCaller)
  have hfit : sizeFits (detected (ticked s ms)).columns (detected (ticked s ms)).rows = true := by
    have hcaller : sizeFits
        (recordConnection e (terminalSave e (detected (ticked s ms)).toCaller)).columns
        (recordConnection e (terminalSave e (detected (ticked s ms)).toCaller)).rows = true :=
      hshown
    rwa [hsame, hsame'] at hcaller
  rw [← hcolumns, ← hrows]
  exact hfit

theorem step_measured (h : Measured s) {event : Event} (hfits : AnswerFits s event) :
    Measured (step e s event) := by
  have hkept (t : Session) (ht : t.toCaller = s.toCaller) (hstage : t.stage = s.stage)
      (hquery : t.query = s.query) (hlen : t.queryLen = s.queryLen) : Measured t := by
    cases h with
    | query hs hsaved hqueried =>
        refine .query (hstage.trans hs) (ht ▸ hsaved) ⟨?_, ?_⟩
        · rw [hquery, hlen]
          exact hqueried.shape
        · rw [sizeReport, hquery, ht]
          exact hqueried.unread
    | ask hs hsaved => exact .ask (hstage.trans hs) (ht ▸ hsaved)
    | browsing h => exact .browsing ⟨hstage ▸ h.stage, ht ▸ h.sized⟩
  cases event with
  | enter bytes =>
      obtain ⟨route, ppp, henter⟩ := enter_frame e s bytes
      rw [henter]
      exact hkept _ rfl rfl rfl rfl
  | byte ch => exact typed_measured e h ch
  | tick ms => exact tick_measured e h hfits
  | takePpp cap => exact hkept _ rfl rfl rfl rfl

theorem step_fits {event : Event} (h : TerminalFits (step e s event)) : AnswerFits s event := by
  cases event with
  | tick ms => exact tick_fits e h
  | enter bytes => trivial
  | byte ch => trivial
  | takePpp cap => trivial

theorem Measured.fits (h : Measured s) : TerminalFits s := by
  cases h with
  | query hstage hsaved _ => exact ⟨by simp [hstage], hsaved⟩
  | ask hstage hsaved => exact ⟨by simp [hstage], hsaved⟩
  | browsing h => exact ⟨fun _ => h.sized.shown, h.sized.saved⟩

end Steps

section NewAccount

variable (e : Env) {s : Session}

-- A caller who is not in yet has no terminal.
structure Unmeasured (s : Session) : Prop where
  outside : Outside s
  columns : s.columns = 0
  rows : s.rows = 0
  query : s.query = List.replicate 96 0

theorem SavesFit.of_anonymous {log : Log} (h : Anonymous log) : SavesFit log := by
  intro size hsize
  obtain ⟨⟨q, a⟩, hx, hsize⟩ := List.mem_filterMap.mp hsize
  have huser := h _ hx
  cases q <;> simp [Statement.size, Statement.user] at hsize huser

theorem beginTerminal_inside (s : Session) : Authenticated (beginTerminal e s).stage :=
  (beginTerminal_held e s).inside

structure SameTerminal (s t : Session) : Prop where
  columns : t.columns = s.columns
  rows : t.rows = s.rows
  query : t.query = s.query

theorem Unmeasured.same {t : Session} (h : Unmeasured s) (hout : Outside t)
    (hsame : SameTerminal s t) : Unmeasured t :=
  ⟨hout, hsame.columns.trans h.columns, hsame.rows.trans h.rows, hsame.query.trans h.query⟩

theorem passwordLine_same {line : Bytes} (hout : ¬ Authenticated (passwordLine e s line).stage) :
    SameTerminal s (passwordLine e s line) := by
  rw [passwordLine] at hout ⊢
  cases hlookup : loginLookup e s.toCaller s.pendingName line with
  | mk c found =>
      rw [hlookup] at hout
      cases found with
      | true => exact absurd (beginTerminal_inside e _) hout
      | false =>
          have hsame := loginLookup_sameSize e _ hlookup
          exact ⟨hsame.columns, hsame.rows, rfl⟩

theorem newPasswordLine_same {line : Bytes}
    (hout : ¬ Authenticated (newPasswordLine e s line).stage) :
    SameTerminal s (newPasswordLine e s line) := by
  have hsame := registerUser_sameSize e s.toCaller s.pendingName line
  rw [newPasswordLine] at hout ⊢
  cases hregister : registerUser e s.toCaller s.pendingName line with
  | mk c made =>
      rw [hregister] at hout hsame
      cases made with
      | true => exact absurd (beginTerminal_inside e _) hout
      | false => exact ⟨hsame.columns, hsame.rows, rfl⟩

theorem handleLine_same (hbefore : ¬ Authenticated s.stage) {line : Bytes}
    (hout : ¬ Authenticated (handleLine e s line).stage) :
    SameTerminal s (handleLine e s line) := by
  have hstages := outside_stage hbefore
  rw [handleLine] at hout ⊢
  rcases hstages with hstage | hstage | hstage | hstage | hstage
  all_goals simp only [hstage] at hout ⊢
  · rw [selectLine]
    dsimp only
    split <;> exact ⟨rfl, rfl, rfl⟩
  · rw [loginLine]
    split <;> exact ⟨rfl, rfl, rfl⟩
  · exact passwordLine_same e hout
  · exact ⟨rfl, rfl, rfl⟩
  · exact newPasswordLine_same e hout

theorem step_same (hbefore : ¬ Authenticated s.stage) {event : Event}
    (hout : ¬ Authenticated (step e s event).stage) : SameTerminal s (step e s event) := by
  have hquery : s.stage ≠ .termQuery := fun hstage => hbefore (by simp [Authenticated, hstage])
  cases event with
  | enter bytes =>
      obtain ⟨route, ppp, henter⟩ := enter_frame e s bytes
      rw [henter]
      exact ⟨rfl, rfl, rfl⟩
  | byte ch =>
      rw [step, typed, if_neg hquery] at hout ⊢
      split
      · next hend =>
        rw [if_pos hend] at hout
        split
        · exact ⟨rfl, rfl, rfl⟩
        · next hline =>
          rw [if_neg hline] at hout
          have hkept := handleLine_same e hbefore hout
          exact ⟨hkept.columns, hkept.rows, hkept.query⟩
      · repeat' split
        all_goals exact ⟨rfl, rfl, rfl⟩
  | tick ms =>
      rw [step, tick, if_pos hquery]
      exact ⟨rfl, rfl, rfl⟩
  | takePpp cap => exact ⟨rfl, rfl, rfl⟩

theorem run_unmeasured (about : ConnectionMeta) (before : List Event) :
    Authenticated (run (step e) (create e about) before).stage ∨
      Unmeasured (run (step e) (create e about) before) := by
  refine run_invariant (P := fun s => Authenticated s.stage ∨ Unmeasured s) ?_ before
    (.inr ⟨create_outside e about, rfl, rfl, rfl⟩)
  rintro s event (h | h)
  · exact .inl (step_held e h event).inside
  · rcases step_cases e h.outside event with hout | ⟨hin, -⟩
    · exact .inr (h.same hout (step_same e h.outside.1 hout.1))
    · exact .inl hin

theorem registers_measured (h : Unmeasured s) {ch : UInt8} (hnew : Registers e s ch) :
    Measured (step e s (.byte ch)) := by
  have hquery : s.stage ≠ .termQuery := by simp [hnew.stage]
  rw [step, typed, if_neg hquery, if_pos hnew.lineEnd, if_neg hnew.line, handleLine]
  simp only [hnew.stage]
  have hsame := registerUser_sameSize e s.toCaller s.pendingName (typedLine s)
  have hmade := hnew.made
  have hline : newPasswordLine e s (typedLine s) =
      { s with
        toCaller := (registerUser e s.toCaller s.pendingName (typedLine s)).1
        stage := .termQuery, queryMs := 0, queryLen := 0 } := by
    have hsmall : ¬ ((registerUser e s.toCaller s.pendingName (typedLine s)).1.columns > 0 ∧
        (registerUser e s.toCaller s.pendingName (typedLine s)).1.rows > 0) := by
      rw [hsame.columns, h.columns]
      simp
    simp only [newPasswordLine, if_pos hmade, beginTerminal, if_neg hsmall]
  change Measured { newPasswordLine e s (typedLine s) with line := [] }
  rw [hline]
  have hsaved : SavesFit (registerUser e s.toCaller s.pendingName (typedLine s)).1.log := by
    rw [SavesFit, hsame.saved]
    exact SavesFit.of_anonymous h.outside.2
  refine .query rfl hsaved ⟨⟨[], List.replicate 95 0, h.query, rfl, by simp [h.query]⟩, fun _ => ?_⟩
  exact ⟨hsame.columns.trans h.columns, hsame.rows.trans h.rows⟩

end NewAccount

theorem terminal_geometry_iff (e : Env) (about : ConnectionMeta) (before : List Event) (ch : UInt8)
    (later : List Event) (hnew : Registers e (run (step e) (create e about) before) ch) :
    (∀ events, events <+: later →
        TerminalFits (run (step e) (create e about) (before ++ .byte ch :: events))) ↔
      Along (step e) AnswerFits (run (step e) (create e about) (before ++ [.byte ch])) later := by
  have hstart : Measured (run (step e) (create e about) (before ++ [.byte ch])) := by
    rw [run_append]
    rcases run_unmeasured e about before with hin | hout
    · rw [hnew.stage] at hin
      simp [Authenticated] at hin
    · exact registers_measured e hout hnew
  have hreached := forall_reached_iff_along (G := AnswerFits) (P := Measured) (Q := TerminalFits)
    (fun _ _ hs hfits => step_measured e hs hfits)
    (fun s hs => hs.fits) (fun s event _ hfits => step_fits e hfits) later hstart
  rw [← hreached]
  refine forall_congr' fun events => forall_congr' fun _ => ?_
  rw [run_append, run_append]
  rfl

-- A board on which a new account is the first.
def freshBoard : Env where
  opened := true
  answer _ q :=
    match q with
    | .insertUser .. => .done 1
    | _ => .failed
  time _ := 1
  inserts _ _ _ _ := by simp

def newCaller : List Event := (ascii "BBS\rNEW\rann\rkey").map .byte

-- ESC [ 8 ; rows ; columns t, and then the tick that ends the detection.
def sizeAnswer (size : String) : List Event :=
  ((27 :: ascii "[8;") ++ ascii size).map .byte ++ [.tick 1500]

theorem ordinary_terminal_fits :
    TerminalFits (run (step freshBoard) (create freshBoard quietLine)
      (newCaller ++ .byte 13 :: sizeAnswer "24;80t")) :=
  (terminal_geometry_iff freshBoard quietLine newCaller 13 (sizeAnswer "24;80t")
    ⟨by decide, .inl rfl, by decide, by decide⟩).mpr (by decide) _
    (List.prefix_refl _)

theorem one_by_one_terminal_is_taken :
    Registers freshBoard (run (step freshBoard) (create freshBoard quietLine) newCaller) 13 ∧
      ¬ TerminalFits (run (step freshBoard) (create freshBoard quietLine)
        (newCaller ++ .byte 13 :: sizeAnswer "1;1t")) := by
  refine ⟨⟨by decide, .inl rfl, by decide, by decide⟩, fun h => ?_⟩
  have hshown := h.shown (.inl (by decide))
  revert hshown
  decide

end Softmodem.Bbs

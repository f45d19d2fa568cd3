import Softmodem.Bbs.Session
import Softmodem.Lib.Chunks

namespace Softmodem.Bbs

open CString Transition

def outcome (s : Session) : Route × Stage := (s.route, s.stage)

-- The session without the bytes kept back for PPP, which no line is read against.
def core (s : Session) : Session := { s with ppp := [] }

@[simp] theorem core_stage (s : Session) : (core s).stage = s.stage := rfl

@[simp] theorem core_line (s : Session) : (core s).line = s.line := rfl

@[simp] theorem core_door (s : Session) : (core s).door = s.door := rfl

@[simp] theorem outcome_core (s : Session) : outcome (core s) = outcome s := rfl

section Core

variable (e : Env) (s : Session) (line : Bytes)

theorem beginTerminal_core : core (beginTerminal e s) = beginTerminal e (core s) := by
  simp only [beginTerminal]
  exact apply_ite core ..

theorem passwordLine_core : core (passwordLine e s line) = passwordLine e (core s) line := by
  simp only [passwordLine]
  rw [apply_ite core, beginTerminal_core]
  rfl

theorem newPasswordLine_core :
    core (newPasswordLine e s line) = newPasswordLine e (core s) line := by
  simp only [newPasswordLine]
  rw [apply_ite core, beginTerminal_core]
  rfl

theorem mainLine_core : core (mainLine e s line) = mainLine e (core s) line := by
  simp only [mainLine, apply_ite core]
  rfl

theorem termMenuLine_core : core (termMenuLine s line) = termMenuLine (core s) line := by
  simp only [termMenuLine, apply_ite core]
  rfl

theorem termSizeLine_core : core (termSizeLine e s line) = termSizeLine e (core s) line := by
  simp only [termSizeLine]
  split
  · simp only [apply_ite core]
    rfl
  · rfl

theorem doorsLine_core : core (doorsLine e s line) = doorsLine e (core s) line := by
  simp only [doorsLine]
  rw [apply_ite core]
  split
  · rfl
  · cases doorFind line <;> rfl

theorem doorLine_core : core (doorLine e s line) = doorLine e (core s) line := by
  rw [doorLine, doorLine, core_door]
  cases s.door with
  | none => rfl
  | some door => exact apply_ite core (Door.input e s.toCaller door line).2 _ _

theorem handleLine_core : core (handleLine e s line) = handleLine e (core s) line := by
  simp only [handleLine, core_stage]
  cases s.stage with
  | select => exact apply_ite core ..
  | login => exact apply_ite core ..
  | password => exact passwordLine_core ..
  | newPassword => exact newPasswordLine_core ..
  | main => exact mainLine_core ..
  | termMenu => exact termMenuLine_core ..
  | termSize => exact termSizeLine_core ..
  | doors => exact doorsLine_core ..
  | door => exact doorLine_core ..
  | newName => rfl
  | termQuery => rfl
  | termAsk => rfl
  | termAnsi => rfl
  | termCharset => rfl

theorem answered_core (ch : UInt8) : core (answered s ch) = answered (core s) ch :=
  apply_ite core ..

theorem typed_core (ch : UInt8) : core (typed e s ch) = typed e (core s) ch := by
  simp only [typed, apply_ite core, answered_core, core_stage, core_line, ← handleLine_core]
  rfl

end Core

theorem run_core (e : Env) (s : Session) (bytes : Bytes) :
    core (run (typed e) s bytes) = run (typed e) (core s) bytes := by
  induction bytes generalizing s with
  | nil => rfl
  | cons ch bytes ih => rw [run_cons, run_cons, ih, typed_core]

theorem beginTerminal_outcome (e : Env) (s : Session) :
    (beginTerminal e s).route = s.route ∧ (beginTerminal e s).stage ≠ .select := by
  rw [beginTerminal]
  split
  · exact ⟨rfl, by simp [promptMain]⟩
  · exact ⟨rfl, by simp⟩

section Outcome

variable {e : Env} {s : Session}

theorem handleLine_select (h : s.stage = .select) (line : Bytes) :
    outcome (handleLine e s line) =
      if strcasecmp (line.dropWhile isSpace) "BBS" then (.bbs, .login) else (.ppp, .select) := by
  simp only [handleLine, h, selectLine]
  split
  · rfl
  · rfl

def mainOutcome (route : Route) (line : Bytes) : Route × Stage :=
  if starts line 'd' then (route, .doors)
  else if starts line 'c' then (route, .main)
  else if starts line 't' then (route, .termMenu)
  else if starts line 'h' then (route, .main)
  else if starts line 'p' then (.ppp, .main)
  else if starts line 'q' then (.hangup, .main)
  else (route, .main)

theorem handleLine_main (h : s.stage = .main) (line : Bytes) :
    outcome (handleLine e s line) = mainOutcome s.route (line.dropWhile isSpace) := by
  simp only [handleLine, h, mainLine, mainOutcome, apply_ite outcome]
  rfl

-- Only the selection and the main menu choose a route, and nothing leads back to the selection.
theorem handleLine_other (hselect : s.stage ≠ .select) (hmain : s.stage ≠ .main) (line : Bytes) :
    (handleLine e s line).route = s.route ∧ (handleLine e s line).stage ≠ .select := by
  cases hstage : s.stage with
  | select => exact absurd hstage hselect
  | main => exact absurd hstage hmain
  | login =>
      simp only [handleLine, hstage, loginLine]
      split
      · exact ⟨rfl, by simp⟩
      · exact ⟨rfl, by simp⟩
  | password =>
      simp only [handleLine, hstage, passwordLine]
      split
      · exact beginTerminal_outcome ..
      · exact ⟨rfl, by simp⟩
  | newPassword =>
      simp only [handleLine, hstage, newPasswordLine]
      split
      · exact beginTerminal_outcome ..
      · exact ⟨rfl, by simp⟩
  | termMenu =>
      simp only [handleLine, hstage, termMenuLine, promptMain]
      repeat' split
      all_goals exact ⟨rfl, by simp⟩
  | termSize =>
      simp only [handleLine, hstage, termSizeLine, promptMain]
      repeat' split
      all_goals exact ⟨rfl, by simp⟩
  | doors =>
      simp only [handleLine, hstage, doorsLine, promptMain]
      repeat' split
      all_goals exact ⟨by trivial, by simp⟩
  | door =>
      simp only [handleLine, hstage, doorLine]
      repeat' split
      all_goals exact ⟨by trivial, by simp [hstage]⟩
  | newName =>
      simp only [handleLine, hstage]
      exact ⟨by trivial, by simp⟩
  | termQuery =>
      simp only [handleLine, hstage]
      exact ⟨rfl, by simp [promptMain]⟩
  | termAsk =>
      simp only [handleLine, hstage]
      exact ⟨rfl, by simp [ansiLine, promptMain]⟩
  | termAnsi =>
      simp only [handleLine, hstage]
      exact ⟨rfl, by simp [ansiLine, promptMain]⟩
  | termCharset =>
      simp only [handleLine, hstage]
      exact ⟨rfl, by simp [termCharsetLine, promptMain]⟩

def Completes (s : Session) (ch : UInt8) : Prop :=
  s.stage ≠ .termQuery ∧ (ch = 13 ∨ ch = 10) ∧ s.line ≠ []

theorem typed_completes {ch : UInt8} (h : Completes s ch) :
    typed e s ch = { handleLine e s s.line with line := [] } := by
  rw [typed, if_neg h.1, if_pos h.2.1, if_neg h.2.2]

theorem typed_quiet {ch : UInt8} (h : ¬ Completes s ch) :
    outcome (typed e s ch) = outcome s ∧ (typed e s ch).ppp = s.ppp := by
  rw [typed]
  split
  · rw [answered]
    split
    · exact ⟨rfl, rfl⟩
    · exact ⟨rfl, rfl⟩
  · next hquery =>
      split
      · next hend =>
          split
          · exact ⟨rfl, rfl⟩
          · next hline => exact absurd ⟨hquery, hend, hline⟩ h
      · split
        · exact ⟨rfl, rfl⟩
        · split
          · exact ⟨rfl, rfl⟩
          · exact ⟨rfl, rfl⟩

-- A line that takes a session that has left somewhere else.
def redirecting (s : Session) (line : Bytes) : Bool :=
  match s.stage with
  | .select => strcasecmp line "BBS"
  | .main =>
      starts line 'd' || starts line 't' || s.route ≠ .ppp && starts line 'p' ||
        s.route ≠ .hangup && starts line 'q'
  | _ => false

def Redirects (s : Session) (ch : UInt8) : Prop :=
  Completes s ch ∧ redirecting s (s.line.dropWhile isSpace) = true

theorem starts_head {line : Bytes} {d : UInt8} (h : line.head? = some d) (c : Char) :
    starts line c = decide (lower d = c.toNat.toUInt8) := by
  rw [starts, h, Option.any_some]

theorem mainOutcome_eq {line : Bytes} (hstage : s.stage = .main) :
    mainOutcome s.route line = (s.route, .main) ↔ redirecting s line = false := by
  simp only [redirecting, hstage]
  generalize s.route = route
  cases hline : line.head? with
  | none => simp [mainOutcome, starts, hline]
  | some d =>
      simp only [mainOutcome, starts_head hline, decide_eq_true_eq]
      generalize lower d = x
      split
      · next hd => simp [hd]
      · split
        · next hc => simp [hc]
        · split
          · next ht => simp [ht]
          · split
            · next hh => simp [hh]
            · split
              · next hp => cases route <;> simp_all
              · split
                · next hq => cases route <;> simp_all
                · simp_all

theorem completes_outcome {ch : UInt8} (h : Completes s ch) :
    outcome (typed e s ch) = outcome (handleLine e s s.line) := by
  rw [typed_completes h]
  rfl

theorem Redirects.moves {ch : UInt8} (hleft : Left s) (h : Redirects s ch) :
    outcome (typed e s ch) ≠ outcome s := by
  obtain ⟨hcomplete, hredirects⟩ := h
  rw [completes_outcome hcomplete]
  cases hstage : s.stage with
  | select =>
      rw [redirecting, hstage] at hredirects
      rw [handleLine_select hstage, if_pos hredirects]
      intro hsame
      have hroute : .bbs = s.route := congrArg Prod.fst hsame
      rcases hleft with h | h <;> simp [h] at hroute
  | main =>
      rw [handleLine_main hstage, outcome, hstage]
      intro hsame
      rw [(mainOutcome_eq hstage).mp hsame] at hredirects
      exact Bool.false_ne_true hredirects
  | _ => simp [redirecting, hstage] at hredirects

-- Where a session is when a line has just made it leave.
def JustLeft (s : Session) : Prop :=
  Left s → s.stage = .select ∧ s.route = .ppp ∨ s.stage = .main

theorem JustLeft.stays {ch : UInt8} (h : JustLeft s) (hleft : Left s) (hquiet : ¬ Redirects s ch) :
    outcome (typed e s ch) = outcome s := by
  by_cases hcomplete : Completes s ch
  · have hfalse : redirecting s (s.line.dropWhile isSpace) = false := by
      rw [Bool.eq_false_iff]
      exact fun htrue => hquiet ⟨hcomplete, htrue⟩
    rw [completes_outcome hcomplete]
    rcases h hleft with ⟨hstage, hroute⟩ | hstage
    · simp only [redirecting, hstage] at hfalse
      rw [handleLine_select hstage, if_neg (by simp [hfalse]), outcome, hstage, hroute]
    · rw [handleLine_main hstage, (mainOutcome_eq hstage).mpr hfalse, outcome, hstage]
  · exact (typed_quiet hcomplete).1

theorem Left.of_route {t : Session} (h : Left t) (hroute : t.route = s.route) : Left s := by
  rwa [Left, ← hroute]

theorem mainOutcome_cases (route : Route) (line : Bytes) :
    (mainOutcome route line).1 = route ∨
      (mainOutcome route line).2 = .main ∧
        ((mainOutcome route line).1 = .ppp ∨ (mainOutcome route line).1 = .hangup) := by
  rw [mainOutcome]
  repeat' split
  all_goals simp

theorem typed_justLeft {ch : UInt8} (h : ¬ Left s) : JustLeft (typed e s ch) := by
  intro hleft
  by_cases hcomplete : Completes s ch
  · have hout := completes_outcome (e := e) hcomplete
    have hroute : (typed e s ch).route = (handleLine e s s.line).route := congrArg Prod.fst hout
    have hstage : (typed e s ch).stage = (handleLine e s s.line).stage := congrArg Prod.snd hout
    by_cases hselect : s.stage = .select
    · have hline := handleLine_select (e := e) hselect s.line
      rw [← hout] at hline
      split at hline
      · have hbbs : (typed e s ch).route = .bbs := congrArg Prod.fst hline
        rcases hleft with h' | h' <;> simp [hbbs] at h'
      · exact .inl ⟨congrArg Prod.snd hline, congrArg Prod.fst hline⟩
    · by_cases hmain : s.stage = .main
      · have hline := handleLine_main (e := e) hmain s.line
        rw [← hout] at hline
        rcases mainOutcome_cases s.route (s.line.dropWhile isSpace) with hsame | ⟨hstays, -⟩
        · exact absurd (hleft.of_route ((congrArg Prod.fst hline).trans hsame)) h
        · exact .inr ((congrArg Prod.snd hline).trans hstays)
      · have hsame := (handleLine_other (e := e) hselect hmain s.line).1
        exact absurd (hleft.of_route (hroute.trans hsame)) h
  · have hout := (typed_quiet (e := e) hcomplete).1
    exact absurd (hleft.of_route (congrArg Prod.fst hout)) h

theorem mainOutcome_stage (route : Route) (line : Bytes) :
    (mainOutcome route line).2 ≠ .select := by
  rw [mainOutcome]
  repeat' split
  all_goals simp

theorem handleLine_still {line : Bytes} (h : (handleLine e s line).stage = .select) :
    s.stage = .select ∧ (handleLine e s line).route = .ppp := by
  by_cases hselect : s.stage = .select
  · have hline := handleLine_select (e := e) hselect line
    split at hline
    · have hlogin : (handleLine e s line).stage = .login := congrArg Prod.snd hline
      rw [h] at hlogin
      simp at hlogin
    · exact ⟨hselect, congrArg Prod.fst hline⟩
  · by_cases hmain : s.stage = .main
    · have hline : (handleLine e s line).stage = (mainOutcome s.route _).2 :=
        congrArg Prod.snd (handleLine_main (e := e) hmain line)
      exact absurd (hline.symm.trans h) (mainOutcome_stage _ _)
    · exact absurd h (handleLine_other hselect hmain line).2

theorem typed_still {ch : UInt8} (h : (typed e s ch).stage = .select) :
    s.stage = .select ∧ ((typed e s ch).route = .ppp ∨
      (typed e s ch).ppp = s.ppp ∧ (typed e s ch).route = s.route) := by
  by_cases hcomplete : Completes s ch
  · rw [typed_completes hcomplete] at h ⊢
    have hstill := handleLine_still h
    exact ⟨hstill.1, .inl hstill.2⟩
  · obtain ⟨hout, hppp⟩ := typed_quiet (e := e) hcomplete
    have hstage : (typed e s ch).stage = s.stage := congrArg Prod.snd hout
    exact ⟨hstage ▸ h, .inr ⟨hppp, congrArg Prod.fst hout⟩⟩

theorem run_ppp {s : Session} {bytes : Bytes} (hs : s.route = .ppp)
    (h : (run (typed e) s bytes).stage = .select) : (run (typed e) s bytes).route = .ppp := by
  have hstep (t : Session) (ch : UInt8) (ht : t.stage = .select → t.route = .ppp)
      (hstage : (typed e t ch).stage = .select) : (typed e t ch).route = .ppp := by
    obtain ⟨hselect, hroute | ⟨-, hroute⟩⟩ := typed_still hstage
    · exact hroute
    · exact hroute.trans (ht hselect)
  exact run_invariant (P := fun t : Session => t.stage = .select → t.route = .ppp) hstep bytes
    (fun _ => hs) h

-- While a session is still at the selection, no line has been read.
theorem run_still {bytes : Bytes} (h : (run (typed e) s bytes).stage = .select)
    (hleft : ¬ Left (run (typed e) s bytes)) :
    s.stage = .select ∧ (run (typed e) s bytes).ppp = s.ppp := by
  induction bytes generalizing s with
  | nil => exact ⟨h, rfl⟩
  | cons ch bytes ih =>
      obtain ⟨hstage, hppp⟩ := ih h hleft
      obtain ⟨hselect, hroute | ⟨hsame, -⟩⟩ := typed_still hstage
      · exact absurd (.inl (run_ppp (s := typed e s ch) hroute h)) hleft
      · exact ⟨hselect, hppp.trans hsame⟩

theorem run_stage {bytes : Bytes} (h : s.stage ≠ .select) :
    (run (typed e) s bytes).stage ≠ .select :=
  run_invariant (P := fun t : Session => t.stage ≠ .select)
    (fun _ _ h hselect => h (typed_still hselect).1) bytes h

end Outcome

section Prefix

theorem pppPrefix_append {bytes : Bytes} (h : pppPrefix bytes = true) (more : Bytes) :
    pppPrefix (bytes ++ more) = true := by
  simp only [pppPrefix, Bool.or_eq_true, List.isPrefixOf_iff_prefix] at h ⊢
  exact h.imp (·.trans (List.prefix_append ..)) (·.trans (List.prefix_append ..))

theorem pppPrefix_iff {bytes : Bytes} :
    pppPrefix bytes = true ↔
      ∃ start ∈ [[0x7e, 0xff, 0x03, 0xc0, 0x21], [0x7e, 0xff, 0x7d, 0x23, 0xc0, 0x21]],
        start <+: bytes := by
  simp [pppPrefix]

theorem pppStarts_plain : ∀ start ∈ ([[0x7e, 0xff, 0x03, 0xc0, 0x21],
    [0x7e, 0xff, 0x7d, 0x23, 0xc0, 0x21]] : List Bytes),
      start.length ≤ 6 ∧ ∀ ch ∈ start, ch ≠ 13 ∧ ch ≠ 10 := by
  decide

-- What precedes a start of PPP that is not complete yet is a part of it.
theorem pppPrefix_unfinished {bytes more : Bytes} (h : pppPrefix (bytes ++ more) = true)
    (hnot : pppPrefix bytes = false) :
    bytes.length ≤ 6 ∧ ∀ ch ∈ bytes, ch ≠ 13 ∧ ch ≠ 10 := by
  obtain ⟨start, hstart, hprefix⟩ := pppPrefix_iff.mp h
  obtain ⟨hshort, hplain⟩ := pppStarts_plain start hstart
  rcases List.prefix_or_prefix_of_prefix hprefix (List.prefix_append bytes more) with hle | hle
  · rw [Bool.eq_false_iff] at hnot
    exact absurd (pppPrefix_iff.mpr ⟨start, hstart, hle⟩) hnot
  · exact ⟨Nat.le_trans hle.length_le hshort, fun ch hch => hplain ch (hle.subset hch)⟩

-- Only the first bytes that are kept decide.
theorem pppPrefix_take {bytes : Bytes} {n : Nat} (hn : 6 ≤ n) :
    pppPrefix (bytes.take n) = pppPrefix bytes := by
  rw [Bool.eq_iff_iff, pppPrefix_iff, pppPrefix_iff]
  refine exists_congr fun start => and_congr_right fun hstart => ?_
  have hshort := (pppStarts_plain start hstart).1
  rw [List.prefix_take_iff]
  exact and_iff_left (Nat.le_trans hshort hn)

theorem keepEarly_ppp {s : Session} (h : s.stage = .select) {bytes : Bytes} (hne : bytes ≠ []) :
    (keepEarly s bytes).ppp = s.ppp ++ bytes.take (1024 - s.ppp.length) := by
  rw [keepEarly, if_pos ⟨h, hne⟩]

theorem startsPpp_iff {s : Session} {bytes : Bytes} :
    startsPpp s bytes ↔ s.stage = .select ∧ bytes ≠ [] ∧ pppPrefix (s.ppp ++ bytes) = true := by
  rw [startsPpp]
  refine and_congr_right fun hstage => and_congr_right fun hne => ?_
  have hmin : min (6 - s.ppp.length) (1024 - s.ppp.length) = 6 - s.ppp.length := by omega
  rw [keepEarly_ppp hstage hne, ← pppPrefix_take (Nat.le_refl 6), List.take_append, List.take_take,
    hmin, ← List.take_append, pppPrefix_take (Nat.le_refl 6)]

end Prefix

section Feed

variable {e : Env} {s : Session}

theorem core_keepEarly (s : Session) (bytes : Bytes) : core (keepEarly s bytes) = core s := by
  rw [keepEarly]
  split <;> rfl

theorem feed_left (h : Left s) (bytes : Bytes) : feed e s bytes = s := if_pos h

theorem feed_of_starts (hleft : ¬ Left s) {bytes : Bytes} (h : startsPpp s bytes) :
    feed e s bytes = { keepEarly s bytes with route := .ppp } := by
  rw [feed, if_neg hleft, if_pos h]

theorem feed_core (h : ¬ startsPpp s bytes) :
    core (feed e s bytes) = Chunks.feed (typed e) Left (core s) bytes := by
  rw [feed, Chunks.feed]
  by_cases hleft : Left s
  · rw [if_pos hleft, if_pos (show Left (core s) from hleft)]
  · rw [if_neg hleft, if_neg h, if_neg (show ¬ Left (core s) from hleft), run_core,
      core_keepEarly]

theorem feed_all_left (h : Left s) (pieces : List Bytes) : pieces.foldl (feed e) s = s := by
  induction pieces with
  | nil => rfl
  | cons piece pieces ih => rw [List.foldl_cons, feed_left h, ih]

theorem run_plain {bytes : Bytes} (h : ∀ ch ∈ bytes, ch ≠ 13 ∧ ch ≠ 10) :
    outcome (run (typed e) s bytes) = outcome s ∧ (run (typed e) s bytes).ppp = s.ppp := by
  induction bytes generalizing s with
  | nil => exact ⟨rfl, rfl⟩
  | cons ch bytes ih =>
      have hch := h ch List.mem_cons_self
      have hquiet : ¬ Completes s ch := fun hcomplete =>
        hcomplete.2.1.elim hch.1 hch.2
      obtain ⟨hout, hppp⟩ := typed_quiet (e := e) hquiet
      obtain ⟨hrest, hkept⟩ := ih (s := typed e s ch) fun d hd => h d (List.mem_cons_of_mem _ hd)
      exact ⟨hrest.trans hout, hkept.trans hppp⟩

theorem feed_of_not_starts (hleft : ¬ Left s) {bytes : Bytes} (h : ¬ startsPpp s bytes) :
    feed e s bytes = run (typed e) (keepEarly s bytes) bytes := by
  rw [feed, if_neg hleft, if_neg h]

theorem keepEarly_outcome (s : Session) (bytes : Bytes) :
    outcome (keepEarly s bytes) = outcome s := by
  rw [keepEarly]
  split <;> rfl

theorem feed_nil (hleft : ¬ Left s) : feed e s [] = s := by
  rw [feed_of_not_starts hleft fun h => h.2.1 rfl, run_nil, keepEarly, if_neg fun h => h.2 rfl]

-- Bytes kept back that are only a part of a start of PPP are all of them.
theorem keepEarly_unfinished (hstage : s.stage = .select) {bytes more : Bytes} (hne : bytes ≠ [])
    (h : pppPrefix ((keepEarly s bytes).ppp ++ more) = true)
    (hnot : pppPrefix (keepEarly s bytes).ppp = false) :
    (keepEarly s bytes).ppp = s.ppp ++ bytes := by
  have hshort := (pppPrefix_unfinished h hnot).1
  rw [keepEarly_ppp hstage hne] at hshort ⊢
  rw [List.length_append, List.length_take] at hshort
  rw [List.take_of_length_le]
  omega

-- However the start of PPP is cut, the piece that completes it is found while at the selection.
theorem pieces_start (pieces : List Bytes) (hleft : ¬ Left s)
    (h : startsPpp s pieces.flatten) : outcome (pieces.foldl (feed e) s) = (.ppp, .select) := by
  induction pieces generalizing s with
  | nil => exact absurd rfl h.2.1
  | cons piece pieces ih =>
      rw [List.flatten_cons] at h
      rw [List.foldl_cons]
      rcases eq_or_ne piece [] with rfl | hne
      · rw [feed_nil hleft]
        exact ih hleft h
      · by_cases hstart : startsPpp s piece
        · rw [feed_of_starts hleft hstart, feed_all_left (.inl rfl)]
          exact Prod.ext rfl ((congrArg Prod.snd (keepEarly_outcome s piece)).trans h.1)
        · obtain ⟨hstage, -, hprefix⟩ := startsPpp_iff.mp h
          have hnot : pppPrefix (s.ppp ++ piece) = false := by
            rw [Bool.eq_false_iff]
            exact fun ht => hstart (startsPpp_iff.mpr ⟨hstage, hne, ht⟩)
          rw [← List.append_assoc] at hprefix
          obtain ⟨hshort, hplain⟩ := pppPrefix_unfinished hprefix hnot
          have hkept : (keepEarly s piece).ppp = s.ppp ++ piece := by
            rw [List.length_append] at hshort
            rw [keepEarly_ppp hstage hne, List.take_of_length_le (by omega)]
          obtain ⟨hout, hppp⟩ := run_plain (e := e) (s := keepEarly s piece)
            fun ch hch => hplain ch (List.mem_append_right _ hch)
          have hsame := hout.trans (keepEarly_outcome s piece)
          rw [feed_of_not_starts hleft hstart]
          apply ih
          · exact fun hl => hleft (hl.of_route (congrArg Prod.fst hsame))
          · refine startsPpp_iff.mpr ⟨(congrArg Prod.snd hsame).trans hstage, ?_, ?_⟩
            · intro hnil
              rw [hnil, List.append_nil, hnot] at hprefix
              exact Bool.false_ne_true hprefix
            · rwa [hppp, hkept]

theorem pieces_core {pieces : List Bytes} (h : ¬ startsPpp s pieces.flatten) :
    core (pieces.foldl (feed e) s) = pieces.foldl (Chunks.feed (typed e) Left) (core s) := by
  induction pieces generalizing s with
  | nil => rfl
  | cons piece pieces ih =>
      rw [List.flatten_cons] at h
      have hpiece : ¬ startsPpp s piece := by
        intro hstart
        obtain ⟨hstage, hne, hprefix⟩ := startsPpp_iff.mp hstart
        refine h (startsPpp_iff.mpr ⟨hstage, by simp [hne], ?_⟩)
        rw [← List.append_assoc]
        exact pppPrefix_append hprefix _
      rw [List.foldl_cons, List.foldl_cons, ← feed_core hpiece]
      by_cases hleft : Left (feed e s piece)
      · rw [feed_all_left hleft, Chunks.feed_left (show Left (core _) from hleft)]
      · apply ih
        intro hstart
        obtain ⟨hstage, hrest, hprefix⟩ := startsPpp_iff.mp hstart
        have hs : ¬ Left s := fun hl => hleft (by rwa [feed_left hl])
        rw [feed_of_not_starts hs hpiece] at hstage hprefix hleft
        obtain ⟨hkeptStage, hppp⟩ := run_still hstage hleft
        have hselect : s.stage = .select :=
          (congrArg Prod.snd (keepEarly_outcome s piece)).symm.trans hkeptStage
        rw [hppp] at hprefix
        rcases eq_or_ne piece [] with rfl | hne
        · rw [keepEarly, if_neg fun hk => hk.2 rfl] at hprefix
          exact h (startsPpp_iff.mpr ⟨hselect, hrest, hprefix⟩)
        · have hnot : pppPrefix (keepEarly s piece).ppp = false := by
            rw [Bool.eq_false_iff]
            exact fun ht => hpiece ⟨hselect, hne, ht⟩
          rw [keepEarly_unfinished hselect hne hprefix hnot, List.append_assoc] at hprefix
          exact h (startsPpp_iff.mpr ⟨hselect, by simp [hne], hprefix⟩)

-- A session that has left comes back only from the selection, which is then over.
theorem comes_back {t : Session} {ch : UInt8} (hleft : Left t)
    (hmoves : outcome (typed e t ch) ≠ outcome t) (hback : ¬ Left (typed e t ch)) :
    t.stage = .select ∧ (typed e t ch).stage ≠ .select := by
  have hcomplete : Completes t ch := by
    by_contra hquiet
    exact hmoves (typed_quiet hquiet).1
  have hout := completes_outcome (e := e) hcomplete
  have hroute : (typed e t ch).route = (handleLine e t t.line).route := congrArg Prod.fst hout
  by_cases hselect : t.stage = .select
  · refine ⟨hselect, fun hstage => hback (.inl ?_)⟩
    exact hroute.trans (handleLine_still ((congrArg Prod.snd hout).symm.trans hstage)).2
  · by_cases hmain : t.stage = .main
    · have hline : (typed e t ch).route = (mainOutcome t.route _).1 :=
        hroute.trans (congrArg Prod.fst (handleLine_main (e := e) hmain t.line))
      rcases mainOutcome_cases t.route (t.line.dropWhile isSpace) with hsame | ⟨-, hnew⟩
      · exact absurd (hleft.of_route (hline.trans hsame).symm) hback
      · exact absurd (by rwa [Left, hline]) hback
    · have hsame := (handleLine_other (e := e) hselect hmain t.line).1
      exact absurd (hleft.of_route (hroute.trans hsame).symm) hback

theorem undone {t : Session} {ch : UInt8} {bytes : Bytes} (hleft : Left t)
    (hmoves : outcome (typed e t ch) ≠ outcome t) (hback : ¬ Left (typed e t ch)) :
    outcome (run (typed e) (typed e t ch) bytes) ≠ outcome t := by
  obtain ⟨hselect, hover⟩ := comes_back hleft hmoves hback
  intro hsame
  exact run_stage hover ((congrArg Prod.snd hsame).trans hselect)

theorem left_of_outcome {s t : Session} (h : outcome s = outcome t) (hs : Left s) : Left t :=
  hs.of_route (congrArg Prod.fst h)

-- No line end completes a redirecting line once an earlier line has made the session leave.
def Settled (e : Env) : Session → Bytes → Prop :=
  Along (typed e) fun t ch => Left t → ¬ Redirects t ch

theorem JustLeft.of_outcome {t : Session} (h : JustLeft s) (hsame : outcome t = outcome s) :
    JustLeft t := by
  intro hleft
  have hstage : t.stage = s.stage := congrArg Prod.snd hsame
  have hroute : t.route = s.route := congrArg Prod.fst hsame
  rw [hstage, hroute]
  exact h (left_of_outcome hsame hleft)

theorem undisturbed_iff (h : JustLeft s) (bytes : Bytes) :
    Chunks.Undisturbed (typed e) Left outcome s bytes ↔ Settled e s bytes := by
  induction bytes generalizing s with
  | nil => exact Iff.rfl
  | cons ch bytes ih =>
      constructor
      · rintro ⟨hstays, hrest⟩
        refine ⟨fun hleft hredirects => hredirects.moves hleft (hstays hleft), ?_⟩
        refine (ih ?_).mp hrest
        by_cases hleft : Left s
        · exact h.of_outcome (hstays hleft)
        · exact typed_justLeft hleft
      · rintro ⟨hquiet, hrest⟩
        refine ⟨fun hleft => h.stays hleft (hquiet hleft), ?_⟩
        refine (ih ?_).mpr hrest
        by_cases hleft : Left s
        · exact h.of_outcome (h.stays hleft (hquiet hleft))
        · exact typed_justLeft hleft

theorem settled_core (bytes : Bytes) : Settled e (core s) bytes ↔ Settled e s bytes := by
  induction bytes generalizing s with
  | nil => exact Iff.rfl
  | cons ch bytes ih =>
      have hrest : Settled e (typed e (core s) ch) bytes ↔ Settled e (typed e s ch) bytes := by
        rw [← typed_core]
        exact ih
      exact and_congr Iff.rfl hrest

theorem settled_iff (h : ¬ Left s) (bytes : Bytes) :
    Chunks.Undisturbed (typed e) Left outcome (core s) bytes ↔ Settled e s bytes := by
  have hjust : JustLeft (core s) := fun hleft => absurd hleft h
  rw [undisturbed_iff hjust, settled_core]

-- What a feed has made of its bytes once some of those it interprets have been read.
def within (e : Env) (s : Session) (bytes before : Bytes) : Session :=
  if Left s then s
  else if startsPpp s bytes then { keepEarly s bytes with route := .ppp }
  else run (typed e) (keepEarly s bytes) before

structure DeliveryIndependent (e : Env) (s : Session) (bytes : Bytes) : Prop where
  cuts : ∀ pieces : List Bytes, pieces.flatten = bytes →
    outcome (pieces.foldl (feed e) s) = outcome (feed e s bytes)
  stays : ∀ before ch after, bytes = before ++ ch :: after → Left (within e s bytes before) →
    (within e s bytes (before ++ [ch])).route = (within e s bytes before).route
  later : Left (feed e s bytes) → ∀ pieces : List Bytes,
    (pieces.foldl (feed e) (feed e s bytes)).route = (feed e s bytes).route

example (e : Env) (s : Session) (bytes : Bytes) : within e s bytes bytes = feed e s bytes := rfl

theorem cuts_iff (hleft : ¬ Left s) {bytes : Bytes} (hstart : ¬ startsPpp s bytes) :
    (∀ pieces : List Bytes, pieces.flatten = bytes →
        outcome (pieces.foldl (feed e) s) = outcome (feed e s bytes)) ↔
      Settled e s bytes := by
  have hleft' : ¬ Left (core s) := hleft
  have hcut := @Chunks.cut_iff _ _ _ (typed e) Left outcome _ (fun _ _ => left_of_outcome)
    (fun _ _ _ => undone) (core s) hleft' bytes
  rw [← settled_iff hleft, ← hcut]
  refine forall_congr' fun pieces => forall_congr' fun hflat => ?_
  subst hflat
  rw [← pieces_core hstart, ← feed_core hstart, outcome_core, outcome_core]

theorem settled_stays (hleft : ¬ Left s) {bytes : Bytes} (h : Settled e s bytes)
    {before after : Bytes} {ch : UInt8} (hsplit : bytes = before ++ ch :: after)
    (hgone : Left (run (typed e) (keepEarly s bytes) before)) :
    outcome (run (typed e) (keepEarly s bytes) (before ++ [ch])) =
      outcome (run (typed e) (keepEarly s bytes) before) := by
  have hall := (along_iff_split bytes).mp ((settled_iff (e := e) hleft bytes).mpr h)
  have hsame := hall before ch after hsplit
  rw [← core_keepEarly s bytes, ← run_core, ← typed_core] at hsame
  rw [run_append]
  exact hsame hgone

theorem delivery_independent_iff (e : Env) (s : Session) (bytes : Bytes) :
    DeliveryIndependent e s bytes ↔
      Left s ∨ startsPpp s bytes ∨ Settled e s bytes := by
  have hlater (hdone : Left (feed e s bytes)) (pieces : List Bytes) :
      (pieces.foldl (feed e) (feed e s bytes)).route = (feed e s bytes).route := by
    rw [feed_all_left hdone]
  by_cases hleft : Left s
  · refine iff_of_true ⟨fun pieces _ => ?_, fun before ch _ _ _ => ?_, hlater⟩ (.inl hleft)
    · rw [feed_all_left hleft, feed_left hleft]
    · simp only [within, if_pos hleft]
  by_cases hstart : startsPpp s bytes
  · refine iff_of_true ⟨fun pieces hflat => ?_, fun before ch _ _ _ => ?_, hlater⟩
      (.inr (.inl hstart))
    · have hone := pieces_start (e := e) [bytes] hleft (by simpa using hstart)
      subst hflat
      rw [pieces_start pieces hleft hstart]
      exact hone.symm
    · simp only [within, if_neg hleft, if_pos hstart]
  constructor
  · intro h
    exact .inr (.inr ((cuts_iff hleft hstart).mp h.cuts))
  · rintro (h | h | h)
    · exact absurd h hleft
    · exact absurd h hstart
    · refine ⟨(cuts_iff hleft hstart).mpr h, fun before ch after hsplit hgone => ?_, hlater⟩
      simp only [within, if_neg hleft, if_neg hstart] at hgone ⊢
      exact congrArg Prod.fst (settled_stays hleft h hsplit hgone)

end Feed

section Batch

-- A database that refuses everything.
def closedBoard : Env where
  opened := false
  answer _ _ := .failed
  time _ := 1
  inserts _ _ _ _ := by simp

def batch : Bytes := ascii "dialup\rBBS\r"

def caller : ConnectionMeta :=
  { protocol := [], txBps := 0, rxBps := 0, connectedAt := 1, audioCodec := [], packetsRx := 0
    packetsTx := 0, packetsLost := 0, jitter := 0 }

-- In one piece the second line takes the caller who chose PPP back to the board.
theorem batch_depends_on_delivery :
    ¬ DeliveryIndependent closedBoard (create closedBoard caller) batch := by
  intro h
  have hcut := h.cuts [ascii "dialup\r", ascii "BBS\r"] (by decide)
  revert hcut
  decide

end Batch

end Softmodem.Bbs

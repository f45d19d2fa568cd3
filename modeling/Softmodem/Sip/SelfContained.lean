import Softmodem.Sip.Lines

namespace Softmodem.Sip

open CString

-- The datagram from each header line on: what follows a line feed inside the header area.
def lineStarts : Nat → Bytes → List Bytes
  | area + 1, c :: text =>
      if c = 10 ∧ area ≠ 0 then text :: lineStarts area text else lineStarts area text
  | _, _ => []

def headerLines (bytes : Bytes) : List Bytes := lineStarts (headerArea bytes) bytes

def viaNames : List Bytes := [ascii "Via:", ascii "v:"]

def otherNames : List Bytes := allNames.filter (· ∉ viaNames)

def CutShort (names : List Bytes) (text : Bytes) : Prop :=
  ∃ name ∈ names, text.length < name.length ∧ text.map lower <+: name.map lower

def isVia (text : Bytes) : Bool := viaNames.any (strncasecmp text)

def viaLines (bytes : Bytes) : Nat := (headerLines bytes).countP isVia

-- The headers other than the quiet ones are decided inside the datagram.
structure Contained (quiet : List Bytes) (vias : Nat) (texts : List Bytes) : Prop where
  via : vias + texts.countP isVia < smSipMaxVias → ∀ text ∈ texts, ¬ CutShort viaNames text
  others : ∀ text ∈ texts, ¬ CutShort (otherNames.filter (· ∉ quiet)) text
  length : ascii "Content-Length:" ∉ quiet → ∀ text ∈ texts,
    strncasecmp text (ascii "Content-Length:") = true → NumberEnds (text.drop 15)

structure SelfContained (bytes : Bytes) : Prop where
  statusLine : bytes.takeWhile (· ≠ 10) ≠ ascii "SIP/2.0"
  headers : Contained [] 0 (headerLines bytes)

theorem mem_otherNames {name : Bytes} (h : name ∈ allNames) (hvia : name ∉ viaNames)
    {quiet : List Bytes} (hquiet : name ∉ quiet) :
    name ∈ otherNames.filter (· ∉ quiet) := by
  rw [List.mem_filter, otherNames, List.mem_filter]
  exact ⟨⟨h, by simpa using hvia⟩, by simpa using hquiet⟩

theorem viaNames_sub : ∀ name ∈ viaNames, name ∈ allNames := by decide

def viaField : HeaderField := ⟨viaNames, 320, addVia⟩

theorem viaField_mem : viaField ∈ headerFields := List.mem_cons_self

theorem strncasecmp_stale {text name : Bytes} (h : ¬ CutShort [name] text) (stale : Bytes) :
    strncasecmp (text ++ stale) name = strncasecmp text name := by
  rcases Nat.lt_or_ge text.length name.length with hlt | hge
  · have hfalse : strncasecmp text name = false := by
      rw [Bool.eq_false_iff]
      intro ht
      exact absurd (strncasecmp_length ht) (by omega)
    rw [hfalse, Bool.eq_false_iff]
    intro ht
    rw [strncasecmp_iff, List.map_append] at ht
    refine h ⟨name, List.mem_singleton_self _, hlt, ?_⟩
    exact List.prefix_of_prefix_length_le (List.prefix_append ..) ht (by simpa using hlt.le)
  · exact strncasecmp_append stale hge

theorem CutShort.mono {names names' : List Bytes} {text : Bytes}
    (hsub : ∀ n ∈ names, n ∈ names') : CutShort names text → CutShort names' text :=
  fun ⟨name, hname, h⟩ => ⟨name, hsub name hname, h⟩

theorem CutShort.unknown {names : List Bytes} {text : Bytes} (h : CutShort names text)
    (hsub : ∀ n ∈ names, n ∈ allNames) : ∀ n ∈ allNames, strncasecmp text n = false := by
  obtain ⟨name, hname, hlt, hstart⟩ := h
  intro n hn
  rw [Bool.eq_false_iff]
  intro ht
  have hlen := strncasecmp_length ht
  rw [strncasecmp_iff] at ht
  obtain rfl := names_apart n hn name (hsub name hname) (ht.trans hstart)
  omega

theorem take_stale {text : Bytes} {start eol : Nat} (h : eol ≤ text.length) (stale : Bytes) :
    ((text ++ stale).drop start).take (eol - start) = (text.drop start).take (eol - start) := by
  rcases Nat.le_total start text.length with hs | hs
  · rw [List.drop_append_of_le_length hs, List.take_append_of_le_length (by simp; omega)]
  · rw [Nat.sub_eq_zero_of_le (le_trans h hs), List.take_zero, List.take_zero]

theorem line_not_cutShort {names : List Bytes} (hsub : ∀ n ∈ names, n ∈ allNames)
    (line rest : Bytes) : ¬ CutShort names (line ++ 10 :: rest) := by
  rintro ⟨name, hname, -, hstart⟩
  apply names_plain name (hsub name hname)
  apply hstart.subset
  rw [List.map_append]
  exact List.mem_append_right _ List.mem_cons_self

theorem otherNames_sub {quiet : List Bytes} :
    ∀ n ∈ otherNames.filter (· ∉ quiet), n ∈ allNames :=
  fun _ hn => List.mem_of_mem_filter (List.mem_of_mem_filter hn)

-- An observation of the message that the quiet headers do not show in.
structure Reads {β : Type} (obs : SipMsg → β) (quiet : List Bytes) : Prop where
  set : ∀ field ∈ headerFields, ∀ m m' v, obs m = obs m' →
    obs (field.set m v) = obs (field.set m' v)
  length : ∀ m m' n, obs m = obs m' →
    obs { m with contentLength := n } = obs { m' with contentLength := n }
  vias : ∀ m m', obs m = obs m' → m.via.length = m'.via.length
  quietField : ∀ field ∈ headerFields, ∀ n ∈ field.names, n ∈ quiet → ∀ m v,
    obs (field.set m v) = obs m
  quietLength : ascii "Content-Length:" ∈ quiet → ∀ m n,
    obs { m with contentLength := n } = obs m

section Stale

variable {β : Type} {obs : SipMsg → β} {quiet : List Bytes} (hobs : Reads obs quiet)

include hobs

-- Bytes behind the datagram complete a name only where the datagram cuts it short.
theorem parseField_completed {text : Bytes}
    (hnone : ∀ n ∈ allNames, strncasecmp text n = false)
    (hcut : ¬ CutShort (otherNames.filter (· ∉ quiet)) text) {m : SipMsg}
    (hvia : CutShort viaNames text → smSipMaxVias ≤ m.via.length) (eol : Nat)
    (stale : Bytes) : obs (parseField (text ++ stale) 0 eol m headerFields) = obs m := by
  have hcompleted (n : Bytes) (hn : n ∈ allNames)
      (ht : strncasecmp (text ++ stale) n = true) : CutShort [n] text := by
    by_contra hno
    rw [strncasecmp_stale hno, hnone n hn] at ht
    simp at ht
  have hquiet (n : Bytes) (hn : n ∈ allNames) (hother : n ∉ viaNames)
      (ht : strncasecmp (text ++ stale) n = true) : n ∈ quiet := by
    by_contra hloud
    exact hcut ((hcompleted n hn ht).mono (by simpa using mem_otherNames hn hother hloud))
  rcases header_cases (text ++ stale) with ⟨field, hfield, n, hn, ht⟩ | hlength | hunknown
  · have hmem := field_names_mem hfield hn
    by_cases hname : n ∈ viaNames
    · have hfull := hvia ((hcompleted n hmem ht).mono (by simpa using hname))
      rw [parseField_named viaField_mem hname ht]
      exact congrArg obs (if_neg (by omega))
    · rw [parseField_named hfield hn ht]
      exact hobs.quietField field hfield n hn (hquiet n hmem hname ht) m _
  · have hnotVia : ascii "Content-Length:" ∉ viaNames := by decide
    rw [parseField_content_length hlength]
    exact hobs.quietLength (hquiet _ length_name_mem hnotVia hlength) m _
  · rw [parseField_unknown hunknown]

theorem parseField_stale {text : Bytes} {eol : Nat} (heol : eol ≤ text.length)
    (hcmp : ∀ n ∈ allNames, strncasecmp text n = true → n.length ≤ eol)
    (hcut : ¬ CutShort (otherNames.filter (· ∉ quiet)) text)
    (hends : ascii "Content-Length:" ∉ quiet →
      strncasecmp text (ascii "Content-Length:") = true → NumberEnds (text.drop 15))
    {m m' : SipMsg} (hm : obs m = obs m')
    (hvia : CutShort viaNames text → smSipMaxVias ≤ m.via.length) (stale : Bytes) :
    obs (parseField (text ++ stale) 0 eol m headerFields) =
      obs (parseField text 0 eol m' headerFields) := by
  have hstill {n : Bytes} (ht : strncasecmp text n = true) :
      strncasecmp (text ++ stale) n = true :=
    (strncasecmp_append stale (strncasecmp_length ht)).trans ht
  rcases header_cases text with ⟨field, hfield, n, hn, ht⟩ | hlength | hunknown
  · have hlen := hcmp n (field_names_mem hfield hn) ht
    rw [parseField_named hfield hn ht, parseField_named hfield hn (hstill ht),
      copyLineValue_inside hlen, copyLineValue_inside hlen, take_stale heol]
    exact hobs.set field hfield m m' _ hm
  · rw [parseField_content_length hlength, parseField_content_length (hstill hlength)]
    by_cases hquiet : ascii "Content-Length:" ∈ quiet
    · calc obs { m with contentLength := _ }
        _ = obs m := hobs.quietLength hquiet m _
        _ = obs m' := hm
        _ = obs { m' with contentLength := _ } := (hobs.quietLength hquiet m' _).symm
    · have hdrop : (text ++ stale).drop 15 = text.drop 15 ++ stale :=
        List.drop_append_of_le_length (strncasecmp_length hlength)
      rw [hdrop, atoi_append (hends hquiet hlength)]
      exact hobs.length m m' _ hm
  · rw [parseField_completed hobs hunknown hcut hvia, parseField_unknown hunknown, hm]

theorem parseLine_stale {line rest : Bytes}
    (hends : ascii "Content-Length:" ∉ quiet →
      strncasecmp (line ++ 10 :: rest) (ascii "Content-Length:") = true →
      NumberEnds ((line ++ 10 :: rest).drop 15)) {m m' : SipMsg} (hm : obs m = obs m')
    (stale : Bytes) : obs (parseLine line (rest ++ stale) m) = obs (parseLine line rest m') := by
  rw [parseLine, parseLine]
  split
  · exact hm
  · have happend : line ++ 10 :: (rest ++ stale) = line ++ 10 :: rest ++ stale := by simp
    rw [happend]
    apply parseField_stale hobs (by simp) _ (line_not_cutShort otherNames_sub line rest) hends hm
    · exact fun hvia => absurd hvia (line_not_cutShort viaNames_sub line rest)
    · intro n hn ht
      rw [strncasecmp_line hn] at ht
      exact strncasecmp_length ht

end Stale

theorem isVia_line (line rest : Bytes) : isVia (line ++ 10 :: rest) = isVia line := by
  rw [isVia, isVia, Bool.eq_iff_iff, List.any_eq_true, List.any_eq_true]
  refine exists_congr fun n => and_congr_right fun hn => ?_
  rw [strncasecmp_line (viaNames_sub n hn)]

theorem set_via {field : HeaderField} (hfield : field ∈ headerFields)
    (hvia : field.names ≠ viaNames) (m : SipMsg) (value : Bytes) :
    (field.set m value).via = m.via := by
  simp only [headerFields, List.mem_cons, List.not_mem_nil, or_false] at hfield
  rcases hfield with rfl | rfl | rfl | rfl | rfl | rfl | rfl | rfl
  · exact absurd rfl hvia
  all_goals rfl

theorem addVia_length (m : SipMsg) (value : Bytes) :
    (addVia m value).via.length =
      if m.via.length < smSipMaxVias then m.via.length + 1 else m.via.length := by
  rw [addVia]
  split <;> simp

theorem parseField_not_via {text : Bytes} (hvia : ¬ isVia text = true) (eol : Nat) (m : SipMsg) :
    (parseField text 0 eol m headerFields).via = m.via := by
  rcases header_cases text with ⟨field, hfield, n, hn, ht⟩ | hlength | hunknown
  · rw [parseField_named hfield hn ht, set_via hfield]
    intro hnames
    exact hvia (List.any_eq_true.mpr ⟨n, hnames ▸ hn, ht⟩)
  · rw [parseField_content_length hlength]
  · rw [parseField_unknown hunknown]

theorem parseField_via_length (text : Bytes) (eol : Nat) (m : SipMsg) :
    (parseField text 0 eol m headerFields).via.length =
      if isVia text = true ∧ m.via.length < smSipMaxVias then m.via.length + 1
      else m.via.length := by
  by_cases hvia : isVia text = true
  · obtain ⟨n, hn, ht⟩ := List.any_eq_true.mp hvia
    rw [parseField_named viaField_mem hn ht]
    simp only [hvia, true_and]
    exact addVia_length m _
  · rw [if_neg fun h => hvia h.1, parseField_not_via hvia]

theorem parseLine_via_length (line rest : Bytes) (m : SipMsg) :
    (parseLine line rest m).via.length =
      if isVia (line ++ 10 :: rest) = true ∧ m.via.length < smSipMaxVias then m.via.length + 1
      else m.via.length := by
  rw [parseLine]
  split
  · next hblank =>
      have hnot : isVia (line ++ 10 :: rest) = false := by
        rw [isVia_line]
        rcases hblank with rfl | rfl <;> decide
      simp [hnot]
  · exact parseField_via_length ..

theorem lineStarts_line {line : Bytes} (hline : (10 : UInt8) ∉ line) (text : Bytes) (area : Nat) :
    lineStarts (line.length + 1 + area) (line ++ 10 :: text) =
      if area = 0 then [] else text :: lineStarts area text := by
  induction line with
  | nil =>
      cases area with
      | zero => cases text <;> simp [lineStarts]
      | succ area =>
          rw [List.length_nil, Nat.zero_add, Nat.add_comm 1, List.nil_append, lineStarts]
          simp
  | cons c line ih =>
      have hc : c ≠ 10 := fun h => hline (by simp [h])
      have hlen : (c :: line).length + 1 + area = (line.length + 1 + area) + 1 := by
        simp only [List.length_cons]
        omega
      rw [hlen, List.cons_append, lineStarts, if_neg fun h => hc h.1]
      exact ih fun h => hline (List.mem_cons_of_mem _ h)

theorem lineStarts_last {text : Bytes} {area : Nat} (htext : (10 : UInt8) ∉ text.take area) :
    lineStarts area text = [] := by
  induction area generalizing text with
  | zero => rfl
  | succ area ih =>
      cases text with
      | nil => rfl
      | cons c text =>
          rw [List.take_succ_cons, List.mem_cons, not_or] at htext
          rw [lineStarts, if_neg fun h => htext.1 h.1.symm]
          exact ih htext.2

def linesFrom (area : Nat) (text : Bytes) : List Bytes :=
  if area = 0 then [] else text :: lineStarts area text

theorem headerLines_line {first rest : Bytes} (hfirst : (10 : UInt8) ∉ first) {area : Nat}
    (harea : headerArea (first ++ 10 :: rest) = first.length + 1 + area) :
    headerLines (first ++ 10 :: rest) = linesFrom area rest := by
  rw [headerLines, harea, lineStarts_line hfirst, linesFrom]

theorem linesFrom_line {line : Bytes} (hline : (10 : UInt8) ∉ line) (text : Bytes)
    (area : Nat) :
    linesFrom (line.length + 1 + area) (line ++ 10 :: text) =
      (line ++ 10 :: text) :: linesFrom area text := by
  rw [linesFrom, if_neg (by omega), lineStarts_line hline, linesFrom]

theorem linesFrom_last {text : Bytes} {area : Nat} (hpos : 0 < area)
    (htext : (10 : UInt8) ∉ text.take area) : linesFrom area text = [text] := by
  rw [linesFrom, if_neg (by omega), lineStarts_last htext]

-- The rest of the header area: nothing, a line and what follows it, or a last line without end.
theorem area_cases {area : Nat} {text : Bytes} (harea : area ≤ text.length) :
    area = 0 ∨
      (∃ line rest more, (10 : UInt8) ∉ line ∧ text = line ++ 10 :: rest ∧
        area = line.length + 1 + more ∧ more ≤ rest.length) ∨
      0 < area ∧ (10 : UInt8) ∉ text.take area := by
  by_cases hmem : (10 : UInt8) ∈ text.take area
  · obtain ⟨line, tail, htake, hline⟩ := List.eq_append_cons_of_mem hmem
    have htext := List.take_append_drop area text
    rw [htake, List.append_assoc, List.cons_append] at htext
    have hlen := congrArg List.length htake
    rw [List.length_take, Nat.min_eq_left harea, List.length_append, List.length_cons] at hlen
    exact .inr (.inl ⟨line, tail ++ text.drop area, tail.length, hline, htext.symm, by omega,
      by simp⟩)
  · rcases Nat.eq_zero_or_pos area with rfl | hpos
    · exact .inl rfl
    · exact .inr (.inr ⟨hpos, hmem⟩)

def AreaEnds (area : Nat) (text : Bytes) : Prop :=
  area = text.length ∨ area = 0 ∨ ∃ a, text.take area = a ++ [10]

theorem AreaEnds.line {line text : Bytes} {area : Nat}
    (harea : area ≤ text.length) (h : AreaEnds (line.length + 1 + area) (line ++ 10 :: text)) :
    AreaEnds area text := by
  rcases h with h | h | ⟨a, h⟩
  · refine .inl ?_
    simp only [List.length_append, List.length_cons] at h
    omega
  · omega
  · rcases Nat.eq_zero_or_pos area with rfl | hpos
    · exact .inr (.inl rfl)
    · rw [Nat.add_assoc, List.take_length_add_append, Nat.add_comm 1, List.take_succ_cons] at h
      rcases List.eq_nil_or_concat' (text.take area) with hnil | ⟨b, c, hb⟩
      · have hlen := congrArg List.length hnil
        rw [List.length_take, Nat.min_eq_left harea, List.length_nil] at hlen
        omega
      · refine .inr (.inr ⟨b, ?_⟩)
        rw [hb, ← List.cons_append, ← List.append_assoc] at h
        rw [hb, (List.append_inj' h rfl).2]

theorem AreaEnds.last {text : Bytes} {area : Nat} (hpos : 0 < area)
    (htext : (10 : UInt8) ∉ text.take area) (h : AreaEnds area text) : area = text.length := by
  rcases h with h | rfl | ⟨a, h⟩
  · exact h
  · omega
  · exact absurd (h ▸ by simp) htext

theorem parseHeaders_stale {β : Type} {obs : SipMsg → β} {quiet : List Bytes}
    (hobs : Reads obs quiet) {left : Nat} :
    ∀ {area : Nat} {text : Bytes} {m m' : SipMsg}, obs m = obs m' → area ≤ left →
      area ≤ text.length → AreaEnds area text →
      Contained quiet m.via.length (linesFrom area text) → ∀ stale,
      obs (parseHeaders (text ++ stale) area left 0 m) =
        obs (parseHeaders text area left 0 m') := by
  induction left with
  | zero =>
      intro area text m m' hm hleft
      obtain rfl : area = 0 := by omega
      simp [parseHeaders_nil, hm]
  | succ left ih =>
      intro area text m m' hm hleft harea hends hin stale
      rcases area_cases harea with rfl | ⟨line, rest, more, hline, rfl, rfl, hmore⟩ |
        ⟨hpos, htext⟩
      · simp only [parseHeaders_nil, hm]
      · rw [linesFrom_line hline] at hin
        have happend : line ++ 10 :: rest ++ stale = line ++ 10 :: (rest ++ stale) := by simp
        rw [happend, parseHeaders_line hline, parseHeaders_line hline]
        refine ih (parseLine_stale hobs (fun hq => hin.length hq _ List.mem_cons_self) hm stale)
          (by omega) hmore (hends.line hmore) ⟨?_, ?_, ?_⟩ stale
        · intro hcount text htext
          refine hin.via ?_ text (List.mem_cons_of_mem _ htext)
          rw [parseLine_via_length, isVia_line] at hcount
          rw [List.countP_cons, isVia_line]
          split at hcount <;> split <;> simp_all <;> omega
        · exact fun text htext => hin.others text (List.mem_cons_of_mem _ htext)
        · exact fun hq text htext => hin.length hq text (List.mem_cons_of_mem _ htext)
      · rw [linesFrom_last hpos htext] at hin
        obtain rfl := hends.last hpos htext
        have hself := List.mem_singleton_self text
        rw [parseHeaders_last hpos le_rfl htext,
          parseHeaders_last hpos (by simp) (by simpa using htext)]
        have hhead : (text ++ stale).getD 0 0 = text.getD 0 0 := by
          rw [List.getD_eq_getElem?_getD, List.getElem?_append_left hpos,
            List.getD_eq_getElem?_getD]
        rw [hhead]
        split
        · exact hm
        · refine parseField_stale hobs le_rfl (fun n _ ht => strncasecmp_length ht)
            (hin.others text hself) (fun hq => hin.length hq text hself) hm ?_ stale
          intro hvia
          by_contra hlt
          have hnot : isVia text = false := by
            rw [isVia, List.any_eq_false]
            exact fun n hn => by simp [hvia.unknown viaNames_sub n (viaNames_sub n hn)]
          exact hin.via (by simp [hnot]; omega) text hself hvia

theorem reads_all : Reads id [] :=
  ⟨fun _ _ _ _ _ h => by simp_all, fun _ _ _ h => by simp_all, fun _ _ h => by simp_all,
    fun _ _ _ _ h => absurd h List.not_mem_nil, fun h => absurd h List.not_mem_nil⟩

theorem strncmp_stop {pat : Bytes} (h : (0 : UInt8) ∉ pat) (s t : Bytes) :
    strncmp (s ++ 0 :: t) pat = strncmp s pat := by
  rw [Bool.eq_iff_iff, strncmp, strncmp, List.isPrefixOf_iff_prefix, List.isPrefixOf_iff_prefix,
    prefix_append_cons_iff h]

theorem statusLine_plain : (0 : UInt8) ∉ ascii "SIP/2.0" := by decide

theorem statusLine_length : (ascii "SIP/2.0").length = 7 := by decide

theorem parseFirstLine_stale {first : Bytes} (hfirst : first ≠ ascii "SIP/2.0") (rest : Bytes)
    (line line' : Bytes) (len len' : Nat) (stale stale' : Bytes) (m : SipMsg) :
    parseFirstLine ⟨first ++ rest ++ stale, len, line⟩ first.length m =
      parseFirstLine ⟨first ++ rest ++ stale', len', line'⟩ first.length m := by
  have htake (stale : Bytes) : (first ++ rest ++ stale).take (min first.length 511) =
      first.take 511 := by
    rw [List.append_assoc, List.take_append_of_le_length (by omega)]
    rcases Nat.le_total first.length 511 with h | h
    · rw [Nat.min_eq_left h, List.take_of_length_le le_rfl, List.take_of_length_le h]
    · rw [Nat.min_eq_right h]
  simp only [parseFirstLine, htake, strncmp_stop statusLine_plain, cstr_append_zero]
  split
  · next hstatus =>
      have hlen : 8 ≤ (first.take 511).length := by
        rw [strncmp, List.isPrefixOf_iff_prefix] at hstatus
        have hle := hstatus.length_le
        rw [statusLine_length] at hle
        rcases Nat.lt_or_ge (first.take 511).length 8 with hlt | hge
        · have heq := hstatus.eq_of_length (by rw [statusLine_length]; omega)
          rw [List.length_take] at hlt
          rw [List.take_of_length_le (by omega)] at heq
          exact absurd heq.symm hfirst
        · exact hge
      have hdrop (line : Bytes) :
          atoi ((first.take 511 ++ 0 :: line).drop 8) = atoi ((first.take 511).drop 8) := by
        rw [List.drop_append_of_le_length hlen]
        exact atoi_stop (by decide) (by decide) (by decide) (by decide) _ _
      rw [hdrop, hdrop]
  · rfl

theorem parseBody_stale {bytes : Bytes} {body : Nat} (m : SipMsg) (stale line : Bytes) :
    parseBody (datagram bytes stale line) body m = parseBody (datagram bytes [] []) body m := by
  rcases Nat.lt_or_ge body bytes.length with h | h
  · have hdrop {n : Nat} (hn : n ≤ bytes.length - body) :
        ((bytes ++ stale).drop body).take n = ((bytes ++ []).drop body).take n := by
      rw [List.append_nil, List.drop_append_of_le_length h.le,
        List.take_append_of_le_length (by simpa using hn)]
    have hd (stale line : Bytes) : body < (datagram bytes stale line).len := h
    rw [parseBody, parseBody, if_pos (hd stale line), if_pos (hd [] [])]
    dsimp only [datagram]
    rw [hdrop]
    split <;> omega
  · have hd (stale line : Bytes) : ¬ body < (datagram bytes stale line).len := Nat.not_lt.mpr h
    rw [parseBody, parseBody, if_neg (hd stale line), if_neg (hd [] [])]

theorem takeWhile_line {first : Bytes} (hfirst : (10 : UInt8) ∉ first) (rest : Bytes) :
    (first ++ 10 :: rest).takeWhile (· ≠ 10) = first := by
  rw [List.takeWhile_append_of_pos fun c hc => by
    simpa using fun h : c = 10 => hfirst (h ▸ hc)]
  simp

theorem parseSip_stale {bytes : Bytes} (h : SelfContained bytes) (stale line : Bytes) :
    parseSip (datagram bytes stale line) = parseSip (datagram bytes [] []) := by
  have hfirstLine := h.statusLine
  by_cases hmem : (10 : UInt8) ∈ bytes
  · obtain ⟨first, rest, rfl, hfirst⟩ := List.eq_append_cons_of_mem hmem
    rw [takeWhile_line hfirst] at hfirstLine
    obtain ⟨area, harea, hle, hends⟩ := headerArea_line hfirst rest
    have hin := h.headers
    rw [headerLines_line hfirst harea] at hin
    rw [parseSip_line hfirst harea, parseSip_line hfirst harea, parseBody_stale]
    simp only [datagram]
    rw [parseFirstLine_stale hfirstLine (10 :: rest) line [] _ _ stale [], List.append_nil rest]
    exact congrArg _ (parseHeaders_stale reads_all rfl le_rfl hle hends
      (by rwa [parseFirstLine_via]) stale)
  · have hall : bytes.takeWhile (· ≠ 10) = bytes :=
      List.takeWhile_eq_self_iff.mpr fun c hc => by
        simpa using fun h : c = 10 => hmem (h ▸ hc)
    rw [hall] at hfirstLine
    rw [parseSip_no_line hmem, parseSip_no_line hmem]
    simpa [datagram] using parseFirstLine_stale hfirstLine [] line [] bytes.length bytes.length
      stale [] sipMsgZero

theorem parseHeaders_reach {left : Nat} :
    ∀ {area : Nat} {text : Bytes} {m : SipMsg}, area ≤ left → area ≤ text.length →
      ∀ t ∈ linesFrom area text, ∀ stale, ∃ m' area' left',
        parseHeaders (text ++ stale) area left 0 m = parseHeaders (t ++ stale) area' left' 0 m' ∧
          0 < area' ∧ area' ≤ left' ∧ area' ≤ t.length ∧
          (AreaEnds area text → AreaEnds area' t) ∧
          m'.via.length ≤ m.via.length + (linesFrom area text).countP isVia := by
  induction left with
  | zero =>
      intro area text m hleft harea t ht
      obtain rfl : area = 0 := by omega
      simp [linesFrom] at ht
  | succ left ih =>
      intro area text m hleft harea t ht stale
      rcases area_cases harea with rfl | ⟨line, rest, more, hline, rfl, rfl, hmore⟩ |
        ⟨hpos, htext⟩
      · simp [linesFrom] at ht
      · have hlines := linesFrom_line hline rest more
        rw [hlines, List.mem_cons] at ht
        rcases ht with rfl | ht
        · exact ⟨m, _, _, rfl, by omega, hleft, harea, id, by omega⟩
        · obtain ⟨m', area', left', heq, hpos, hle, hfit, hends, hvia⟩ :=
            ih (m := parseLine line (rest ++ stale) m) (by omega) hmore t ht stale
          refine ⟨m', area', left', ?_, hpos, hle, hfit, fun h => hends (h.line hmore), ?_⟩
          · rw [← heq, List.append_assoc, List.cons_append, parseHeaders_line hline]
          · rw [parseLine_via_length, isVia_line] at hvia
            rw [hlines, List.countP_cons, isVia_line]
            split at hvia <;> split <;> simp_all <;> omega
      · rw [linesFrom_last hpos htext, List.mem_singleton] at ht
        subst ht
        exact ⟨m, area, left + 1, rfl, hpos, hleft, harea, id, by omega⟩

theorem CutShort.no_line {names : List Bytes} {text : Bytes} (h : CutShort names text)
    (hsub : ∀ n ∈ names, n ∈ allNames) : (10 : UInt8) ∉ text := by
  obtain ⟨name, hname, -, hstart⟩ := h
  intro hmem
  exact names_plain name (hsub name hname) (hstart.subset (List.mem_map_of_mem (f := lower) hmem))

-- What the bytes behind the datagram make of a name that it cuts short.
theorem completed_matches {text name : Bytes} (hstart : text.map lower <+: name.map lower)
    (value : Bytes) :
    strncasecmp (text ++ (name.drop text.length ++ value)) name = true := by
  have htake : text.map lower = (name.take text.length).map lower := by
    rw [List.map_take]
    have h := List.prefix_iff_eq_take.mp hstart
    rwa [List.length_map] at h
  rw [strncasecmp_iff, List.map_append, List.map_append, htake, ← List.append_assoc,
    ← List.map_append, List.take_append_drop]
  exact List.prefix_append _ _

theorem drop_completed {text name : Bytes} (hlt : text.length < name.length) (value : Bytes) :
    (text ++ (name.drop text.length ++ value)).drop name.length = value := by
  have hlen : (text ++ name.drop text.length).length = name.length := by
    rw [List.length_append, List.length_drop, Nat.add_sub_cancel' hlt.le]
  rw [← List.append_assoc, ← hlen, List.drop_left]

theorem parseHeaders_completed {text name : Bytes} (hname : name ∈ allNames) (hpos : text ≠ [])
    (hlt : text.length < name.length) (hstart : text.map lower <+: name.map lower)
    (value : Bytes) (left : Nat) (m : SipMsg) :
    parseHeaders (text ++ (name.drop text.length ++ value)) text.length (left + 1) 0 m =
      parseField (text ++ (name.drop text.length ++ value)) 0 text.length m headerFields := by
  have hline : (10 : UInt8) ∉ text :=
    CutShort.no_line ⟨name, hname, hlt, hstart⟩ fun n hn => hn
  have hreturn : (13 : UInt8) ∉ text := by
    intro hmem
    exact names_no_return name hname (hstart.subset (List.mem_map_of_mem (f := lower) hmem))
  rw [parseHeaders_last (List.length_pos_iff.mpr hpos) (by simp) (by simpa using hline), if_neg]
  rintro ⟨hhead, hlen⟩
  obtain ⟨c, rfl⟩ := List.length_eq_one_iff.mp hlen
  simp_all

theorem copyLineValue_outside {mem : Bytes} {start e : Nat} (h : e < start) (size : Nat) :
    copyLineValue mem start e size = cstr ((mem.drop start).take (size - 1)) := by
  rw [copyLineValue, if_pos h]

theorem set_differs {field : HeaderField} (hfield : field ∈ headerFields) {m m' : SipMsg}
    (hvia : field.names = viaNames →
      m.via.length < smSipMaxVias ∧ m'.via.length < smSipMaxVias) (body body' : Bytes) :
    { field.set m [97] with body := body } ≠ { field.set m' [98] with body := body' } := by
  intro h
  simp only [headerFields, List.mem_cons, List.not_mem_nil, or_false] at hfield
  rcases hfield with rfl | rfl | rfl | rfl | rfl | rfl | rfl | rfl
  · have hlt := hvia rfl
    have hlist := congrArg SipMsg.via h
    simp only [addVia, if_pos hlt.1, if_pos hlt.2] at hlist
    simpa using (List.append_inj' hlist rfl).2
  · simpa [setFrom] using congrArg SipMsg.fromHdr h
  · simpa [setTo] using congrArg SipMsg.toHdr h
  · simpa using congrArg SipMsg.callId h
  · simpa [setCseq] using congrArg SipMsg.cseq h
  · simpa using congrArg SipMsg.contact h
  · simpa using congrArg SipMsg.contentType h
  · simpa using congrArg SipMsg.userAgent h

theorem sizes_hold : ∀ field ∈ headerFields, 2 ≤ field.size := by decide

theorem parseSip_reach {bytes t : Bytes} (ht : t ∈ headerLines bytes) (stale line : Bytes) :
    ∃ m area left body,
      parseSip (datagram bytes stale line) =
        { parseHeaders (t ++ stale) area (left + 1) 0 m with body := body } ∧
      0 < area ∧ area ≤ left + 1 ∧ area ≤ t.length ∧ AreaEnds area t ∧
      m.via.length ≤ viaLines bytes := by
  by_cases hmem : (10 : UInt8) ∈ bytes
  · obtain ⟨first, rest, rfl, hfirst⟩ := List.eq_append_cons_of_mem hmem
    obtain ⟨area, harea, hle, hends⟩ := headerArea_line hfirst rest
    have hlines := headerLines_line hfirst harea
    rw [hlines] at ht
    obtain ⟨m, area', left, heq, hpos, hleft, hfit, hends', hvia⟩ :=
      parseHeaders_reach (m := parseFirstLine (datagram (first ++ 10 :: rest) stale line)
        first.length sipMsgZero) le_rfl hle t ht stale
    obtain ⟨left, rfl⟩ := Nat.exists_eq_add_of_lt (Nat.lt_of_lt_of_le hpos hleft)
    rw [Nat.zero_add] at heq hleft
    have hsip := parseSip_line hfirst harea stale line
    dsimp only at hsip
    rw [parseBody_eq, heq] at hsip
    refine ⟨m, area', left, _, hsip, hpos, hleft, hfit, hends' hends, ?_⟩
    rwa [parseFirstLine_via, List.length_nil, Nat.zero_add, ← hlines] at hvia
  · rw [headerLines, lineStarts_last] at ht
    · simp at ht
    · exact fun h => hmem (List.mem_of_mem_take h)

theorem AreaEnds.eq_length {area : Nat} {text : Bytes} (h : AreaEnds area text)
    (hpos : 0 < area) (htext : (10 : UInt8) ∉ text) : area = text.length :=
  h.last hpos fun hmem => htext (List.mem_of_mem_take hmem)

theorem parseSip_completed {bytes t name : Bytes} (ht : t ∈ headerLines bytes)
    (hname : name ∈ allNames) (hlt : t.length < name.length)
    (hstart : t.map lower <+: name.map lower) (value line : Bytes) :
    ∃ m body,
      parseSip (datagram bytes (name.drop t.length ++ value) line) =
        { parseField (t ++ (name.drop t.length ++ value)) 0 t.length m headerFields with
          body := body } ∧
      m.via.length ≤ viaLines bytes := by
  obtain ⟨m, area, left, body, heq, hpos, -, hfit, hends, hvia⟩ :=
    parseSip_reach ht (name.drop t.length ++ value) line
  have hline : (10 : UInt8) ∉ t :=
    CutShort.no_line ⟨name, hname, hlt, hstart⟩ fun n hn => hn
  obtain rfl := hends.eq_length hpos hline
  refine ⟨m, body, ?_, hvia⟩
  rw [heq, parseHeaders_completed hname (List.length_pos_iff.mp hpos) hlt hstart]

theorem cutShort_leaks {bytes t : Bytes} (ht : t ∈ headerLines bytes)
    (hcut : CutShort otherNames t ∨ viaLines bytes < smSipMaxVias ∧ CutShort viaNames t) :
    ∃ stale stale', parseSip (datagram bytes stale []) ≠ parseSip (datagram bytes stale' []) := by
  have hnamed : ∃ name ∈ allNames, t.length < name.length ∧ t.map lower <+: name.map lower ∧
      (name ∈ viaNames → viaLines bytes < smSipMaxVias) := by
    rcases hcut with ⟨name, hname, hlt, hstart⟩ | ⟨hvia, name, hname, hlt, hstart⟩
    · rw [otherNames, List.mem_filter] at hname
      exact ⟨name, hname.1, hlt, hstart, fun h => absurd h (of_decide_eq_true hname.2)⟩
    · exact ⟨name, viaNames_sub name hname, hlt, hstart, fun _ => hvia⟩
  obtain ⟨name, hname, hlt, hstart, hvia⟩ := hnamed
  rcases List.mem_append.mp hname with hmem | hmem
  · obtain ⟨field, hfield, hn⟩ := List.mem_flatMap.mp hmem
    obtain ⟨m, body, heq, hm⟩ := parseSip_completed ht hname hlt hstart [97] []
    obtain ⟨m', body', heq', hm'⟩ := parseSip_completed ht hname hlt hstart [98] []
    refine ⟨name.drop t.length ++ [97], name.drop t.length ++ [98], ?_⟩
    have hvalue (c : UInt8) (hc : c ≠ 0) : cstr ([c].take (field.size - 1)) = [c] := by
      have hsize := sizes_hold field hfield
      rw [List.take_of_length_le (by simp; omega)]
      simp [cstr, hc]
    rw [heq, heq', parseField_named hfield hn (completed_matches hstart _),
      parseField_named hfield hn (completed_matches hstart _), copyLineValue_outside hlt,
      copyLineValue_outside hlt, drop_completed hlt, drop_completed hlt,
      hvalue 97 (by decide), hvalue 98 (by decide)]
    apply set_differs hfield
    intro hnames
    have hlimit := hvia (hnames ▸ hn)
    exact ⟨by omega, by omega⟩
  · obtain rfl := List.mem_singleton.mp hmem
    obtain ⟨m, body, heq, -⟩ := parseSip_completed ht hname hlt hstart [49] []
    obtain ⟨m', body', heq', -⟩ := parseSip_completed ht hname hlt hstart [50] []
    refine ⟨(ascii "Content-Length:").drop t.length ++ [49],
      (ascii "Content-Length:").drop t.length ++ [50], ?_⟩
    have hdrop (value : Bytes) :
        (t ++ ((ascii "Content-Length:").drop t.length ++ value)).drop 15 = value :=
      drop_completed hlt value
    rw [heq, heq', parseField_content_length (completed_matches hstart _),
      parseField_content_length (completed_matches hstart _), hdrop, hdrop]
    intro h
    have hone : atoi [49] = atoi [50] := congrArg SipMsg.contentLength h
    exact absurd hone (by decide)

def isNumeric (c : UInt8) : Bool := isSpace c || isDigit c || c = 43 || c = 45

theorem names_not_numeric : ∀ name ∈ allNames, ∃ c ∈ name.map lower, isNumeric c = false := by
  decide

theorem lower_numeric {c : UInt8} (h : isNumeric c = true) : lower c = c := by
  refine if_neg fun hupper => ?_
  have hle := UInt8.le_iff_toNat_le.mp hupper.1
  simp only [isNumeric, isSpace, isDigit, Bool.or_eq_true, Bool.and_eq_true, decide_eq_true_eq,
    UInt8.le_iff_toNat_le, ← UInt8.toNat_inj, UInt8.reduceToNat] at h hle
  omega

theorem numeric_unknown {text : Bytes} (h : ∀ c ∈ text, isNumeric c = true) :
    ∀ n ∈ allNames, strncasecmp text n = false := by
  intro n hn
  rw [Bool.eq_false_iff]
  intro ht
  obtain ⟨c, hc, hnot⟩ := names_not_numeric n hn
  obtain ⟨d, hd, rfl⟩ := List.mem_map.mp ((strncasecmp_iff.mp ht).subset hc)
  rw [lower_numeric (h d hd), h d hd] at hnot
  simp at hnot

theorem parseHeaders_numeric {text : Bytes} (h : ∀ c ∈ text, isNumeric c = true)
    (area left s : Nat) (m : SipMsg) : parseHeaders text area left s m = m := by
  induction left generalizing s m with
  | zero => rfl
  | succ left ih =>
      have hfield (eol : Nat) (heol : s ≤ eol) : parseField text s eol m headerFields = m := by
        have hshift := parseField_shift text s 0 (eol - s) m headerFields
        rw [Nat.add_zero, Nat.add_sub_cancel' heol] at hshift
        rw [hshift, parseField_unknown]
        exact numeric_unknown fun c hc => h c (List.mem_of_mem_drop hc)
      have heol : s ≤ findEol text s area := Nat.le_add_right ..
      rw [parseHeaders]
      simp only [ih, hfield _ heol, ite_self]

theorem parseSip_content_length {bytes t : Bytes} (ht : t ∈ headerLines bytes)
    (hname : strncasecmp t (ascii "Content-Length:") = true)
    (hnumber : ∀ c ∈ t.drop 15, isNumeric c = true) {stale : Bytes}
    (hstale : ∀ c ∈ stale, isNumeric c = true) :
    (parseSip (datagram bytes stale [])).contentLength = atoi (t.drop 15 ++ stale) := by
  obtain ⟨m, area, left, body, heq, hpos, hleft, hfit, hends, -⟩ := parseSip_reach ht stale []
  have hlen : 15 ≤ t.length := strncasecmp_length hname
  have hdrop : (t ++ stale).drop 15 = t.drop 15 ++ stale := List.drop_append_of_le_length hlen
  have hmatch : strncasecmp (t ++ stale) (ascii "Content-Length:") = true :=
    (strncasecmp_append stale (strncasecmp_length hname)).trans hname
  rw [heq]
  rcases area_cases hfit with rfl | ⟨line, rest, more, hline, rfl, rfl, hmore⟩ | ⟨-, htext⟩
  · omega
  · have happend : line ++ 10 :: rest ++ stale = line ++ 10 :: (rest ++ stale) := by simp
    have hinside : 15 ≤ line.length := by
      rw [strncasecmp_line length_name_mem] at hname
      exact strncasecmp_length hname
    have hrest : ∀ c ∈ rest ++ stale, isNumeric c = true := by
      intro c hc
      rcases List.mem_append.mp hc with hc | hc
      · apply hnumber
        rw [List.drop_append_of_le_length hinside]
        exact List.mem_append_right _ (List.mem_cons_of_mem _ hc)
      · exact hstale c hc
    rw [happend] at hmatch hdrop ⊢
    rw [parseHeaders_line hline, parseHeaders_numeric hrest, parseLine, if_neg,
      parseField_content_length hmatch, hdrop]
    rintro (rfl | rfl) <;> simp at hinside
  · obtain rfl := hends.last hpos htext
    have htext' : (10 : UInt8) ∉ (t ++ stale).take t.length := by simpa using htext
    rw [parseHeaders_last hpos (by simp) htext', if_neg (by omega),
      parseField_content_length hmatch, hdrop]

theorem number_leaks {bytes t : Bytes} (ht : t ∈ headerLines bytes)
    (hname : strncasecmp t (ascii "Content-Length:") = true)
    (hends : ¬ NumberEnds (t.drop 15)) :
    ∃ stale, parseSip (datagram bytes stale []) ≠ parseSip (datagram bytes [] []) := by
  have hnumber : ∀ c ∈ t.drop 15, isNumeric c = true := by
    intro c hc
    rcases number_of_not_ends hends c hc with h | h | rfl | rfl <;> simp_all [isNumeric]
  have hlength (stale : Bytes) (hstale : ∀ c ∈ stale, isNumeric c = true) :=
    parseSip_content_length ht hname hnumber hstale
  by_contra hall
  have hsame (stale : Bytes) :
      parseSip (datagram bytes stale []) = parseSip (datagram bytes [] []) := by
    by_contra hne
    exact hall ⟨stale, hne⟩
  have hzero := hlength [48] (by decide)
  have hone := hlength [49] (by decide)
  have hnone := hlength [] (by simp)
  rw [hsame, hnone, List.append_nil] at hzero hone
  exact hends ⟨hzero.symm, hone.symm⟩

theorem status_leaks {bytes : Bytes} (h : bytes.takeWhile (· ≠ 10) = ascii "SIP/2.0") :
    ∃ line line', parseSip (datagram bytes [] line) ≠ parseSip (datagram bytes [] line') := by
  have hstatus (c : UInt8) :
      (parseSip (datagram bytes [] (List.replicate 8 0 ++ [c]))).status = atoi [c] := by
    have hfirst (d : Datagram) (hd : d.buf.take 7 = ascii "SIP/2.0")
        (hline : d.line = List.replicate 8 0 ++ [c]) :
        (parseFirstLine d 7 sipMsgZero).status = atoi [c] := by
      have hmin : min 7 511 = 7 := rfl
      have hstart (t : Bytes) : strncmp (ascii "SIP/2.0" ++ t) (ascii "SIP/2.0") = true := by
        rw [strncmp, List.isPrefixOf_iff_prefix]
        exact List.prefix_append _ _
      simp only [parseFirstLine, hmin, hd, hline, hstart, if_true]
      rfl
    have hstart : bytes.take 7 = ascii "SIP/2.0" := by
      rw [← h, ← statusLine_length, ← h]
      exact (List.prefix_iff_eq_take.mp (List.takeWhile_prefix _)).symm
    by_cases hmem : (10 : UInt8) ∈ bytes
    · obtain ⟨first, rest, rfl, hline⟩ := List.eq_append_cons_of_mem hmem
      rw [takeWhile_line hline] at h
      subst h
      obtain ⟨area, harea, -, -⟩ := headerArea_line hline rest
      rw [parseSip_line hline harea, parseBody_eq]
      refine (congrArg (·.2.1) (parseHeaders_startLine ..)).trans ?_
      apply hfirst
      · simp [datagram]
      · rfl
    · have hall : bytes.takeWhile (· ≠ 10) = bytes :=
        List.takeWhile_eq_self_iff.mpr fun c hc => by
          simpa using fun h : c = 10 => hmem (h ▸ hc)
      rw [hall] at h
      subst h
      rw [parseSip_no_line hmem]
      exact hfirst _ (by simpa [datagram] using hstart) rfl
  refine ⟨List.replicate 8 0 ++ [49], List.replicate 8 0 ++ [50], fun heq => ?_⟩
  have hone := hstatus 49
  rw [heq, hstatus 50] at hone
  exact absurd hone (by decide)

theorem parse_depends_on_the_datagram_iff (bytes : Bytes) :
    (∀ d d' : Datagram, d.len = bytes.length → d.bytes = bytes → d'.len = bytes.length →
        d'.bytes = bytes → parseSip d = parseSip d') ↔
      SelfContained bytes := by
  constructor
  · intro h
    have hsame (stale stale' line line' : Bytes) :
        parseSip (datagram bytes stale line) = parseSip (datagram bytes stale' line') :=
      h _ _ rfl (datagram_bytes ..) rfl (datagram_bytes ..)
    refine ⟨fun hstatus => ?_, ⟨fun hvia t ht hcut => ?_, fun t ht hcut => ?_,
      fun _ t ht hname => ?_⟩⟩
    · obtain ⟨line, line', hne⟩ := status_leaks hstatus
      exact hne (hsame ..)
    · obtain ⟨stale, stale', hne⟩ := cutShort_leaks ht (.inr ⟨by rwa [Nat.zero_add] at hvia, hcut⟩)
      exact hne (hsame ..)
    · obtain ⟨stale, stale', hne⟩ := cutShort_leaks ht (.inl hcut)
      exact hne (hsame ..)
    · by_contra hends
      obtain ⟨stale, hne⟩ := number_leaks ht hname hends
      exact hne (hsame ..)
  · intro h d d' hlen hbytes hlen' hbytes'
    rw [eq_datagram hlen hbytes, eq_datagram hlen' hbytes', parseSip_stale h,
      parseSip_stale h (d'.buf.drop d'.len)]

-- An earlier datagram of another party is still in the buffer behind a request cut short.
theorem stale_from_is_echoed :
    let earlier := ascii "BYE sip:modem SIP/2.0\r\nf: <sip:alice@home>\r\n"
    let d : Datagram := ⟨earlier, 24, []⟩
    let fresh : Datagram := ⟨earlier.take 24, 24, []⟩
    d.bytes = fresh.bytes ∧ (parseSip fresh).fromHdr = [] ∧
      (buildResponse (parseSip d) 200 "OK" [] [] []).fromHdr = ascii " <sip:alice@home>\r\n" ∧
      ¬ ∀ d d' : Datagram, d.len = d'.len → d.bytes = d'.bytes → parseSip d = parseSip d' := by
  intro earlier d fresh
  refine ⟨by decide, by decide, by decide, fun h => ?_⟩
  have hsame := h d fresh rfl (by decide)
  exact absurd (congrArg SipMsg.fromHdr hsame) (by decide)

end Softmodem.Sip

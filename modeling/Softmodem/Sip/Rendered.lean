import Softmodem.Sip.Lines

namespace Softmodem.Sip

open CString

structure Trimmed (value : Bytes) : Prop where
  noNul : (0 : UInt8) ∉ value
  noLine : (10 : UInt8) ∉ value
  head : ∀ c ∈ value.head?, isBlank c = false
  last : ∀ c ∈ value.getLast?, (c = 13 || isBlank c) = false

theorem cstr_self {text : Bytes} (h : (0 : UInt8) ∉ text) : cstr text = text := by
  rw [cstr, List.takeWhile_eq_self_iff]
  intro c hc
  simpa using fun heq : c = 0 => h (heq ▸ hc)

theorem value_trimmed {value left right : Bytes} (h : Trimmed value)
    (hleft : ∀ c ∈ left, isBlank c = true)
    (hright : ∀ c ∈ right, (c = 13 || isBlank c) = true) {size : Nat}
    (hsize : value.length < size) : Value (left ++ value ++ right) size = value := by
  have hstrip : ((left ++ value ++ right).reverse.dropWhile fun c => c = 13 || isBlank c) =
      (left ++ value).reverse.dropWhile fun c => c = 13 || isBlank c := by
    rw [List.reverse_append, List.dropWhile_append_of_pos fun c hc =>
      hright c (List.mem_reverse.mp hc)]
  rw [Value, hstrip]
  rcases List.eq_nil_or_concat' value with rfl | ⟨init, c, rfl⟩
  · have hnone : (left.reverse.dropWhile fun c => c = 13 || isBlank c) = [] := by
      rw [List.dropWhile_eq_nil_iff]
      intro d hd
      simp [hleft d (List.mem_reverse.mp hd)]
    rw [List.append_nil, hnone, List.reverse_nil, List.dropWhile_nil, List.take_nil]
    rfl
  · have hlast := h.last c (by simp)
    have hkeep : ((left ++ (init ++ [c])).reverse.dropWhile fun c => c = 13 || isBlank c) =
        (left ++ (init ++ [c])).reverse := by
      rw [← List.append_assoc, List.reverse_append, List.reverse_singleton,
        List.singleton_append, List.dropWhile_cons_of_neg (by simp [hlast])]
    have hhead : (left ++ (init ++ [c])).dropWhile isBlank = init ++ [c] := by
      rw [List.dropWhile_append_of_pos hleft]
      cases init with
      | nil => exact List.dropWhile_cons_of_neg (by simp [h.head c rfl])
      | cons b init => exact List.dropWhile_cons_of_neg (by simp [h.head b rfl])
    rw [hkeep, List.reverse_reverse, hhead, List.take_of_length_le (by omega),
      cstr_self h.noNul]

theorem names_long : ∀ name ∈ allNames, 2 ≤ name.length := by decide

theorem spelled_matches {spelled name : Bytes} (h : spelled.map lower = name.map lower)
    (rest : Bytes) : strncasecmp (spelled ++ rest) name = true := by
  rw [strncasecmp_iff, List.map_append, h]
  exact List.prefix_append _ _

theorem spelled_length {spelled name : Bytes} (h : spelled.map lower = name.map lower) :
    spelled.length = name.length := by
  simpa using congrArg List.length h

theorem parseLine_spelled {spelled name : Bytes} (hname : name ∈ allNames)
    (h : spelled.map lower = name.map lower) (text rest : Bytes) (m : SipMsg) :
    parseLine (spelled ++ text) rest m =
      parseField (spelled ++ text ++ 10 :: rest) 0 (spelled ++ text).length m headerFields := by
  have hlong := names_long name hname
  rw [← spelled_length h] at hlong
  rw [parseLine, if_neg]
  rintro (hnil | hone)
  · have hlen := congrArg List.length hnil
    simp at hlen
    simp [hlen.1] at hlong
  · have hlen := congrArg List.length hone
    rw [List.length_append, List.length_singleton] at hlen
    omega

theorem parseLine_named {field : HeaderField} {name spelled left value right : Bytes}
    (hfield : field ∈ headerFields) (hname : name ∈ field.names)
    (hspelled : spelled.map lower = name.map lower) (hvalue : Trimmed value)
    (hsize : value.length < field.size) (hleft : ∀ c ∈ left, isBlank c = true)
    (hright : ∀ c ∈ right, (c = 13 || isBlank c) = true) (rest : Bytes) (m : SipMsg) :
    parseLine (spelled ++ (left ++ value ++ right)) rest m = field.set m value := by
  have hline : spelled ++ (left ++ value ++ right) ++ 10 :: rest =
      spelled ++ (left ++ value ++ right ++ 10 :: rest) := by simp
  rw [parseLine_spelled (field_names_mem hfield hname) hspelled, hline,
    parseField_named hfield hname (spelled_matches hspelled _),
    copyLineValue_inside (by simp [spelled_length hspelled]), ← spelled_length hspelled,
    List.drop_left, List.length_append, Nat.add_sub_cancel_left, List.take_left,
    value_trimmed hvalue hleft hright hsize]

theorem isSpace_of_isBlank {c : UInt8} (h : isBlank c = true) : isSpace c = true := by
  rw [isBlank, Bool.or_eq_true, decide_eq_true_eq, decide_eq_true_eq] at h
  rcases h with rfl | rfl <;> rfl

theorem isDigit_of_isBlank {c : UInt8} (h : (c = 13 || isBlank c) = true) :
    isDigit c = false := by
  simp only [isBlank, Bool.or_eq_true, decide_eq_true_eq] at h
  rcases h with rfl | rfl | rfl <;> rfl

theorem parseLine_length {spelled left right : Bytes}
    (hspelled : spelled.map lower = (ascii "Content-Length:").map lower)
    (hleft : ∀ c ∈ left, isBlank c = true)
    (hright : ∀ c ∈ right, (c = 13 || isBlank c) = true) {n : Nat} (hn : n < 2 ^ 31)
    (rest : Bytes) (m : SipMsg) :
    parseLine (spelled ++ (left ++ decimal (n : Int) ++ right)) rest m =
      { m with contentLength := n } := by
  have hline : spelled ++ (left ++ decimal (n : Int) ++ right) ++ 10 :: rest =
      spelled ++ (left ++ decimal (n : Int) ++ (right ++ 10 :: rest)) := by simp
  have hdrop (text : Bytes) : (spelled ++ text).drop 15 = text := by
    have hlen := spelled_length hspelled
    exact (congrArg (fun k => (spelled ++ text).drop k) hlen.symm).trans List.drop_left
  have hstop : ∀ c ∈ (right ++ 10 :: rest).head?, isDigit c = false := by
    intro c hc
    cases right with
    | nil =>
        obtain rfl : 10 = c := by simpa using hc
        rfl
    | cons d right =>
        obtain rfl : d = c := by simpa using hc
        exact isDigit_of_isBlank (hright d List.mem_cons_self)
  rw [parseLine_spelled length_name_mem hspelled, hline,
    parseField_content_length (spelled_matches hspelled _), hdrop,
    atoi_decimal (fun c hc => isSpace_of_isBlank (hleft c hc)) hn hstop]

theorem parseLine_unknown {line : Bytes} (h : ∀ n ∈ allNames, strncasecmp line n = false)
    (rest : Bytes) (m : SipMsg) : parseLine line rest m = m := by
  rw [parseLine]
  split
  · rfl
  · rw [parseField_unknown]
    intro n hn
    rw [strncasecmp_line hn, h n hn]

def joined (lines : List Bytes) : Bytes := lines.flatMap (· ++ [10])

@[simp] theorem joined_nil : joined [] = [] := rfl

theorem joined_cons (line : Bytes) (lines : List Bytes) :
    joined (line :: lines) = line ++ 10 :: joined lines := by
  simp [joined]

theorem length_le_joined (lines : List Bytes) : lines.length ≤ (joined lines).length := by
  induction lines with
  | nil => simp
  | cons line lines ih =>
      rw [joined_cons]
      simp only [List.length_cons, List.length_append]
      omega

theorem parseHeaders_joined {f : Bytes → SipMsg → SipMsg} {lines : List Bytes}
    (hlines : ∀ line ∈ lines, (10 : UInt8) ∉ line)
    (hf : ∀ line ∈ lines, ∀ rest m, parseLine line rest m = f line m) (rest : Bytes)
    (area left : Nat) (m : SipMsg) :
    parseHeaders (joined lines ++ rest) ((joined lines).length + area) (left + lines.length) 0 m =
      parseHeaders rest area left 0 (lines.foldl (fun m line => f line m) m) := by
  induction lines generalizing m with
  | nil => simp
  | cons line lines ih =>
      have hlen : (joined (line :: lines)).length + area =
          line.length + 1 + ((joined lines).length + area) := by
        rw [joined_cons]
        simp only [List.length_append, List.length_cons]
        omega
      have hleft : left + (line :: lines).length = left + lines.length + 1 := rfl
      rw [hlen, hleft, joined_cons, List.append_assoc, List.cons_append,
        parseHeaders_line (hlines line List.mem_cons_self), hf line List.mem_cons_self,
        List.foldl_cons]
      exact ih (fun l hl => hlines l (List.mem_cons_of_mem _ hl))
        (fun l hl => hf l (List.mem_cons_of_mem _ hl)) _

theorem bodyOffset_text {text : Bytes} (htext : (10 : UInt8) ∉ text) {c : UInt8} (hc : c ≠ 10)
    (rest : Bytes) :
    bodyOffset (text ++ c :: rest) = (bodyOffset (c :: rest)).map (· + text.length) := by
  induction text with
  | nil => simp
  | cons d text ih =>
      have hd : d ≠ 10 := fun h => htext (by simp [h])
      obtain ⟨e, tail, htail, he⟩ : ∃ e tail, text ++ c :: rest = e :: tail ∧ e ≠ 10 := by
        cases text with
        | nil => exact ⟨c, rest, rfl, hc⟩
        | cons e text => exact ⟨e, text ++ c :: rest, rfl, fun h => htext (by simp [h])⟩
      have ih := ih fun h => htext (List.mem_cons_of_mem _ h)
      rw [htail] at ih
      rw [List.cons_append, htail, bodyOffset, ih, Option.map_map]
      · rfl
      · exact fun _ _ h => absurd (List.cons.inj h).1 he
      · exact fun _ h => absurd h hd

theorem line_text {line : Bytes} (hline : (10 : UInt8) ∉ line) (hne : line ≠ []) :
    ∃ text d, line = text ++ [d] ∧ (10 : UInt8) ∉ text ∧ d ≠ 10 := by
  obtain ⟨text, d, rfl⟩ := (List.eq_nil_or_concat' line).resolve_left hne
  simp only [List.mem_append, List.mem_singleton, not_or] at hline
  exact ⟨text, d, rfl, hline.1, fun h => hline.2 h.symm⟩

theorem bodyOffset_line {line : Bytes} (hline : (10 : UInt8) ∉ line) (hne : line ≠ [])
    {c : UInt8} {rest : Bytes} (hc : c ≠ 10)
    (hpair : line.getLast? = some 13 → c = 13 → rest.head? ≠ some 10) :
    bodyOffset (line ++ 10 :: c :: rest) =
      (bodyOffset (c :: rest)).map (· + (line.length + 1)) := by
  obtain ⟨text, d, rfl, htext, hd⟩ := line_text hline hne
  have hlast : bodyOffset (d :: 10 :: c :: rest) = (bodyOffset (c :: rest)).map (· + 2) := by
    rw [bodyOffset, bodyOffset, Option.map_map]
    · rfl
    · exact fun _ h => absurd h (by decide)
    · exact fun _ _ h => absurd (List.cons.inj h).1 hc
    · rintro tail rfl h
      obtain ⟨rfl, rfl⟩ : c = 13 ∧ rest = 10 :: tail := by simpa using h
      exact hpair (by simp) rfl rfl
    · exact fun _ h => absurd h hd
  rw [List.append_assoc, List.singleton_append, bodyOffset_text htext hd, hlast,
    Option.map_map, List.length_append, List.length_singleton]
  congr 1
  funext k
  simp only [Function.comp_apply]
  omega

theorem bodyOffset_empty {line : Bytes} (hline : (10 : UInt8) ∉ line) (hne : line ≠ [])
    (rest : Bytes) : bodyOffset (line ++ 10 :: 10 :: rest) = some (line.length + 2) := by
  obtain ⟨text, d, rfl, htext, hd⟩ := line_text hline hne
  have hlast : bodyOffset (d :: 10 :: 10 :: rest) = some 3 := by
    rw [bodyOffset]
    · rfl
    · exact fun _ _ h => by simp at h
    · exact fun _ h => absurd h hd
  rw [List.append_assoc, List.singleton_append, bodyOffset_text htext hd, hlast]
  simp
  omega

theorem bodyOffset_return {text : Bytes} (htext : (10 : UInt8) ∉ text) (rest : Bytes) :
    bodyOffset (text ++ 13 :: 10 :: 13 :: 10 :: rest) = some (text.length + 4) := by
  rw [bodyOffset_text htext (by decide), bodyOffset]
  simp
  omega

structure HeaderText (line : Bytes) : Prop where
  noLine : (10 : UInt8) ∉ line
  ne : line ≠ []
  neReturn : line ≠ [13]

theorem HeaderText.head {line : Bytes} (h : HeaderText line) (rest : Bytes) :
    ∃ c tail, line ++ 10 :: rest = c :: tail ∧ c ≠ 10 ∧ (c = 13 → tail.head? ≠ some 10) := by
  obtain ⟨c, line, rfl⟩ := List.exists_cons_of_ne_nil h.ne
  refine ⟨c, line ++ 10 :: rest, rfl, fun hc => h.noLine (by simp [hc]), ?_⟩
  rintro rfl
  cases line with
  | nil => exact absurd rfl h.neReturn
  | cons d line =>
      intro hd
      exact h.noLine (by simp_all)

-- Where the blank line is seen: bare, or with a carriage return after a line that ends in one.
def Separates (blank line : Bytes) : Prop :=
  blank = [] ∨ blank = [13] ∧ line.getLast? = some 13

theorem bodyOffset_blank {line blank : Bytes} (h : HeaderText line)
    (hblank : Separates blank line) (rest : Bytes) :
    bodyOffset (line ++ 10 :: (blank ++ 10 :: rest)) =
      some (line.length + 1 + blank.length + 1) := by
  rcases hblank with rfl | ⟨rfl, hlast⟩
  · rw [List.nil_append, bodyOffset_empty h.noLine h.ne]
    rfl
  · obtain ⟨text, d, rfl, htext, -⟩ := line_text h.noLine h.ne
    obtain rfl : d = 13 := by simpa using hlast
    have hrest : text ++ [13] ++ 10 :: ([13] ++ 10 :: rest) =
        text ++ 13 :: 10 :: 13 :: 10 :: rest := by simp
    rw [hrest, bodyOffset_return htext]
    simp

theorem bodyOffset_lines {lines : List Bytes} {last : Bytes}
    (hlines : ∀ l ∈ lines, HeaderText l) (hlast : HeaderText last) (rest : Bytes) :
    bodyOffset (joined lines ++ (last ++ 10 :: rest)) =
      (bodyOffset (last ++ 10 :: rest)).map (· + (joined lines).length) := by
  induction lines with
  | nil => simp
  | cons line lines ih =>
      have hline := hlines line List.mem_cons_self
      have ih := ih fun l hl => hlines l (List.mem_cons_of_mem _ hl)
      obtain ⟨c, tail, htail, hc, hreturn⟩ :
          ∃ c tail, joined lines ++ (last ++ 10 :: rest) = c :: tail ∧ c ≠ 10 ∧
            (c = 13 → tail.head? ≠ some 10) := by
        cases lines with
        | nil => exact hlast.head rest
        | cons next lines =>
            rw [joined_cons, List.append_assoc, List.cons_append]
            exact (hlines next (by simp)).head _
      rw [htail] at ih
      rw [joined_cons, List.append_assoc, List.cons_append, htail,
        bodyOffset_line hline.noLine hline.ne hc fun _ => hreturn, ih, Option.map_map]
      congr 1
      funext k
      simp only [Function.comp_apply, List.length_append, List.length_cons]
      omega

theorem joined_concat (lines : List Bytes) (last rest : Bytes) :
    joined (lines ++ [last]) ++ rest = joined lines ++ (last ++ 10 :: rest) := by
  simp [joined]

theorem joined_concat_length (lines : List Bytes) (last : Bytes) :
    (joined (lines ++ [last])).length = (joined lines).length + last.length + 1 := by
  simp [joined]
  omega

theorem bodyOffset_separated {lines : List Bytes} {last blank : Bytes}
    (hlines : ∀ l ∈ lines ++ [last], HeaderText l) (hblank : Separates blank last)
    (tail : Bytes) :
    bodyOffset (joined (lines ++ [last]) ++ (blank ++ 10 :: tail)) =
      some ((joined (lines ++ [last])).length + blank.length + 1) := by
  have hlast := hlines last (by simp)
  rw [joined_concat, bodyOffset_lines (fun l hl => hlines l (List.mem_append_left _ hl)) hlast,
    bodyOffset_blank hlast hblank, joined_concat_length]
  simp
  omega

theorem bodyOffset_bare {lines : List Bytes} {last : Bytes}
    (hlines : ∀ l ∈ lines ++ [last], HeaderText l) (hbare : last.getLast? ≠ some 13)
    (tail : Bytes) :
    bodyOffset (joined (lines ++ [last]) ++ 13 :: 10 :: tail) =
      (bodyOffset (13 :: 10 :: tail)).map (· + (joined (lines ++ [last])).length) := by
  have hlast := hlines last (by simp)
  rw [joined_concat, bodyOffset_lines (fun l hl => hlines l (List.mem_append_left _ hl)) hlast,
    bodyOffset_line hlast.noLine hlast.ne (by decide) fun h => absurd h hbare,
    joined_concat_length, Option.map_map]
  congr 1
  funext k
  simp only [Function.comp_apply]
  omega

def message (start : Bytes) (lines : List Bytes) (blank tail : Bytes) : Bytes :=
  joined (start :: lines) ++ (blank ++ 10 :: tail)

-- A blank line that is not seen does no harm when nothing follows it.
theorem headerArea_message {start : Bytes} {lines : List Bytes} {blank tail : Bytes}
    (hlines : ∀ l ∈ start :: lines, HeaderText l)
    (hblank : (∀ last ∈ (start :: lines).getLast?, Separates blank last) ∨
      blank = [13] ∧ tail = []) :
    headerArea (message start lines blank tail) =
      start.length + 1 + ((joined lines).length + (blank.length + 1)) := by
  have hlength : (joined (start :: lines)).length = start.length + 1 + (joined lines).length := by
    rw [joined_cons]
    simp only [List.length_append, List.length_cons]
    omega
  have hsep (last : Bytes) (init : List Bytes) (heq : start :: lines = init ++ [last])
      (h : Separates blank last) : headerArea (message start lines blank tail) =
        start.length + 1 + ((joined lines).length + (blank.length + 1)) := by
    rw [headerArea, message, heq, bodyOffset_separated (heq ▸ hlines) h, ← heq,
      Option.getD_some, hlength]
    omega
  obtain ⟨init, last, heq⟩ :=
    (List.eq_nil_or_concat' (start :: lines)).resolve_left (List.cons_ne_nil _ _)
  rcases hblank with h | ⟨rfl, rfl⟩
  · exact hsep last init heq (h last (by simp [heq]))
  · by_cases hreturn : last.getLast? = some 13
    · exact hsep last init heq (.inr ⟨rfl, hreturn⟩)
    · rw [headerArea, message, heq]
      have hnone := bodyOffset_bare (heq ▸ hlines) hreturn []
      rw [List.singleton_append, hnone, ← heq]
      have hpair : bodyOffset [13, 10] = none := by decide
      rw [hpair, Option.map_none, Option.getD_none, List.length_append, hlength]
      simp only [List.length_cons, List.length_nil]
      omega

theorem Separates.text {blank line : Bytes} (h : Separates blank line) :
    blank = [] ∨ blank = [13] :=
  h.imp_right And.left

theorem parseHeaders_message {f : Bytes → SipMsg → SipMsg} {lines : List Bytes}
    (hlines : ∀ line ∈ lines, (10 : UInt8) ∉ line)
    (hf : ∀ line ∈ lines, ∀ rest m, parseLine line rest m = f line m) {blank : Bytes}
    (hblank : blank = [] ∨ blank = [13]) (rest : Bytes) {left : Nat} (hleft : lines.length < left)
    (m : SipMsg) :
    parseHeaders (joined lines ++ (blank ++ 10 :: rest))
        ((joined lines).length + (blank.length + 1)) left 0 m =
      lines.foldl (fun m line => f line m) m := by
  have hline : (10 : UInt8) ∉ blank := by
    rcases hblank with rfl | rfl <;> simp
  have hskip (m : SipMsg) : parseLine blank rest m = m := by
    rw [parseLine, if_pos hblank]
  obtain ⟨k, rfl⟩ : ∃ k, left = k + 1 + lines.length := ⟨left - lines.length - 1, by omega⟩
  rw [parseHeaders_joined hlines hf]
  exact (parseHeaders_line hline rest 0 k _).trans (by rw [parseHeaders_nil, hskip])

def takeBody (tail : Bytes) (m : SipMsg) : SipMsg :=
  if tail = [] then m
  else
    let blen :=
      if m.contentLength > 0 ∧ m.contentLength < tail.length then m.contentLength.toNat
      else tail.length
    { m with body := tail.take (min blen smSipMaxMsg) }

theorem takeBody_exact {body trailing : Bytes} {m : SipMsg}
    (hlength : m.contentLength = body.length) (hbody : m.body = [])
    (hfits : body.length ≤ smSipMaxMsg) (h : body ≠ [] ∨ trailing = []) :
    takeBody (body ++ trailing) m = { m with body := body } := by
  rw [takeBody]
  by_cases hempty : body ++ trailing = []
  · rw [if_pos hempty, (List.append_eq_nil_iff.mp hempty).1, ← hbody]
  · have hpos : 0 < body.length := by
      rcases h with h | rfl
      · exact List.length_pos_iff.mpr h
      · exact List.length_pos_iff.mpr (by simpa using hempty)
    have hblen : (if m.contentLength > 0 ∧ m.contentLength < (body ++ trailing).length
        then m.contentLength.toNat else (body ++ trailing).length) = body.length := by
      rw [hlength, List.length_append]
      split <;> omega
    rw [if_neg hempty]
    dsimp only
    rw [hblen, Nat.min_eq_left hfits, List.take_left]

theorem parseBody_tail (front tail stale line : Bytes) (m : SipMsg) :
    parseBody (datagram (front ++ tail) stale line) front.length m = takeBody tail m := by
  have hlen : (datagram (front ++ tail) stale line).len - front.length = tail.length := by
    simp [datagram]
  have hdrop : (datagram (front ++ tail) stale line).buf.drop front.length = tail ++ stale := by
    simp [datagram]
  rw [parseBody, takeBody]
  rcases eq_or_ne tail [] with rfl | htail
  · rw [if_pos rfl, if_neg]
    simp [datagram]
  · have hpos := List.length_pos_iff.mpr htail
    rw [if_neg htail, if_pos (by omega)]
    dsimp only
    rw [hlen, hdrop, List.take_append_of_le_length]
    split <;> omega

theorem parseSip_message {start : Bytes} {lines : List Bytes} {blank tail : Bytes}
    (hlines : ∀ l ∈ start :: lines, HeaderText l)
    (hblank : (∀ last ∈ (start :: lines).getLast?, Separates blank last) ∨
      blank = [13] ∧ tail = [])
    {f : Bytes → SipMsg → SipMsg}
    (hf : ∀ l ∈ lines, ∀ rest m, parseLine l rest m = f l m) (stale line : Bytes) :
    parseSip (datagram (message start lines blank tail) stale line) =
      takeBody tail (lines.foldl (fun m l => f l m)
        (parseFirstLine (datagram (message start lines blank tail) stale line) start.length
          sipMsgZero)) := by
  have hmessage : message start lines blank tail =
      start ++ 10 :: (joined lines ++ (blank ++ 10 :: tail)) := by
    rw [message, joined_cons, List.append_assoc, List.cons_append]
  have harea := headerArea_message hlines hblank
  rw [hmessage] at harea
  have hsip := parseSip_line (hlines start List.mem_cons_self).noLine harea stale line
  rw [← hmessage] at hsip
  have htext : blank = [] ∨ blank = [13] := by
    rcases hblank with h | ⟨rfl, -⟩
    · obtain ⟨last, hlast⟩ := Option.isSome_iff_exists.mp
        (List.getLast?_isSome.mpr (List.cons_ne_nil start lines))
      exact (h last hlast).text
    · exact .inr rfl
  have hrest : joined lines ++ (blank ++ 10 :: tail) ++ stale =
      joined lines ++ (blank ++ 10 :: (tail ++ stale)) := by simp
  have hfront : message start lines blank tail =
      joined (start :: lines) ++ (blank ++ [10]) ++ tail := by
    simp [message]
  have hfrontLength : start.length + 1 + ((joined lines).length + (blank.length + 1)) =
      (joined (start :: lines) ++ (blank ++ [10])).length := by
    rw [joined_cons]
    simp only [List.length_append, List.length_cons, List.length_nil]
    omega
  have hleft : lines.length < (joined lines).length + (blank.length + 1) := by
    have := length_le_joined lines
    omega
  dsimp only at hsip
  rw [hsip, hrest, parseHeaders_message
    (fun l hl => (hlines l (List.mem_cons_of_mem _ hl)).noLine) hf htext _ hleft, hfrontLength]
  nth_rewrite 1 [hfront]
  rw [parseBody_tail]

end Softmodem.Sip

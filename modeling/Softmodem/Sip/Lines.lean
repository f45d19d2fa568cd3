import Softmodem.Lib.CText
import Softmodem.Sip.Message

namespace Softmodem.Sip

open CString

def Value (mem : Bytes) (size : Nat) : Bytes :=
  cstr (((mem.reverse.dropWhile fun c => c = 13 || isBlank c).reverse.dropWhile isBlank).take
    (size - 1))

theorem copyLineValue_inside {mem : Bytes} {start e : Nat} (h : start ≤ e) (size : Nat) :
    copyLineValue mem start e size = Value ((mem.drop start).take (e - start)) size := by
  rw [copyLineValue, if_neg (by omega)]
  rfl

theorem copyLineValue_shift (mem : Bytes) (s start e size : Nat) :
    copyLineValue mem (s + start) (s + e) size = copyLineValue (mem.drop s) start e size := by
  simp only [copyLineValue, List.drop_drop, Nat.add_lt_add_iff_left, Nat.add_sub_add_left]

theorem valueStart_shift (mem : Bytes) (s start : Nat) (names : List Bytes) :
    valueStart mem (s + start) names =
      (valueStart (mem.drop s) start names).map (s + ·) := by
  simp only [valueStart, List.drop_drop, Option.map_map]
  congr 1
  funext name
  simp [Nat.add_assoc]

theorem parseField_shift (mem : Bytes) (s start eol : Nat) (m : SipMsg)
    (fields : List HeaderField) :
    parseField mem (s + start) (s + eol) m fields =
      parseField (mem.drop s) start eol m fields := by
  induction fields with
  | nil =>
      simp only [parseField, valueStart_shift]
      cases valueStart (mem.drop s) start [ascii "Content-Length:"] with
      | none => rfl
      | some v => simp [List.drop_drop]
  | cons field fields ih =>
      simp only [parseField, valueStart_shift, ih]
      cases valueStart (mem.drop s) start field.names with
      | none => rfl
      | some v => simp [copyLineValue_shift]

theorem findEol_shift (mem : Bytes) (s start e : Nat) :
    findEol mem (s + start) (s + e) = s + findEol (mem.drop s) start e := by
  simp only [findEol, List.drop_drop, Nat.add_sub_add_left, Nat.add_assoc]

theorem getD_shift (mem : Bytes) (s i : Nat) : mem.getD (s + i) 0 = (mem.drop s).getD i 0 := by
  simp [List.getD_eq_getElem?_getD]

theorem parseHeaders_shift (mem : Bytes) (s area left start : Nat) (m : SipMsg) :
    parseHeaders mem (s + area) left (s + start) m =
      parseHeaders (mem.drop s) area left start m := by
  induction left generalizing start m with
  | zero => rfl
  | succ left ih =>
      have hnext : s + findEol (mem.drop s) start area + 1 =
          s + (findEol (mem.drop s) start area + 1) := rfl
      simp only [parseHeaders, findEol_shift, hnext, ih, getD_shift, parseField_shift,
        Nat.add_lt_add_iff_left, Nat.add_right_inj, Nat.add_sub_add_left]

def allNames : List Bytes :=
  headerFields.flatMap HeaderField.names ++ [ascii "Content-Length:"]

theorem names_plain : ∀ name ∈ allNames, (10 : UInt8) ∉ name.map lower := by decide

theorem names_no_return : ∀ name ∈ allNames, (13 : UInt8) ∉ name.map lower := by
  decide

theorem names_apart :
    ∀ a ∈ allNames, ∀ b ∈ allNames, a.map lower <+: b.map lower → a = b := by
  decide

theorem field_names_mem {field : HeaderField} (h : field ∈ headerFields) {name : Bytes}
    (hname : name ∈ field.names) : name ∈ allNames :=
  List.mem_append_left _ (List.mem_flatMap.mpr ⟨field, h, hname⟩)

theorem length_name_mem : ascii "Content-Length:" ∈ allNames :=
  List.mem_append_right _ (List.mem_singleton_self _)

theorem fields_apart : headerFields.Pairwise fun f g => ∀ n ∈ f.names, n ∉ g.names := by
  decide

theorem length_apart : ∀ f ∈ headerFields, ascii "Content-Length:" ∉ f.names := by
  decide

theorem strncasecmp_line {name : Bytes} (hname : name ∈ allNames) (line rest : Bytes) :
    strncasecmp (line ++ 10 :: rest) name = strncasecmp line name :=
  strncasecmp_stop 10 rest (names_plain name hname)

theorem strncasecmp_named {text name other : Bytes} (hname : name ∈ allNames)
    (hother : other ∈ allNames) (h : strncasecmp text name = true) :
    strncasecmp text other = decide (other = name) := by
  rw [Bool.eq_iff_iff, decide_eq_true_iff]
  constructor
  · intro ho
    rw [strncasecmp_iff] at h ho
    rcases List.prefix_or_prefix_of_prefix h ho with hp | hp
    · exact (names_apart name hname other hother hp).symm
    · exact names_apart other hother name hname hp
  · rintro rfl
    exact h

theorem parseField_skip {text : Bytes} {field : HeaderField}
    (h : ∀ n ∈ field.names, strncasecmp text n = false) (eol : Nat) (m : SipMsg)
    (fields : List HeaderField) :
    parseField text 0 eol m (field :: fields) = parseField text 0 eol m fields := by
  have hnone : valueStart text 0 field.names = none := by
    rw [valueStart, Option.map_eq_none_iff, List.find?_eq_none]
    intro n hn
    simp [h n hn]
  simp only [parseField, hnone]

theorem parseField_hit {text : Bytes} {field : HeaderField} {name : Bytes}
    (hname : name ∈ field.names)
    (h : ∀ n ∈ field.names, strncasecmp text n = decide (n = name)) (eol : Nat) (m : SipMsg)
    (fields : List HeaderField) :
    parseField text 0 eol m (field :: fields) =
      field.set m (copyLineValue text name.length eol field.size) := by
  have hfind : field.names.find? (fun n => strncasecmp text n) = some name := by
    obtain ⟨n, hn⟩ : ∃ n, field.names.find? (fun n => strncasecmp text n) = some n := by
      rw [← Option.isSome_iff_exists, List.find?_isSome]
      exact ⟨name, hname, by simp [h name hname]⟩
    have htrue := List.find?_some hn
    rw [h n (List.mem_of_find?_eq_some hn)] at htrue
    rw [hn, of_decide_eq_true htrue]
  simp only [parseField, valueStart, List.drop_zero, hfind, Option.map_some, Nat.zero_add]

theorem parseField_named {text : Bytes} {field : HeaderField} {name : Bytes}
    (hfield : field ∈ headerFields) (hname : name ∈ field.names)
    (h : strncasecmp text name = true) (eol : Nat) (m : SipMsg) :
    parseField text 0 eol m headerFields =
      field.set m (copyLineValue text name.length eol field.size) := by
  have hcmp (f : HeaderField) (hf : f ∈ headerFields) (n : Bytes) (hn : n ∈ f.names) :
      strncasecmp text n = decide (n = name) :=
    strncasecmp_named (field_names_mem hfield hname) (field_names_mem hf hn) h
  have happart := fields_apart
  generalize headerFields = fields at hfield hcmp happart
  induction fields with
  | nil => simp at hfield
  | cons f fields ih =>
      rcases List.mem_cons.mp hfield with rfl | hmem
      · exact parseField_hit hname (hcmp _ List.mem_cons_self) eol m fields
      · have hskip : ∀ n ∈ f.names, strncasecmp text n = false := by
          intro n hn
          have hne : n ≠ name := by
            rintro rfl
            exact (List.pairwise_cons.mp happart).1 field hmem n hn hname
          simp [hcmp f List.mem_cons_self n hn, hne]
        rw [parseField_skip hskip]
        exact ih hmem (fun g hg => hcmp g (List.mem_cons_of_mem _ hg))
          (List.pairwise_cons.mp happart).2

theorem parseField_content_length {text : Bytes}
    (h : strncasecmp text (ascii "Content-Length:") = true) (eol : Nat) (m : SipMsg) :
    parseField text 0 eol m headerFields =
      { m with contentLength := atoi (text.drop 15) } := by
  have hcmp (f : HeaderField) (hf : f ∈ headerFields) (n : Bytes) (hn : n ∈ f.names) :
      strncasecmp text n = false := by
    rw [strncasecmp_named length_name_mem (field_names_mem hf hn) h]
    exact decide_eq_false fun hne => length_apart f hf (hne ▸ hn)
  generalize headerFields = fields at hcmp
  induction fields with
  | nil => simp [parseField, valueStart, h]; rfl
  | cons f fields ih =>
      rw [parseField_skip (hcmp f List.mem_cons_self)]
      exact ih fun g hg => hcmp g (List.mem_cons_of_mem _ hg)

theorem parseField_unknown {text : Bytes} (h : ∀ n ∈ allNames, strncasecmp text n = false)
    (eol : Nat) (m : SipMsg) : parseField text 0 eol m headerFields = m := by
  have hcmp (f : HeaderField) (hf : f ∈ headerFields) (n : Bytes) (hn : n ∈ f.names) :
      strncasecmp text n = false := h n (field_names_mem hf hn)
  generalize headerFields = fields at hcmp
  induction fields with
  | nil => simp [parseField, valueStart, h _ length_name_mem]
  | cons f fields ih =>
      rw [parseField_skip (hcmp f List.mem_cons_self)]
      exact ih fun g hg => hcmp g (List.mem_cons_of_mem _ hg)

theorem header_cases (text : Bytes) :
    (∃ field ∈ headerFields, ∃ n ∈ field.names, strncasecmp text n = true) ∨
      strncasecmp text (ascii "Content-Length:") = true ∨
      ∀ n ∈ allNames, strncasecmp text n = false := by
  by_cases hname : ∃ n ∈ allNames, strncasecmp text n = true
  · obtain ⟨n, hn, ht⟩ := hname
    rcases List.mem_append.mp hn with hn | hn
    · obtain ⟨field, hfield, hn⟩ := List.mem_flatMap.mp hn
      exact .inl ⟨field, hfield, n, hn, ht⟩
    · obtain rfl := List.mem_singleton.mp hn
      exact .inr (.inl ht)
  · refine .inr (.inr fun n hn => ?_)
    rw [Bool.eq_false_iff]
    exact fun ht => hname ⟨n, hn, ht⟩

section Frame

variable {α : Type} {obs : SipMsg → α}

theorem parseField_frame {fields : List HeaderField}
    (hset : ∀ field ∈ fields, ∀ m v, obs (field.set m v) = obs m)
    (hlength : ∀ m n, obs { m with contentLength := n } = obs m) (mem : Bytes) (s eol : Nat)
    (m : SipMsg) : obs (parseField mem s eol m fields) = obs m := by
  induction fields with
  | nil =>
      rw [parseField]
      split
      · rfl
      · exact hlength ..
  | cons field fields ih =>
      rw [parseField]
      split
      · exact ih fun f hf => hset f (List.mem_cons_of_mem _ hf)
      · exact hset field List.mem_cons_self ..

theorem parseHeaders_frame
    (hset : ∀ field ∈ headerFields, ∀ m v, obs (field.set m v) = obs m)
    (hlength : ∀ m n, obs { m with contentLength := n } = obs m) (mem : Bytes) (body left : Nat)
    (s : Nat) (m : SipMsg) : obs (parseHeaders mem body left s m) = obs m := by
  induction left generalizing s m with
  | zero => rfl
  | succ left ih =>
      rw [parseHeaders]
      split
      · dsimp only
        split
        · exact ih ..
        · rw [ih, parseField_frame hset hlength]
      · rfl

end Frame

def startLine (m : SipMsg) : Bool × Int × Bytes × Bytes :=
  (m.isResponse, m.status, m.method, m.uri)

-- A header field touches neither the start line nor what belongs to the body.
theorem set_kept {field : HeaderField} (hfield : field ∈ headerFields) (m : SipMsg)
    (value : Bytes) : startLine (field.set m value) = startLine m ∧
      (field.set m value).body = m.body ∧
        (field.set m value).contentLength = m.contentLength := by
  simp only [headerFields, List.mem_cons, List.not_mem_nil, or_false] at hfield
  rcases hfield with rfl | rfl | rfl | rfl | rfl | rfl | rfl | rfl
  · simp only [addVia]
    split <;> exact ⟨rfl, rfl, rfl⟩
  all_goals exact ⟨rfl, rfl, rfl⟩

theorem parseHeaders_startLine (mem : Bytes) (body left s : Nat) (m : SipMsg) :
    startLine (parseHeaders mem body left s m) = startLine m :=
  parseHeaders_frame (fun _ hfield m v => (set_kept hfield m v).1) (fun _ _ => rfl) mem body
    left s m

theorem parseBody_eq (d : Datagram) (body : Nat) (m : SipMsg) :
    parseBody d body m = { m with body := (parseBody d body m).body } := by
  simp only [parseBody]
  split <;> rfl

theorem findEol_line {line : Bytes} (hline : (10 : UInt8) ∉ line) (rest : Bytes) (area : Nat) :
    findEol (line ++ 10 :: rest) 0 (line.length + 1 + area) = line.length := by
  have htake : (line ++ 10 :: rest).take (line.length + 1 + area) =
      line ++ 10 :: rest.take area := by
    rw [Nat.add_assoc, List.take_length_add_append, Nat.add_comm 1, List.take_succ_cons]
  rw [findEol, List.drop_zero, Nat.sub_zero, htake, Nat.zero_add, List.findIdx_append,
    List.findIdx_eq_length.mpr, if_neg (by simp)]
  · simp [List.findIdx_cons]
  · rintro c hc
    rw [decide_eq_false_iff_not]
    rintro rfl
    exact hline hc

theorem findEol_last {text : Bytes} {area : Nat} (harea : area ≤ text.length)
    (htext : (10 : UInt8) ∉ text.take area) : findEol text 0 area = area := by
  rw [findEol, List.drop_zero, Nat.sub_zero, Nat.zero_add, List.findIdx_eq_length.mpr]
  · rw [List.length_take, Nat.min_eq_left harea]
  · rintro c hc
    rw [decide_eq_false_iff_not]
    rintro rfl
    exact htext hc

def parseLine (line rest : Bytes) (m : SipMsg) : SipMsg :=
  if line = [] ∨ line = [13] then m
  else parseField (line ++ 10 :: rest) 0 line.length m headerFields

theorem parseHeaders_nil (text : Bytes) (left : Nat) (m : SipMsg) :
    parseHeaders text 0 left 0 m = m := by
  cases left <;> simp [parseHeaders]

theorem parseHeaders_line {line : Bytes} (hline : (10 : UInt8) ∉ line) (rest : Bytes)
    (area left : Nat) (m : SipMsg) :
    parseHeaders (line ++ 10 :: rest) (line.length + 1 + area) (left + 1) 0 m =
      parseHeaders rest area left 0 (parseLine line rest m) := by
  have hnext (m : SipMsg) :
      parseHeaders (line ++ 10 :: rest) (line.length + 1 + area) left (line.length + 1) m =
        parseHeaders rest area left 0 m := by
    have hdrop : (line ++ 10 :: rest).drop (line.length + 1) = rest := by
      rw [List.drop_length_add_append, List.drop_succ_cons, List.drop_zero]
    have hshift := parseHeaders_shift (line ++ 10 :: rest) (line.length + 1) area left 0 m
    rwa [Nat.add_zero, hdrop] at hshift
  have hblank : (0 = line.length ∨ (line ++ 10 :: rest).getD 0 0 = 13 ∧ line.length - 0 = 1) ↔
      (line = [] ∨ line = [13]) := by
    cases line with
    | nil => simp
    | cons c line => simp [and_comm]
  simp only [parseHeaders, findEol_line hline, hblank, parseLine, hnext]
  rw [if_pos (by omega)]
  split <;> rfl

theorem parseHeaders_last {text : Bytes} {area : Nat} (hpos : 0 < area)
    (harea : area ≤ text.length) (htext : (10 : UInt8) ∉ text.take area) (left : Nat)
    (m : SipMsg) :
    parseHeaders text area (left + 1) 0 m =
      if text.getD 0 0 = 13 ∧ area = 1 then m else parseField text 0 area m headerFields := by
  have hend (m : SipMsg) : parseHeaders text area left (area + 1) m = m := by
    cases left with
    | zero => rfl
    | succ left => rw [parseHeaders, if_neg (by omega)]
  have hskip : (0 = area ∨ text.getD 0 0 = 13 ∧ area - 0 = 1) ↔
      (text.getD 0 0 = 13 ∧ area = 1) := by
    simp only [Nat.sub_zero, or_iff_right (by omega : ¬ 0 = area)]
  simp only [parseHeaders, findEol_last harea htext, hend, if_pos hpos, hskip]

theorem bodyOffset_some {bytes : Bytes} {k : Nat} (h : bodyOffset bytes = some k) :
    ∃ a b, bytes = a ++ 10 :: b ∧ k = a.length + 1 ∧ (10 : UInt8) ∈ a := by
  fun_induction bodyOffset bytes generalizing k with
  | case1 rest =>
      obtain rfl : 4 = k := by simpa using h
      exact ⟨[13, 10, 13], rest, rfl, rfl, by decide⟩
  | case2 rest =>
      obtain rfl : 2 = k := by simpa using h
      exact ⟨[10], rest, rfl, rfl, by decide⟩
  | case3 c rest _ _ ih =>
      obtain ⟨j, hj, rfl⟩ := Option.map_eq_some_iff.mp h
      obtain ⟨a, b, rfl, rfl, hmem⟩ := ih hj
      exact ⟨c :: a, b, rfl, rfl, List.mem_cons_of_mem _ hmem⟩
  | case4 => simp at h

def headerArea (bytes : Bytes) : Nat := (bodyOffset bytes).getD bytes.length

theorem headerArea_of_no_line {bytes : Bytes} (h : (10 : UInt8) ∉ bytes) :
    headerArea bytes = bytes.length := by
  rw [headerArea]
  cases hk : bodyOffset bytes with
  | none => rfl
  | some k =>
      obtain ⟨a, b, rfl, -, -⟩ := bodyOffset_some hk
      simp at h

-- The header area either reaches the end of the datagram or ends with a line feed.
theorem headerArea_line {first : Bytes} (hfirst : (10 : UInt8) ∉ first) (rest : Bytes) :
    ∃ area, headerArea (first ++ 10 :: rest) = first.length + 1 + area ∧ area ≤ rest.length ∧
      (area = rest.length ∨ area = 0 ∨ ∃ a, rest.take area = a ++ [10]) := by
  rw [headerArea]
  cases hk : bodyOffset (first ++ 10 :: rest) with
  | none => exact ⟨rest.length, by simp; omega, le_rfl, .inl rfl⟩
  | some k =>
      obtain ⟨a, b, hab, rfl, hmem⟩ := bodyOffset_some hk
      rcases List.append_eq_append_iff.mp hab with ⟨c, hc, hrest⟩ | ⟨c, hc, hrest⟩
      · cases c with
        | nil =>
            rw [List.append_nil] at hc
            exact absurd (hc ▸ hmem) hfirst
        | cons c0 c =>
            obtain ⟨rfl, rfl⟩ := List.cons.inj hrest
            refine ⟨c.length + 1, by simp [hc]; omega, by simp, .inr (.inr ⟨c, ?_⟩)⟩
            exact (List.take_length_add_append ..).trans (by simp)
      · refine absurd ?_ hfirst
        rw [hc]
        exact List.mem_append_left _ hmem

def datagram (bytes stale line : Bytes) : Datagram := ⟨bytes ++ stale, bytes.length, line⟩

theorem eq_datagram {d : Datagram} {bytes : Bytes} (hlen : d.len = bytes.length)
    (hbytes : d.bytes = bytes) : d = datagram bytes (d.buf.drop d.len) d.line := by
  have hbuf : bytes ++ d.buf.drop d.len = d.buf := by
    rw [← hbytes, Datagram.bytes, List.take_append_drop]
  cases d
  simp_all [datagram]

@[simp] theorem datagram_bytes (bytes stale line : Bytes) :
    (datagram bytes stale line).bytes = bytes := by
  simp [datagram, Datagram.bytes]

theorem parseSip_no_line {bytes : Bytes} (h : (10 : UInt8) ∉ bytes) (stale line : Bytes) :
    parseSip (datagram bytes stale line) =
      parseFirstLine (datagram bytes stale line) bytes.length sipMsgZero := by
  have harea := headerArea_of_no_line h
  rw [headerArea] at harea
  have heol : findEol (bytes ++ stale) 0 bytes.length = bytes.length :=
    findEol_last (by simp) (by simpa using h)
  simp only [parseSip, datagram_bytes]
  simp only [datagram, harea, heol, lt_self_iff_false, if_false, Nat.sub_self, parseBody]
  rfl

theorem parseSip_line {first rest : Bytes} (hfirst : (10 : UInt8) ∉ first) {area : Nat}
    (harea : headerArea (first ++ 10 :: rest) = first.length + 1 + area) (stale line : Bytes) :
    let d := datagram (first ++ 10 :: rest) stale line
    parseSip d =
      parseBody d (first.length + 1 + area)
        (parseHeaders (rest ++ stale) area area 0
          (parseFirstLine d first.length sipMsgZero)) := by
  rw [headerArea] at harea
  have hbuf : first ++ 10 :: rest ++ stale = first ++ 10 :: (rest ++ stale) := by simp
  have heol : findEol (first ++ 10 :: rest ++ stale) 0 (first.length + 1 + area) =
      first.length := by
    rw [hbuf, findEol_line hfirst]
  have hdrop : (first ++ 10 :: rest ++ stale).drop (first.length + 1) = rest ++ stale := by
    rw [hbuf, List.drop_length_add_append, List.drop_succ_cons, List.drop_zero]
  have hshift (m : SipMsg) := parseHeaders_shift (first ++ 10 :: rest ++ stale)
    (first.length + 1) area area 0 m
  rw [hdrop, Nat.add_zero] at hshift
  simp only [parseSip, datagram_bytes]
  simp only [datagram, harea, heol]
  rw [if_pos (by omega), Nat.add_sub_cancel_left, hshift]

theorem parseFirstLine_via (d : Datagram) (eol : Nat) :
    (parseFirstLine d eol sipMsgZero).via = [] := by
  simp only [parseFirstLine]
  split
  · rfl
  · split <;> rfl

theorem parseFirstLine_body (d : Datagram) (eol : Nat) :
    (parseFirstLine d eol sipMsgZero).body = [] := by
  simp only [parseFirstLine]
  split
  · rfl
  · split <;> rfl

theorem parseHeaders_body (mem : Bytes) (body left s : Nat) (m : SipMsg) :
    (parseHeaders mem body left s m).body = m.body :=
  parseHeaders_frame (fun _ hfield m v => (set_kept hfield m v).2.1) (fun _ _ => rfl) mem body
    left s m

theorem parseBody_length {d : Datagram} {body : Nat} {m : SipMsg} (hm : m.body = []) :
    (parseBody d body m).body.length ≤ d.len - body := by
  rw [parseBody]
  split
  · dsimp only
    rw [List.length_take]
    split <;> omega
  · simp [hm]

theorem parseSip_body_length (bytes stale line : Bytes) :
    (parseSip (datagram bytes stale line)).body.length ≤ bytes.length - headerArea bytes := by
  have hbytes : (datagram bytes stale line).bytes = bytes := datagram_bytes ..
  simp only [parseSip, hbytes]
  apply parseBody_length
  rw [parseHeaders_body, parseFirstLine_body]

end Softmodem.Sip

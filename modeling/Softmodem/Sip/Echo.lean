import Softmodem.Sip.Rendered
import Softmodem.Sip.SelfContained

namespace Softmodem.Sip

open CString

def lineOf (text : Bytes) : Bytes := text.takeWhile (· ≠ 10)

def readLine (m : SipMsg) (text : Bytes) : SipMsg :=
  parseField text 0 (lineOf text).length m headerFields

theorem lineOf_line {line : Bytes} (hline : (10 : UInt8) ∉ line) (rest : Bytes) :
    lineOf (line ++ 10 :: rest) = line :=
  takeWhile_line hline rest

theorem lineOf_last {text : Bytes} (htext : (10 : UInt8) ∉ text) : lineOf text = text :=
  List.takeWhile_eq_self_iff.mpr fun c hc => by simpa using fun h : c = 10 => htext (h ▸ hc)

theorem lineOf_no_line (text : Bytes) : (10 : UInt8) ∉ lineOf text := by
  intro h
  simpa using List.mem_takeWhile_imp h

theorem lineOf_take (text : Bytes) : text.take (lineOf text).length = lineOf text :=
  (List.prefix_iff_eq_take.mp (List.takeWhile_prefix _)).symm

theorem blank_unknown {line : Bytes} (h : line = [] ∨ line = [13]) (rest : Bytes) :
    ∀ n ∈ allNames, strncasecmp (line ++ 10 :: rest) n = false := by
  intro n hn
  rw [strncasecmp_line hn, Bool.eq_false_iff]
  intro ht
  have hlong := names_long n hn
  have hlen := strncasecmp_length ht
  rcases h with rfl | rfl <;> simp only [List.length_nil, List.length_singleton] at hlen <;> omega

theorem parseLine_eq_readLine {line : Bytes} (hline : (10 : UInt8) ∉ line) (rest : Bytes)
    (m : SipMsg) : parseLine line rest m = readLine m (line ++ 10 :: rest) := by
  rw [parseLine, readLine, lineOf_line hline]
  split
  · next hblank => rw [parseField_unknown (blank_unknown hblank rest)]
  · rfl

theorem return_unknown : ∀ n ∈ allNames, strncasecmp [13] n = false := by decide

theorem parseHeaders_fold {left : Nat} :
    ∀ {area : Nat} {text : Bytes} {m : SipMsg}, area ≤ left → area ≤ text.length →
      AreaEnds area text →
      parseHeaders text area left 0 m = (linesFrom area text).foldl readLine m := by
  induction left with
  | zero =>
      intro area text m hleft harea hends
      obtain rfl : area = 0 := by omega
      rfl
  | succ left ih =>
      intro area text m hleft harea hends
      rcases area_cases harea with rfl | ⟨line, rest, more, hline, rfl, rfl, hmore⟩ |
        ⟨hpos, htext⟩
      · rw [parseHeaders_nil]
        rfl
      · rw [parseHeaders_line hline, linesFrom_line hline, List.foldl_cons,
          parseLine_eq_readLine hline]
        exact ih (by omega) hmore (hends.line hmore)
      · obtain rfl := hends.last hpos htext
        rw [List.take_length] at htext
        rw [linesFrom_last hpos (by rwa [List.take_length]), List.foldl_cons, List.foldl_nil,
          parseHeaders_last hpos le_rfl (by rwa [List.take_length]), readLine, lineOf_last htext]
        split
        · next hreturn =>
            obtain ⟨c, rfl⟩ := List.length_eq_one_iff.mp hreturn.2
            obtain rfl : c = 13 := by simpa using hreturn.1
            rw [parseField_unknown return_unknown]
        · rfl

theorem parseFirstLine_fields (d : Datagram) (eol : Nat) :
    ∃ isResponse status method uri, parseFirstLine d eol sipMsgZero =
      { sipMsgZero with
        isResponse := isResponse, status := status, method := method, uri := uri } := by
  rw [parseFirstLine]
  dsimp only
  split
  · exact ⟨true, _, [], [], rfl⟩
  · split
    · exact ⟨false, 0, [], [], rfl⟩
    · exact ⟨false, 0, _, _, rfl⟩

-- A message read from the datagram alone: the header lines set its fields one after another.
theorem parseSip_fold (bytes line : Bytes) :
    ∃ isResponse status method uri body, parseSip (datagram bytes [] line) =
      { (headerLines bytes).foldl readLine
          { sipMsgZero with
            isResponse := isResponse, status := status, method := method, uri := uri } with
        body := body } := by
  by_cases hmem : (10 : UInt8) ∈ bytes
  · obtain ⟨first, rest, rfl, hfirst⟩ := List.eq_append_cons_of_mem hmem
    obtain ⟨area, harea, hle, hends⟩ := headerArea_line hfirst rest
    obtain ⟨isResponse, status, method, uri, hstart⟩ :=
      parseFirstLine_fields (datagram (first ++ 10 :: rest) [] line) first.length
    have heq := parseSip_line hfirst harea [] line
    dsimp only at heq
    rw [parseBody_eq, hstart, List.append_nil, parseHeaders_fold le_rfl hle hends,
      ← headerLines_line hfirst harea] at heq
    exact ⟨isResponse, status, method, uri, _, heq⟩
  · obtain ⟨isResponse, status, method, uri, hstart⟩ :=
      parseFirstLine_fields (datagram bytes [] line) bytes.length
    refine ⟨isResponse, status, method, uri, [], ?_⟩
    rw [parseSip_no_line hmem, hstart, headerLines, lineStarts_last]
    · rfl
    · exact fun h => hmem (List.mem_of_mem_take h)

theorem name_inside {text name : Bytes} (hname : name ∈ allNames)
    (h : strncasecmp text name = true) : name.length ≤ (lineOf text).length := by
  by_cases hmem : (10 : UInt8) ∈ text
  · obtain ⟨line, rest, rfl, hline⟩ := List.eq_append_cons_of_mem hmem
    rw [lineOf_line hline]
    rw [strncasecmp_line hname] at h
    exact strncasecmp_length h
  · rw [lineOf_last hmem]
    exact strncasecmp_length h

theorem readLine_named {field : HeaderField} {name text : Bytes} (hfield : field ∈ headerFields)
    (hname : name ∈ field.names) (h : strncasecmp text name = true) (m : SipMsg) :
    readLine m text =
      field.set m (Value ((lineOf text).drop name.length) field.size) := by
  have hinside := name_inside (field_names_mem hfield hname) h
  have htake : (text.drop name.length).take ((lineOf text).length - name.length) =
      (lineOf text).drop name.length := by
    rw [← List.drop_take, lineOf_take]
  rw [readLine, parseField_named hfield hname h, copyLineValue_inside hinside, htake]

def stripped (text : Bytes) : Bytes :=
  (text.reverse.dropWhile fun c => c = 13 || isBlank c).reverse.dropWhile isBlank

theorem value_eq (text : Bytes) (size : Nat) :
    Value text size = cstr ((stripped text).take (size - 1)) := rfl

theorem mem_stripped {text : Bytes} {c : UInt8} (h : c ∈ stripped text) : c ∈ text := by
  have hmem := List.mem_reverse.mp ((List.dropWhile_suffix _).subset h)
  exact List.mem_reverse.mp ((List.dropWhile_suffix _).subset hmem)

theorem dropWhile_head {α : Type} {p : α → Bool} {s : List α} {c : α}
    (h : c ∈ (s.dropWhile p).head?) : p c = false := by
  have hnot := List.head?_dropWhile_not p s
  rwa [Option.mem_def.mp h] at hnot

theorem stripped_trimmed {text : Bytes} (hnul : (0 : UInt8) ∉ text) (hline : (10 : UInt8) ∉ text) :
    Trimmed (stripped text) := by
  refine ⟨fun h => hnul (mem_stripped h), fun h => hline (mem_stripped h),
    fun c hc => dropWhile_head hc, fun c hc => ?_⟩
  obtain ⟨blanks, hblanks⟩ := List.dropWhile_suffix (l :=
    (text.reverse.dropWhile fun c => c = 13 || isBlank c).reverse) isBlank
  have hlast := congrArg List.getLast? hblanks
  rw [← stripped, List.getLast?_append, Option.mem_def.mp hc, Option.some_or,
    List.getLast?_reverse] at hlast
  exact dropWhile_head (p := fun c => c = 13 || isBlank c) hlast.symm

theorem value_stripped {text : Bytes} (hnul : (0 : UInt8) ∉ text) {size : Nat}
    (hsize : (stripped text).length < size) : Value text size = stripped text := by
  rw [value_eq, List.take_of_length_le (by omega), cstr_self fun h => hnul (mem_stripped h)]

theorem mem_value {text : Bytes} {size : Nat} {c : UInt8} (h : c ∈ Value text size) :
    c ∈ text :=
  mem_stripped (List.mem_of_mem_take ((List.takeWhile_prefix _).subset h))

-- What a header line says, whatever the size of the field it is kept in.
def headerValue (name text : Bytes) : Bytes := stripped ((lineOf text).drop name.length)

def Fits (bytes : Bytes) : Prop :=
  ∀ text ∈ headerLines bytes, ∀ field ∈ headerFields, ∀ name ∈ field.names,
    strncasecmp text name = true → (headerValue name text).length < field.size

theorem lineStarts_sub {area : Nat} {text t : Bytes} (h : t ∈ lineStarts area text) :
    t <:+ text := by
  induction area generalizing text with
  | zero => simp [lineStarts] at h
  | succ area ih =>
      cases text with
      | nil => simp [lineStarts] at h
      | cons c text =>
          rw [lineStarts] at h
          split at h
          · rcases List.mem_cons.mp h with rfl | h
            · exact List.suffix_cons c _
            · exact (ih h).trans (List.suffix_cons c text)
          · exact (ih h).trans (List.suffix_cons c text)

theorem headerLines_sub {bytes t : Bytes} (h : t ∈ headerLines bytes) {c : UInt8}
    (hc : c ∈ t) : c ∈ bytes :=
  (lineStarts_sub h).subset hc

theorem lineOf_sub {text : Bytes} {c : UInt8} (h : c ∈ lineOf text) : c ∈ text :=
  (List.takeWhile_prefix _).subset h

-- What holds of every value kept in a field of its size.
structure Stored (P : Nat → Bytes → Prop) (m : SipMsg) : Prop where
  via : ∀ v ∈ m.via, P 320 v
  vias : m.via.length ≤ smSipMaxVias
  fromHdr : P 320 m.fromHdr
  toHdr : P 320 m.toHdr
  toTag : m.toTag = extractTag m.toHdr
  callId : P 256 m.callId
  cseq : P 64 m.cseq
  contact : P 320 m.contact

section Stored

variable {P : Nat → Bytes → Prop}

theorem Stored.set {field : HeaderField} (hfield : field ∈ headerFields) {m : SipMsg}
    (h : Stored P m) {value : Bytes} (hvalue : P field.size value) :
    Stored P (field.set m value) := by
  simp only [headerFields, List.mem_cons, List.not_mem_nil, or_false] at hfield
  rcases hfield with rfl | rfl | rfl | rfl | rfl | rfl | rfl | rfl
  · have hadd : Stored P (addVia m value) := by
      rw [addVia]
      split
      · next hlt =>
          refine { h with via := fun v hv => ?_, vias := ?_ }
          · rcases List.mem_append.mp hv with hv | hv
            · exact h.via v hv
            · exact List.mem_singleton.mp hv ▸ hvalue
          · rw [List.length_append, List.length_singleton]
            exact hlt
      · exact h
    exact hadd
  · exact { h with fromHdr := hvalue }
  · exact { h with toHdr := hvalue, toTag := rfl }
  · exact { h with callId := hvalue }
  · exact { h with cseq := hvalue }
  · exact { h with contact := hvalue }
  · exact { h with }
  · exact { h with }

theorem Stored.readLine {m : SipMsg} (h : Stored P m) {text : Bytes}
    (hvalue : ∀ field ∈ headerFields, ∀ name ∈ field.names, strncasecmp text name = true →
      P field.size (Value ((lineOf text).drop name.length) field.size)) :
    Stored P (readLine m text) := by
  rcases header_cases text with ⟨field, hfield, n, hn, ht⟩ | hlength | hunknown
  · rw [readLine_named hfield hn ht]
    exact h.set hfield (hvalue field hfield n hn ht)
  · rw [Sip.readLine, parseField_content_length hlength]
    exact { h with }
  · rwa [Sip.readLine, parseField_unknown hunknown]

theorem parseSip_stored {bytes : Bytes} (hnil : ∀ size, 0 < size → P size [])
    (hvalue : ∀ text ∈ headerLines bytes, ∀ field ∈ headerFields, ∀ name ∈ field.names,
      strncasecmp text name = true →
        P field.size (Value ((lineOf text).drop name.length) field.size)) (line : Bytes) :
    Stored P (parseSip (datagram bytes [] line)) := by
  obtain ⟨isResponse, status, method, uri, body, heq⟩ := parseSip_fold bytes line
  have hfold (texts : List Bytes) (hsub : ∀ t ∈ texts, t ∈ headerLines bytes) (m : SipMsg)
      (hm : Stored P m) : Stored P (texts.foldl Sip.readLine m) := by
    induction texts generalizing m with
    | nil => exact hm
    | cons t texts ih =>
        exact ih (fun u hu => hsub u (List.mem_cons_of_mem _ hu)) _
          (hm.readLine (hvalue t (hsub t List.mem_cons_self)))
  rw [heq]
  exact { hfold _ (fun _ ht => ht) _
    ⟨by simp [sipMsgZero], Nat.zero_le _, hnil 320 (by decide), hnil 320 (by decide), rfl,
      hnil 256 (by decide), hnil 64 (by decide), hnil 320 (by decide)⟩ with }

end Stored

def viaName (text : Bytes) : Bytes :=
  if strncasecmp text (ascii "Via:") then ascii "Via:" else ascii "v:"

def viaValues (bytes : Bytes) : List Bytes :=
  ((headerLines bytes).filter isVia).map fun text => headerValue (viaName text) text

theorem viaName_matches {text : Bytes} (h : isVia text = true) :
    viaName text ∈ viaNames ∧ strncasecmp text (viaName text) = true := by
  rw [isVia, viaNames, List.any_cons, List.any_cons, List.any_nil, Bool.or_false,
    Bool.or_eq_true] at h
  rw [viaName]
  split
  · next ht => exact ⟨List.mem_cons_self, ht⟩
  · next ht => exact ⟨List.mem_cons_of_mem _ (List.mem_singleton_self _), h.resolve_left ht⟩

theorem readLine_via {text : Bytes} (hnul : (0 : UInt8) ∉ text)
    (hfits : ∀ name ∈ viaNames, strncasecmp text name = true →
      (headerValue name text).length < 320)
    {m : SipMsg} (hroom : isVia text = true → m.via.length < smSipMaxVias) :
    (readLine m text).via =
      m.via ++ if isVia text then [headerValue (viaName text) text] else [] := by
  by_cases hvia : isVia text = true
  · obtain ⟨hn, ht⟩ := viaName_matches hvia
    have hvalue : Value ((lineOf text).drop (viaName text).length) viaField.size =
        headerValue (viaName text) text :=
      value_stripped (fun h => hnul (lineOf_sub (List.mem_of_mem_drop h))) (hfits _ hn ht)
    rw [readLine_named viaField_mem hn ht, hvalue, if_pos hvia]
    exact congrArg SipMsg.via (if_pos (hroom hvia))
  · rw [if_neg hvia, List.append_nil, readLine, parseField_not_via hvia]

theorem parseSip_via {bytes : Bytes} (hnul : (0 : UInt8) ∉ bytes) (hfits : Fits bytes)
    (hvias : viaLines bytes ≤ smSipMaxVias) (line : Bytes) :
    (parseSip (datagram bytes [] line)).via = viaValues bytes := by
  obtain ⟨isResponse, status, method, uri, body, heq⟩ := parseSip_fold bytes line
  have hfold (texts : List Bytes) (hsub : ∀ t ∈ texts, t ∈ headerLines bytes) (m : SipMsg)
      (hm : m.via.length + texts.countP isVia ≤ smSipMaxVias) :
      (texts.foldl readLine m).via =
        m.via ++ (texts.filter isVia).map fun text => headerValue (viaName text) text := by
    induction texts generalizing m with
    | nil => simp
    | cons t texts ih =>
        rw [List.countP_cons] at hm
        have hread := readLine_via (m := m) (fun h => hnul (headerLines_sub (hsub t (by simp)) h))
          (hfits t (hsub t List.mem_cons_self) viaField viaField_mem)
          (fun hvia => by rw [if_pos hvia] at hm; omega)
        rw [List.foldl_cons, ih (fun u hu => hsub u (List.mem_cons_of_mem _ hu)), hread,
          List.filter_cons, List.append_assoc]
        · split <;> simp
        · rw [hread, List.length_append]
          split at hm <;> simp_all
          omega
  rw [heq]
  exact hfold _ (fun _ ht => ht) _ ((Nat.zero_add _).trans_le hvias)

theorem stored_no_line (bytes line : Bytes) :
    Stored (fun _ v => (10 : UInt8) ∉ v) (parseSip (datagram bytes [] line)) := by
  apply parseSip_stored fun _ _ => List.not_mem_nil
  intro text _ field _ name _ _ h
  exact lineOf_no_line text (List.mem_of_mem_drop (mem_value h))

def Storable (size : Nat) (value : Bytes) : Prop := Trimmed value ∧ value.length < size

theorem stored_storable {bytes : Bytes} (hnul : (0 : UInt8) ∉ bytes) (hfits : Fits bytes)
    (line : Bytes) : Stored Storable (parseSip (datagram bytes [] line)) := by
  have hempty : Trimmed [] := ⟨by simp, by simp, by simp, by simp⟩
  apply parseSip_stored fun size hsize => ⟨hempty, hsize⟩
  intro text htext field hfield name hname hmatch
  have hnone : (0 : UInt8) ∉ (lineOf text).drop name.length :=
    fun h => hnul (headerLines_sub htext (lineOf_sub (List.mem_of_mem_drop h)))
  have hsize := hfits text htext field hfield name hname hmatch
  rw [value_stripped hnone hsize]
  exact ⟨stripped_trimmed hnone fun h => lineOf_no_line text (List.mem_of_mem_drop h), hsize⟩

-- What a response takes from its request.
def echoed (m : SipMsg) : List Bytes × Bytes × Bytes × Bytes × Bytes × Bytes × Bytes :=
  (m.via, m.fromHdr, m.toHdr, m.toTag, m.callId, m.cseq, m.contact)

def quietNames : List Bytes :=
  [ascii "Content-Type:", ascii "User-Agent:", ascii "Content-Length:"]

theorem reads_echoed : Reads echoed quietNames := by
  refine ⟨?_, fun _ _ _ h => h, fun _ _ h => congrArg (·.1.length) h, ?_, fun _ _ _ => rfl⟩
  · intro field hfield m m' v h
    simp only [echoed, Prod.mk.injEq] at h
    obtain ⟨hvia, hfrom, hto, htag, hcall, hcseq, hcontact⟩ := h
    simp only [headerFields, List.mem_cons, List.not_mem_nil, or_false] at hfield
    rcases hfield with rfl | rfl | rfl | rfl | rfl | rfl | rfl | rfl
    · simp only [addVia, hvia]
      split <;> simp_all [echoed]
    all_goals simp_all [echoed, setFrom, setTo, setCseq]
  · intro field hfield n hn hquiet m v
    simp only [headerFields, List.mem_cons, List.not_mem_nil, or_false] at hfield
    rcases hfield with rfl | rfl | rfl | rfl | rfl | rfl | rfl | rfl
    all_goals first | rfl | exact absurd hquiet (by revert n; decide)

theorem parseSip_echoed {bytes : Bytes} (h : Contained quietNames 0 (headerLines bytes))
    (stale line : Bytes) :
    echoed (parseSip (datagram bytes stale line)) = echoed (parseSip (datagram bytes [] [])) := by
  have hbody (d : Datagram) (body : Nat) (m : SipMsg) : echoed (parseBody d body m) = echoed m := by
    rw [parseBody_eq]
    rfl
  have hstart (d : Datagram) (eol : Nat) :
      echoed (parseFirstLine d eol sipMsgZero) = echoed sipMsgZero := by
    obtain ⟨_, _, _, _, heq⟩ := parseFirstLine_fields d eol
    rw [heq]
    rfl
  by_cases hmem : (10 : UInt8) ∈ bytes
  · obtain ⟨first, rest, rfl, hfirst⟩ := List.eq_append_cons_of_mem hmem
    obtain ⟨area, harea, hle, hends⟩ := headerArea_line hfirst rest
    rw [headerLines_line hfirst harea] at h
    rw [parseSip_line hfirst harea, parseSip_line hfirst harea, hbody, hbody, List.append_nil]
    exact parseHeaders_stale reads_echoed ((hstart ..).trans (hstart ..).symm) le_rfl hle hends
      (by rwa [parseFirstLine_via]) stale
  · rw [parseSip_no_line hmem, parseSip_no_line hmem, hstart, hstart]

end Softmodem.Sip

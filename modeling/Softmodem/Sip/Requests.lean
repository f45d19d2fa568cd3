import Mathlib.Data.List.Induction
import Mathlib.Data.List.TakeDrop
import Softmodem.Sip.Rendered

namespace Softmodem.Sip

open CString

structure Request where
  method : Bytes
  uri : Bytes
  via : List Bytes
  fromHdr : Bytes
  toHdr : Bytes
  callId : Bytes
  cseqNumber : Nat
  cseqMethod : Bytes
  contact : Bytes
  contentType : Bytes
  userAgent : Bytes
  body : Bytes
  deriving DecidableEq, Repr

def Request.cseq (r : Request) : Bytes := decimal (r.cseqNumber : Int) ++ 32 :: r.cseqMethod

def Request.fields (r : Request) : List (List Bytes) :=
  [r.via, [r.fromHdr], [r.toHdr], [r.callId], [r.cseq], [r.contact], [r.contentType],
    [r.userAgent]]

def Request.parsed (r : Request) : SipMsg :=
  { isResponse := false
    status := 0
    method := r.method
    uri := r.uri
    via := r.via
    fromHdr := r.fromHdr
    toHdr := r.toHdr
    callId := r.callId
    cseq := r.cseq
    cseqNum := r.cseqNumber
    cseqMethod := r.cseqMethod
    contact := r.contact
    contentType := r.contentType
    userAgent := r.userAgent
    contentLength := r.body.length
    body := r.body
    fromTag := extractTag r.fromHdr
    toTag := extractTag r.toHdr }

structure HeaderLine where
  name : Bytes
  spelled : Bytes
  left : Bytes
  value : Bytes
  right : Bytes
  crlf : Bool
  deriving DecidableEq, Repr

def lineReturn (crlf : Bool) : Bytes := if crlf then [13] else []

def HeaderLine.text (l : HeaderLine) : Bytes :=
  l.spelled ++ (l.left ++ l.value ++ (l.right ++ lineReturn l.crlf))

-- One way to write the request down: order and spelling of the headers, blanks, line ends.
structure Rendering where
  request : Request
  startCrlf : Bool
  lines : List HeaderLine
  blankCrlf : Bool
  trailing : Bytes
  deriving DecidableEq, Repr

def Rendering.start (r : Rendering) : Bytes :=
  r.request.method ++ 32 :: (r.request.uri ++ ascii " SIP/2.0" ++ lineReturn r.startCrlf)

def Rendering.bytes (r : Rendering) : Bytes :=
  message r.start (r.lines.map HeaderLine.text) (lineReturn r.blankCrlf)
    (r.request.body ++ r.trailing)

def Rendering.values (r : Rendering) (names : List Bytes) : List Bytes :=
  (r.lines.filter fun l => l.name ∈ names).map HeaderLine.value

def Token (text : Bytes) : Prop := ∀ c ∈ text, c ≠ 32 ∧ c ≠ 13 ∧ c ≠ 10 ∧ c ≠ 0

structure Plain (value : Bytes) : Prop extends Trimmed value where
  noReturn : (13 : UInt8) ∉ value

structure Rendering.WellFormed (r : Rendering) : Prop where
  method : Token r.request.method
  methodFits : r.request.method.length < 16
  uri : Token r.request.uri
  uriFits : r.request.uri.length < 256
  cseqMethod : Token r.request.cseqMethod
  cseqMethodFits : r.request.cseqMethod.length < 16
  vias : r.request.via.length ≤ smSipMaxVias
  body : r.request.body.length ≤ smSipMaxMsg
  named : ∀ l ∈ r.lines, l.name ∈ allNames
  spelled : ∀ l ∈ r.lines, l.spelled.map lower = l.name.map lower
  blanks : ∀ l ∈ r.lines, ∀ c ∈ l.left ++ l.right, isBlank c = true
  rendered : ∀ p ∈ headerFields.zip r.request.fields, r.values p.1.names = p.2
  fits : ∀ p ∈ headerFields.zip r.request.fields, ∀ v ∈ p.2, Plain v ∧ v.length < p.1.size
  length : r.values [ascii "Content-Length:"] = [decimal (r.request.body.length : Int)]

def Rendering.Separated (r : Rendering) : Prop :=
  r.blankCrlf = true → ∀ l ∈ r.lines.getLast?, l.crlf = true

def RoundTrips (r : Rendering) : Prop :=
  ∀ stale line, parseSip (datagram r.bytes stale line) = r.request.parsed

structure Recoverable (r : Rendering) : Prop where
  separated : r.Separated ∨ r.request.body = [] ∧ r.trailing = []
  body : r.request.body ≠ [] ∨ r.trailing = []
  method : ¬ ascii "SIP/2.0" <+: r.request.method
  number : r.request.cseqNumber < 2 ^ 31

theorem fields_zip {field : HeaderField} (h : field ∈ headerFields) (r : Request) :
    ∃ values, (field, values) ∈ headerFields.zip r.fields := by
  have hlen : headerFields.length ≤ r.fields.length := le_rfl
  rw [← List.map_fst_zip hlen] at h
  obtain ⟨⟨f, values⟩, hmem, rfl⟩ := List.mem_map.mp h
  exact ⟨values, hmem⟩

theorem Rendering.mem_values {r : Rendering} {l : HeaderLine} (hl : l ∈ r.lines)
    {names : List Bytes} (hname : l.name ∈ names) : l.value ∈ r.values names :=
  List.mem_map_of_mem (List.mem_filter.mpr ⟨hl, by simpa using hname⟩)

theorem body_small {r : Rendering} (h : r.WellFormed) : r.request.body.length < 2 ^ 31 := by
  have hbody := h.body
  rw [smSipMaxMsg] at hbody
  omega

section WellFormed

variable {r : Rendering} (h : r.WellFormed) {l : HeaderLine} (hl : l ∈ r.lines)

include h hl

theorem line_cases :
    (∃ field ∈ headerFields, l.name ∈ field.names ∧ Plain l.value ∧
        l.value.length < field.size) ∨
      l.name = ascii "Content-Length:" ∧ l.value = decimal (r.request.body.length : Int) := by
  rcases List.mem_append.mp (h.named l hl) with hname | hname
  · obtain ⟨field, hfield, hname⟩ := List.mem_flatMap.mp hname
    obtain ⟨values, hp⟩ := fields_zip hfield r.request
    have hvalue := Rendering.mem_values hl hname
    rw [h.rendered _ hp] at hvalue
    exact .inl ⟨field, hfield, hname, h.fits _ hp _ hvalue⟩
  · have hvalue := Rendering.mem_values hl hname
    rw [h.length, List.mem_singleton] at hvalue
    exact .inr ⟨List.mem_singleton.mp hname, hvalue⟩

theorem left_blank : ∀ c ∈ l.left, isBlank c = true :=
  fun c hc => h.blanks l hl c (List.mem_append_left _ hc)

theorem right_blank :
    ∀ c ∈ l.right ++ lineReturn l.crlf, (c = 13 || isBlank c) = true := by
  intro c hc
  rcases List.mem_append.mp hc with hc | hc
  · simp [h.blanks l hl c (List.mem_append_right _ hc)]
  · rw [lineReturn] at hc
    split at hc <;> simp_all

theorem parseLine_field {field : HeaderField} (hfield : field ∈ headerFields)
    (hname : l.name ∈ field.names) (rest : Bytes) (m : SipMsg) :
    parseLine l.text rest m = field.set m l.value := by
  obtain ⟨values, hp⟩ := fields_zip hfield r.request
  have hvalue := Rendering.mem_values hl hname
  rw [h.rendered _ hp] at hvalue
  obtain ⟨hplain, hsize⟩ := h.fits _ hp _ hvalue
  exact parseLine_named hfield hname (h.spelled l hl) hplain.toTrimmed hsize (left_blank h hl)
    (right_blank h hl) rest m

theorem parseLine_number (hname : l.name = ascii "Content-Length:") (rest : Bytes) (m : SipMsg) :
    parseLine l.text rest m = { m with contentLength := r.request.body.length } := by
  have hvalue := Rendering.mem_values hl (List.mem_singleton.mpr hname)
  rw [h.length, List.mem_singleton] at hvalue
  have hspelled := h.spelled l hl
  rw [hname] at hspelled
  rw [HeaderLine.text, hvalue]
  exact parseLine_length hspelled (left_blank h hl) (right_blank h hl) (body_small h) rest m

theorem parseLine_rest (rest : Bytes) (m : SipMsg) :
    parseLine l.text rest m = parseLine l.text [] m := by
  rcases line_cases h hl with ⟨field, hfield, hname, -, -⟩ | ⟨hname, -⟩
  · rw [parseLine_field h hl hfield hname, parseLine_field h hl hfield hname]
  · rw [parseLine_number h hl hname, parseLine_number h hl hname]

theorem value_no_line : (10 : UInt8) ∉ l.value := by
  rcases line_cases h hl with ⟨field, -, -, hplain, -⟩ | ⟨-, hvalue⟩
  · exact hplain.noLine
  · rw [hvalue]
    exact decimal_no_line _

theorem text_header : HeaderText l.text := by
  have hspelled := h.spelled l hl
  have hlong := names_long l.name (h.named l hl)
  rw [← spelled_length hspelled] at hlong
  refine ⟨?_, ?_, ?_⟩
  · intro hmem
    simp only [HeaderLine.text, List.mem_append] at hmem
    rcases hmem with hmem | (hmem | hmem) | hmem | hmem
    · apply names_plain l.name (h.named l hl)
      rw [← hspelled]
      exact List.mem_map_of_mem (f := lower) hmem
    · exact absurd (left_blank h hl 10 hmem) (by decide)
    · exact value_no_line h hl hmem
    · exact absurd (right_blank h hl 10 (List.mem_append_left _ hmem)) (by decide)
    · exact absurd (right_blank h hl 10 (List.mem_append_right _ hmem)) (by decide)
  all_goals
    intro heq
    have hlen := congrArg List.length heq
    rw [HeaderLine.text, List.length_append] at hlen
    simp only [List.length_nil, List.length_singleton] at hlen
    omega

end WellFormed

-- What the headers set, in the order of the fields.
def headerView (m : SipMsg) : List (List Bytes × Int) :=
  [(m.via, 0), ([m.fromHdr, m.fromTag], 0), ([m.toHdr, m.toTag], 0), ([m.callId], 0),
    ([m.cseq, m.cseqMethod], m.cseqNum), ([m.contact], 0), ([m.contentType], 0),
    ([m.userAgent], 0)]

def setView : Nat → Bytes → List Bytes × Int → List Bytes × Int
  | 0, v, (vias, n) => (if vias.length < smSipMaxVias then vias ++ [v] else vias, n)
  | 1, v, _ | 2, v, _ => ([v, extractTag v], 0)
  | 4, v, (old, _) =>
      ([v, ((splitAt 32 v).map fun (_, method) => method.take 15).getD (old.getD 1 [])], atoi v)
  | _, v, _ => ([v], 0)

theorem headerView_set {i : Nat} {field : HeaderField} (hfield : headerFields[i]? = some field)
    (m : SipMsg) (v : Bytes) :
    headerView (field.set m v) = (headerView m).modify i (setView i v) := by
  match i, hfield with
  | 0, h =>
      obtain rfl := Option.some.inj h
      simp only [addVia]
      split <;> simp_all [headerView, setView]
  | 4, h =>
      obtain rfl := Option.some.inj h
      simp only [setCseq]
      cases hsplit : splitAt 32 v <;> simp [headerView, setView, hsplit]
  | 1, h | 2, h | 3, h | 5, h | 6, h | 7, h =>
      obtain rfl := Option.some.inj h
      rfl

theorem sipMsg_eq {m m' : SipMsg} (hstart : startLine m = startLine m')
    (hview : headerView m = headerView m') (hlength : m.contentLength = m'.contentLength)
    (hbody : m.body = m'.body) : m = m' := by
  cases m
  cases m'
  simp_all [startLine, headerView]

theorem field_index {field : HeaderField} (h : field ∈ headerFields) :
    ∃ i : Nat, headerFields[i]? = some field :=
  List.mem_iff_getElem?.mp h

section Fold

variable {r : Rendering} (h : r.WellFormed)

def readHeaders (r : Rendering) (m : SipMsg) : SipMsg :=
  r.lines.foldl (fun m l => parseLine l.text [] m) m

include h

-- The headers of one name decide what they set, whatever stands between them.
theorem readHeaders_view {i : Nat} {field : HeaderField}
    (hfield : headerFields[i]? = some field) (m : SipMsg) :
    (headerView (readHeaders r m))[i]? =
      (headerView m)[i]?.map fun x =>
        (r.values field.names).foldl (fun x v => setView i v x) x := by
  have hmem := List.mem_of_getElem? hfield
  have hstep (l : HeaderLine) (hl : l ∈ r.lines) (m : SipMsg) :
      (headerView (parseLine l.text [] m))[i]? =
        (headerView m)[i]?.map fun x =>
          if l.name ∈ field.names then setView i l.value x else x := by
    by_cases hname : l.name ∈ field.names
    · rw [parseLine_field h hl hmem hname, headerView_set hfield]
      simp [hname]
    · rcases line_cases h hl with ⟨other, hother, hin, -, -⟩ | ⟨hlen, -⟩
      · obtain ⟨j, hj⟩ := field_index hother
        have hne : j ≠ i := by
          rintro rfl
          exact hname (Option.some.inj (hj.symm.trans hfield) ▸ hin)
        rw [parseLine_field h hl hother hin, headerView_set hj]
        simp [hname, hne]
      · rw [parseLine_number h hl hlen]
        simp only [if_neg hname, Option.map_id']
        rfl
  rw [readHeaders, Rendering.values]
  generalize r.lines = lines at hstep
  induction lines generalizing m with
  | nil => simp
  | cons l lines ih =>
      rw [List.foldl_cons, ih _ fun l' hl' => hstep l' (List.mem_cons_of_mem _ hl'),
        hstep l List.mem_cons_self, Option.map_map]
      congr 1
      funext x
      by_cases hname : l.name ∈ field.names <;> simp [hname]

theorem readHeaders_startLine (m : SipMsg) :
    startLine (readHeaders r m) = startLine m ∧ (readHeaders r m).body = m.body := by
  have hstep (l : HeaderLine) (hl : l ∈ r.lines) (m : SipMsg) :
      startLine (parseLine l.text [] m) = startLine m ∧
        (parseLine l.text [] m).body = m.body := by
    rcases line_cases h hl with ⟨field, hfield, hmem, -, -⟩ | ⟨hlen, -⟩
    · rw [parseLine_field h hl hfield hmem]
      exact ⟨(set_kept hfield ..).1, (set_kept hfield ..).2.1⟩
    · rw [parseLine_number h hl hlen]
      exact ⟨rfl, rfl⟩
  rw [readHeaders]
  generalize r.lines = lines at hstep
  induction lines generalizing m with
  | nil => exact ⟨rfl, rfl⟩
  | cons l lines ih =>
      have hl := hstep l List.mem_cons_self m
      have ih := ih (parseLine l.text [] m) fun l' hl' => hstep l' (List.mem_cons_of_mem _ hl')
      exact ⟨ih.1.trans hl.1, ih.2.trans hl.2⟩

theorem readHeaders_length (m : SipMsg) :
    (readHeaders r m).contentLength = r.request.body.length := by
  have hne : (r.lines.filter fun l => l.name ∈ [ascii "Content-Length:"]) ≠ [] := by
    intro hnil
    have hlength := h.length
    rw [Rendering.values, hnil] at hlength
    simp at hlength
  have hstep (l : HeaderLine) (hl : l ∈ r.lines) (m : SipMsg) :
      (parseLine l.text [] m).contentLength =
        if l.name = ascii "Content-Length:" then (r.request.body.length : Int)
        else m.contentLength := by
    rcases line_cases h hl with ⟨field, hfield, hmem, -, -⟩ | ⟨hlen, -⟩
    · rw [parseLine_field h hl hfield hmem, (set_kept hfield ..).2.2, if_neg]
      exact fun heq => length_apart field hfield (heq ▸ hmem)
    · rw [parseLine_number h hl hlen, if_pos hlen]
  rw [readHeaders]
  generalize r.lines = lines at hstep hne
  induction lines using List.reverseRecOn with
  | nil => simp at hne
  | append_singleton lines l ih =>
      rw [List.foldl_append, List.foldl_cons, List.foldl_nil, hstep l (by simp)]
      split
      · rfl
      · next hname =>
          apply ih
          · exact fun l' hl' => hstep l' (List.mem_append_left _ hl')
          · simpa [List.filter_append, hname] using hne

end Fold

theorem addVia_all (vias : List Bytes) {values : List Bytes} (n : Int)
    (h : vias.length + values.length ≤ smSipMaxVias) :
    values.foldl (fun x v => setView 0 v x) (vias, n) = (vias ++ values, n) := by
  induction values generalizing vias with
  | nil => simp
  | cons v values ih =>
      rw [List.length_cons] at h
      rw [List.foldl_cons, setView, if_pos (by omega), ih _ (by simp; omega)]
      simp

theorem token_no_blank {text : Bytes} (h : Token text) : (32 : UInt8) ∉ text :=
  fun hmem => (h 32 hmem).1 rfl

theorem splitAt_text {head rest : Bytes} {c : UInt8} (h : c ∉ head) :
    splitAt c (head ++ c :: rest) = some (head, rest) := by
  have hspan : (head ++ c :: rest).span (· ≠ c) = (head, c :: rest) := by
    rw [List.span_eq_takeWhile_dropWhile,
      List.takeWhile_append_of_pos fun d hd => by simpa using fun heq : d = c => h (heq ▸ hd),
      List.dropWhile_append_of_pos fun d hd => by simpa using fun heq : d = c => h (heq ▸ hd)]
    simp
  rw [splitAt, hspan]

theorem cseq_method {r : Rendering} (h : r.WellFormed) (old : Bytes) :
    ((splitAt 32 r.request.cseq).map fun (_, method) => method.take 15).getD old =
      r.request.cseqMethod := by
  have hnumber : (32 : UInt8) ∉ decimal (r.request.cseqNumber : Int) := fun hmem =>
    absurd (decimal_digits 32 hmem) (by decide)
  have hfits := h.cseqMethodFits
  rw [Request.cseq, splitAt_text hnumber, Option.map_some, Option.getD_some]
  exact List.take_of_length_le (by omega)

theorem readHeaders_eq {r : Rendering} (h : r.WellFormed) {m : SipMsg} (hvia : m.via = []) :
    readHeaders r m =
      { r.request.parsed with
        isResponse := m.isResponse
        status := m.status
        method := m.method
        uri := m.uri
        cseqNum := atoi r.request.cseq
        body := m.body } := by
  refine sipMsg_eq (readHeaders_startLine h m).1 ?_ (readHeaders_length h m)
    (readHeaders_startLine h m).2
  apply List.ext_getElem?
  intro i
  rcases Nat.lt_or_ge i 8 with hi | hi
  · obtain ⟨field, hfield⟩ : ∃ field, headerFields[i]? = some field :=
      ⟨headerFields.get ⟨i, hi⟩, List.getElem?_eq_getElem hi⟩
    obtain ⟨values, hvalues⟩ : ∃ values, r.request.fields[i]? = some values :=
      ⟨r.request.fields.get ⟨i, hi⟩, List.getElem?_eq_getElem hi⟩
    have hp : (field, values) ∈ headerFields.zip r.request.fields :=
      List.mem_of_getElem? (List.getElem?_zip_eq_some.mpr ⟨hfield, hvalues⟩)
    rw [readHeaders_view h hfield, h.rendered _ hp]
    match i, hvalues with
    | 0, hvalues =>
        obtain rfl := Option.some.inj hvalues
        have hall := addVia_all [] 0 (by simpa using h.vias)
        simpa [headerView, hvia, Request.parsed] using hall
    | 4, hvalues =>
        obtain rfl := Option.some.inj hvalues
        simp [headerView, setView, Request.parsed, cseq_method h]
    | 1, hvalues | 2, hvalues | 3, hvalues | 5, hvalues | 6, hvalues | 7, hvalues =>
        obtain rfl := Option.some.inj hvalues
        rfl
  · rw [List.getElem?_eq_none (by simpa [headerView] using hi),
      List.getElem?_eq_none (by simpa [headerView] using hi)]

section FirstLine

variable {r : Rendering} (h : r.WellFormed)

theorem lineReturn_length (crlf : Bool) : (lineReturn crlf).length ≤ 1 := by
  cases crlf <;> decide

theorem version_eq : ascii " SIP/2.0" = 32 :: ascii "SIP/2.0" := by decide

theorem start_eq (r : Rendering) :
    r.start = r.request.method ++
      32 :: (r.request.uri ++ 32 :: (ascii "SIP/2.0" ++ lineReturn r.startCrlf)) := by
  rw [Rendering.start, version_eq]
  simp

include h

theorem start_length : r.start.length ≤ 511 := by
  have hmethod := h.methodFits
  have huri := h.uriFits
  have hreturn := lineReturn_length r.startCrlf
  have hversion : (ascii "SIP/2.0").length = 7 := by decide
  rw [start_eq]
  simp only [List.length_append, List.length_cons, hversion]
  omega

theorem mem_start {c : UInt8} (hc : c ∈ r.start) : c ≠ 10 ∧ c ≠ 0 := by
  have hversion : ∀ c ∈ ascii "SIP/2.0", c ≠ 10 ∧ c ≠ 0 := by decide
  have hreturn : ∀ c ∈ lineReturn r.startCrlf, c ≠ 10 ∧ c ≠ 0 := by
    cases r.startCrlf <;> decide
  rw [start_eq] at hc
  simp only [List.mem_append, List.mem_cons] at hc
  rcases hc with hc | rfl | hc | rfl | hc | hc
  · exact (h.method c hc).2.2
  · decide
  · exact (h.uri c hc).2.2
  · decide
  · exact hversion c hc
  · exact hreturn c hc

theorem start_header : HeaderText r.start := by
  refine ⟨fun hc => (mem_start h hc).1 rfl, ?_, ?_⟩
  all_goals
    intro heq
    have hlen := congrArg List.length heq
    have hversion : (ascii "SIP/2.0").length = 7 := by decide
    rw [start_eq] at hlen
    simp only [List.length_append, List.length_cons, hversion, List.length_nil] at hlen
    omega

theorem start_read (stale line : Bytes) :
    (datagram r.bytes stale line).buf.take (min r.start.length 511) = r.start := by
  rw [Nat.min_eq_left (start_length h), datagram, Rendering.bytes, message, joined_cons]
  simp

theorem parseFirstLine_request (hmethod : ¬ ascii "SIP/2.0" <+: r.request.method)
    (stale line : Bytes) (m : SipMsg) :
    parseFirstLine (datagram r.bytes stale line) r.start.length m =
      { m with method := r.request.method, uri := r.request.uri } := by
  have hplain : (32 : UInt8) ∉ ascii "SIP/2.0" := by decide
  have hnul : (0 : UInt8) ∉ ascii "SIP/2.0" := by decide
  have hstatus (rest : Bytes) : strncmp (r.start ++ 0 :: rest) (ascii "SIP/2.0") = false := by
    rw [Bool.eq_false_iff, ne_eq, strncmp, List.isPrefixOf_iff_prefix,
      prefix_append_cons_iff hnul, start_eq, prefix_append_cons_iff hplain]
    exact hmethod
  have hcstr (rest : Bytes) : cstr (r.start ++ 0 :: rest) = r.start := by
    rw [cstr, List.takeWhile_append_of_pos fun c hc => by simpa using (mem_start h hc).2]
    simp
  have hfits := h.methodFits
  have huri := h.uriFits
  simp only [parseFirstLine, start_read h, hstatus, hcstr, Bool.false_eq_true, if_false]
  rw [start_eq, splitAt_text (token_no_blank h.method)]
  dsimp only
  rw [List.takeWhile_append_of_pos fun c hc => by simpa using (h.uri c hc).1,
    List.takeWhile_cons_of_neg (by simp), List.append_nil, List.take_of_length_le (by omega),
    List.take_of_length_le (by omega)]

theorem parseFirstLine_status (hmethod : ascii "SIP/2.0" <+: r.request.method)
    (stale line : Bytes) (m : SipMsg) :
    (parseFirstLine (datagram r.bytes stale line) r.start.length m).isResponse = true := by
  have hstatus (rest : Bytes) : strncmp (r.start ++ 0 :: rest) (ascii "SIP/2.0") = true := by
    rw [strncmp, List.isPrefixOf_iff_prefix, start_eq, List.append_assoc]
    exact hmethod.trans (List.prefix_append _ _)
  simp only [parseFirstLine, start_read h, hstatus, if_true]

end FirstLine

theorem takeBody_trailing {trailing : Bytes} {m : SipMsg} (hlength : m.contentLength = 0)
    (htrailing : trailing ≠ []) : (takeBody trailing m).body ≠ [] := by
  have hpos := List.length_pos_iff.mpr htrailing
  rw [takeBody, if_neg htrailing]
  dsimp only
  rw [hlength, if_neg (by omega)]
  intro hnil
  have hlen := congrArg List.length hnil
  rw [List.length_take, smSipMaxMsg, List.length_nil] at hlen
  omega

theorem lines_header {r : Rendering} (h : r.WellFormed) :
    ∀ t ∈ r.start :: r.lines.map HeaderLine.text, HeaderText t := by
  intro t ht
  rcases List.mem_cons.mp ht with rfl | ht
  · exact start_header h
  · obtain ⟨l, hl, rfl⟩ := List.mem_map.mp ht
    exact text_header h hl

theorem parseSip_rendering {r : Rendering} (h : r.WellFormed)
    (hsep : r.Separated ∨ r.request.body = [] ∧ r.trailing = []) (stale line : Bytes) :
    parseSip (datagram r.bytes stale line) =
      takeBody (r.request.body ++ r.trailing)
        (readHeaders r
          (parseFirstLine (datagram r.bytes stale line) r.start.length sipMsgZero)) := by
  have hlines := lines_header h
  have hblank : (∀ last ∈ (r.start :: r.lines.map HeaderLine.text).getLast?,
        Separates (lineReturn r.blankCrlf) last) ∨
      lineReturn r.blankCrlf = [13] ∧ r.request.body ++ r.trailing = [] := by
    cases hcrlf : r.blankCrlf with
    | false => exact .inl fun _ _ => .inl rfl
    | true =>
        rcases hsep with hsep | ⟨hbody, htrailing⟩
        · refine .inl fun last hlast => .inr ⟨rfl, ?_⟩
          obtain ⟨l, hl⟩ : ∃ l, r.lines.getLast? = some l := by
            have hne : r.lines ≠ [] := by
              intro hnil
              have hlength := h.length
              simp [Rendering.values, hnil] at hlength
            exact ⟨_, List.getLast?_eq_some_getLast hne⟩
          obtain rfl : l.text = last := by
            simpa [List.getLast?_cons, List.getLast?_map, hl] using hlast
          rw [HeaderLine.text, hsep hcrlf l hl, lineReturn, if_pos rfl]
          simp
        · exact .inr ⟨rfl, by simp [hbody, htrailing]⟩
  have hf : ∀ t ∈ r.lines.map HeaderLine.text, ∀ rest m,
      parseLine t rest m = parseLine t [] m := by
    intro t ht rest m
    obtain ⟨l, hl, rfl⟩ := List.mem_map.mp ht
    exact parseLine_rest h hl rest m
  rw [Rendering.bytes, parseSip_message hlines hblank hf, List.foldl_map]
  rfl

theorem text_no_return {r : Rendering} (h : r.WellFormed) {l : HeaderLine} (hl : l ∈ r.lines)
    (hcrlf : l.crlf = false) : (13 : UInt8) ∉ l.text := by
  intro hmem
  simp only [HeaderLine.text, hcrlf, lineReturn, List.mem_append, Bool.false_eq_true,
    if_false, List.not_mem_nil, or_false] at hmem
  rcases hmem with hmem | (hmem | hmem) | hmem
  · apply names_no_return l.name (h.named l hl)
    rw [← h.spelled l hl]
    exact List.mem_map_of_mem (f := lower) hmem
  · exact absurd (h.blanks l hl 13 (List.mem_append_left _ hmem)) (by decide)
  · rcases line_cases h hl with ⟨field, -, -, hplain, -⟩ | ⟨-, hvalue⟩
    · exact hplain.noReturn hmem
    · exact absurd (decimal_digits 13 (hvalue ▸ hmem)) (by decide)
  · exact absurd (h.blanks l hl 13 (List.mem_append_right _ hmem)) (by decide)

theorem bodyOffset_after_return {body : Bytes} {k : Nat}
    (h : bodyOffset (13 :: 10 :: body) = some k) : 2 < k := by
  obtain ⟨a, b, hab, rfl, hmem⟩ := bodyOffset_some h
  match a, hmem with
  | [c], hmem =>
      obtain rfl := List.mem_singleton.mp hmem
      simp at hab
  | _ :: _ :: a, _ =>
      simp only [List.length_cons]
      omega

-- A carriage return and a line feed after a bare line end are not taken for the blank line.
theorem unseparated_loses_body {r : Rendering} (h : r.WellFormed) (hsep : ¬ r.Separated)
    (htrailing : r.trailing = []) (hbody : r.request.body ≠ []) (stale line : Bytes) :
    (parseSip (datagram r.bytes stale line)).body ≠ r.request.body := by
  have hlines := lines_header h
  obtain ⟨hcrlf, l, hlast, hbare⟩ :
      r.blankCrlf = true ∧ ∃ l, r.lines.getLast? = some l ∧ l.crlf = false := by
    simpa [Rendering.Separated] using hsep
  have hmem := List.mem_of_getLast? hlast
  obtain ⟨init, hinit⟩ : ∃ init, r.start :: r.lines.map HeaderLine.text = init ++ [l.text] := by
    obtain ⟨front, hfront⟩ := List.getLast?_eq_some_iff.mp hlast
    exact ⟨r.start :: front.map HeaderLine.text, by simp [hfront]⟩
  have hreturn : l.text.getLast? ≠ some 13 := fun hsome =>
    text_no_return h hmem hbare (List.mem_of_getLast? hsome)
  have hbytes : r.bytes = joined (init ++ [l.text]) ++ 13 :: 10 :: r.request.body := by
    rw [Rendering.bytes, message, hinit, hcrlf, htrailing, List.append_nil]
    rfl
  have hpos := List.length_pos_iff.mpr hbody
  have hle := parseSip_body_length r.bytes stale line
  have harea : r.bytes.length - headerArea r.bytes < r.request.body.length := by
    rw [headerArea, hbytes, bodyOffset_bare (hinit ▸ hlines) hreturn]
    simp only [List.length_append, List.length_cons]
    cases hk : bodyOffset (13 :: 10 :: r.request.body) with
    | none => simpa using hpos
    | some k =>
        have hgt := bodyOffset_after_return hk
        simp only [Option.map_some, Option.getD_some]
        omega
  intro heq
  rw [heq] at hle
  omega

theorem parsed_number {r : Request} (hnumber : r.cseqNumber < 2 ^ 31) :
    atoi r.cseq = r.cseqNumber := by
  have hspace : ∀ c ∈ ([] : Bytes), isSpace c = true := by simp
  have hstop : ∀ c ∈ (32 :: r.cseqMethod).head?, isDigit c = false := by
    rintro c hc
    obtain rfl : 32 = c := by simpa using hc
    rfl
  exact atoi_decimal hspace hnumber hstop

theorem recovers {r : Rendering} (h : r.WellFormed) (hr : Recoverable r) : RoundTrips r := by
  intro stale line
  rw [parseSip_rendering h hr.separated, readHeaders_eq h (parseFirstLine_via ..)]
  refine (takeBody_exact rfl ?_ h.body hr.body).trans ?_
  · exact parseFirstLine_body ..
  · simp only [parseFirstLine_request h hr.method, parsed_number hr.number]
    rfl

theorem takeBody_eq (tail : Bytes) (m : SipMsg) :
    takeBody tail m = { m with body := (takeBody tail m).body } := by
  rw [takeBody]
  split <;> rfl

theorem recoverable_of_round_trip {r : Rendering} (h : r.WellFormed) (hr : RoundTrips r)
    (hsep : r.Separated ∨ r.trailing = []) : Recoverable r := by
  have hparsed := hr [] []
  have hseparated : r.Separated ∨ r.request.body = [] ∧ r.trailing = [] := by
    by_cases hs : r.Separated
    · exact .inl hs
    · have htrailing := hsep.resolve_left hs
      refine .inr ⟨?_, htrailing⟩
      by_contra hbody
      exact unseparated_loses_body h hs htrailing hbody [] [] (congrArg SipMsg.body hparsed)
  rw [parseSip_rendering h hseparated] at hparsed
  refine ⟨hseparated, ?_, ?_, ?_⟩
  · by_contra hnone
    rw [not_or, not_not] at hnone
    rw [hnone.1, List.nil_append] at hparsed
    refine takeBody_trailing ?_ hnone.2 ((congrArg SipMsg.body hparsed).trans hnone.1)
    rw [readHeaders_length h, hnone.1]
    rfl
  · intro hmethod
    have hresponse := parseFirstLine_status h hmethod [] [] sipMsgZero
    have hsame := congrArg (·.1) (readHeaders_startLine h
      (parseFirstLine (datagram r.bytes [] []) r.start.length sipMsgZero)).1
    rw [takeBody_eq] at hparsed
    have hrequest := congrArg SipMsg.isResponse hparsed
    simp_all [startLine, Request.parsed]
  · rw [takeBody_eq, readHeaders_eq h (parseFirstLine_via ..)] at hparsed
    have hnumber : atoi r.request.cseq = r.request.cseqNumber :=
      congrArg SipMsg.cseqNum hparsed
    have hlt := atoi_lt r.request.cseq
    omega

-- Only a blank line that is not seen and has bytes behind the body is left open.
theorem request_round_trip_iff (r : Rendering) (h : r.WellFormed) :
    (Recoverable r → RoundTrips r) ∧
      (r.Separated ∨ r.trailing = [] → (RoundTrips r ↔ Recoverable r)) :=
  ⟨recovers h, fun hsep => ⟨fun hr => recoverable_of_round_trip h hr hsep, recovers h⟩⟩

def pageRequest (body : Bytes) : Request :=
  { method := ascii "MESSAGE"
    uri := ascii "sip:modem@10.0.0.2"
    via := [ascii "SIP/2.0/UDP 10.0.0.7", ascii "SIP/2.0/UDP 10.0.0.9"]
    fromHdr := ascii "<sip:a@b>;tag=1"
    toHdr := ascii "<sip:modem@b>"
    callId := ascii "c1"
    cseqNumber := 7
    cseqMethod := ascii "MESSAGE"
    contact := ascii "<sip:a@10.0.0.7>"
    contentType := ascii "text/plain"
    userAgent := ascii "page"
    body := body }

def pageRendering (body trailing : Bytes) : Rendering :=
  { request := pageRequest body
    startCrlf := true
    lines :=
      [⟨ascii "Content-Length:", ascii "content-LENGTH:", [], decimal (body.length : Int), [], true⟩,
        ⟨ascii "v:", ascii "V:", [32], ascii "SIP/2.0/UDP 10.0.0.7", [], true⟩,
        ⟨ascii "To:", ascii "to:", [9, 32], ascii "<sip:modem@b>", [], true⟩,
        ⟨ascii "f:", ascii "f:", [32], ascii "<sip:a@b>;tag=1", [32], false⟩,
        ⟨ascii "Via:", ascii "vIA:", [32], ascii "SIP/2.0/UDP 10.0.0.9", [9], true⟩,
        ⟨ascii "Call-ID:", ascii "CALL-ID:", [], ascii "c1", [], true⟩,
        ⟨ascii "CSeq:", ascii "CSeq:", [32], ascii "7 MESSAGE", [], false⟩,
        ⟨ascii "m:", ascii "M:", [32], ascii "<sip:a@10.0.0.7>", [], true⟩,
        ⟨ascii "User-Agent:", ascii "User-Agent:", [32], ascii "page", [], true⟩,
        ⟨ascii "Content-Type:", ascii "Content-type:", [32], ascii "text/plain", [], true⟩]
    blankCrlf := true
    trailing := trailing }

instance (text : Bytes) : Decidable (Token text) :=
  inferInstanceAs (Decidable (∀ c ∈ text, _))

instance (value : Bytes) : Decidable (Trimmed value) :=
  decidable_of_iff ((0 : UInt8) ∉ value ∧ (10 : UInt8) ∉ value ∧
      (∀ c ∈ value.head?, isBlank c = false) ∧
      ∀ c ∈ value.getLast?, (c = 13 || isBlank c) = false)
    ⟨fun ⟨h, h', h'', h'''⟩ => ⟨h, h', h'', h'''⟩,
      fun h => ⟨h.noNul, h.noLine, h.head, h.last⟩⟩

instance (value : Bytes) : Decidable (Plain value) :=
  decidable_of_iff (Trimmed value ∧ (13 : UInt8) ∉ value)
    ⟨fun ⟨h, h'⟩ => ⟨h, h'⟩, fun h => ⟨h.toTrimmed, h.noReturn⟩⟩

instance (r : Rendering) : Decidable r.WellFormed :=
  decidable_of_iff
    ((Token r.request.method ∧ r.request.method.length < 16) ∧
      (Token r.request.uri ∧ r.request.uri.length < 256) ∧
      (Token r.request.cseqMethod ∧ r.request.cseqMethod.length < 16) ∧
      (r.request.via.length ≤ smSipMaxVias ∧ r.request.body.length ≤ smSipMaxMsg) ∧
      (∀ l ∈ r.lines, l.name ∈ allNames ∧ l.spelled.map lower = l.name.map lower ∧
        ∀ c ∈ l.left ++ l.right, isBlank c = true) ∧
      (∀ p ∈ headerFields.zip r.request.fields, r.values p.1.names = p.2 ∧
        ∀ v ∈ p.2, Plain v ∧ v.length < p.1.size) ∧
      r.values [ascii "Content-Length:"] = [decimal (r.request.body.length : Int)])
    ⟨fun ⟨⟨h₁, h₂⟩, ⟨h₃, h₄⟩, ⟨h₅, h₆⟩, ⟨h₇, h₈⟩, hlines, hfields, hlength⟩ =>
        ⟨h₁, h₂, h₃, h₄, h₅, h₆, h₇, h₈, fun l hl => (hlines l hl).1,
          fun l hl => (hlines l hl).2.1, fun l hl => (hlines l hl).2.2,
          fun p hp => (hfields p hp).1, fun p hp => (hfields p hp).2, hlength⟩,
      fun h => ⟨⟨h.method, h.methodFits⟩, ⟨h.uri, h.uriFits⟩, ⟨h.cseqMethod, h.cseqMethodFits⟩,
        ⟨h.vias, h.body⟩, fun l hl => ⟨h.named l hl, h.spelled l hl, h.blanks l hl⟩,
        fun p hp => ⟨h.rendered p hp, h.fits p hp⟩, h.length⟩⟩

theorem page_round_trips :
    RoundTrips (pageRendering (ascii "a\r\n\r\nb") (ascii "rest")) :=
  (request_round_trip_iff _ (by decide)).1
    ⟨.inl fun _ l hl => by
      obtain rfl := Option.some.inj hl
      rfl, .inl (by decide), by decide, by decide⟩

theorem empty_body_takes_the_rest :
    ¬ ∀ r : Rendering, r.WellFormed → RoundTrips r := by
  intro h
  have hparsed := h (pageRendering [] (ascii "\r\n")) (by decide) [] []
  exact absurd (congrArg SipMsg.body hparsed) (by decide +kernel)

end Softmodem.Sip

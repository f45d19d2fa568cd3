import Softmodem.Sip.Echo

namespace Softmodem.Sip

open CString

-- A line of a response, with what reading it does to the message.
structure Line where
  text : Bytes
  effect : SipMsg → SipMsg
  header : HeaderText text
  ends : text.getLast? = some 13
  reads : ∀ rest m, parseLine text rest m = effect m

theorem names_no_line : ∀ name ∈ allNames, (10 : UInt8) ∉ name := by decide

theorem headerText_named {name value : Bytes} (hname : name ∈ allNames)
    (hvalue : (10 : UInt8) ∉ value) : HeaderText (name ++ ([32] ++ value ++ [13])) := by
  refine ⟨?_, by simp, fun h => ?_⟩
  · simp [hvalue, names_no_line name hname]
  · have hlen := congrArg List.length h
    simp only [List.length_append, List.length_singleton] at hlen
    omega

def Line.named (field : HeaderField) (hfield : field ∈ headerFields) {name : Bytes}
    (hname : name ∈ field.names) {value : Bytes} (h : Storable field.size value) : Line where
  text := name ++ ([32] ++ value ++ [13])
  effect m := field.set m value
  header := headerText_named (field_names_mem hfield hname) h.1.noLine
  ends := by rw [← List.append_assoc, List.getLast?_concat]
  reads := parseLine_named hfield hname rfl h.1 h.2 (by decide)
    (by decide)

def Line.length {n : Nat} (hn : n < 2 ^ 31) : Line where
  text := ascii "Content-Length:" ++ ([32] ++ decimal (n : Int) ++ [13])
  effect m := { m with contentLength := n }
  header := headerText_named length_name_mem (decimal_no_line _)
  ends := by rw [← List.append_assoc, List.getLast?_concat]
  reads := parseLine_length rfl (by decide) (by decide) hn

def Line.unknown (text : Bytes) (header : HeaderText text) (ends : text.getLast? = some 13)
    (h : ∀ n ∈ allNames, strncasecmp text n = false) : Line where
  text := text
  effect := id
  header := header
  ends := ends
  reads := parseLine_unknown h

theorem parseSip_lines {start : Bytes} (hstart : HeaderText start)
    (hends : start.getLast? = some 13) (lines : List Line) (body stale line : Bytes) :
    parseSip (datagram (message start (lines.map Line.text) [13] body) stale line) =
      takeBody body (lines.foldl (fun m l => l.effect m)
        (parseFirstLine (datagram (message start (lines.map Line.text) [13] body) stale line)
          start.length sipMsgZero)) := by
  have hlines : ∀ l ∈ start :: lines.map Line.text, HeaderText l := by
    intro l hl
    rcases List.mem_cons.mp hl with rfl | hl
    · exact hstart
    · obtain ⟨l, -, rfl⟩ := List.mem_map.mp hl
      exact l.header
  have hlast : ∀ l ∈ start :: lines.map Line.text, l.getLast? = some 13 := by
    intro l hl
    rcases List.mem_cons.mp hl with rfl | hl
    · exact hends
    · obtain ⟨l, -, rfl⟩ := List.mem_map.mp hl
      exact l.ends
  have hreads : ∀ l ∈ lines.map Line.text, ∀ rest m,
      parseLine l rest m = parseLine l [] m := by
    intro l hl rest m
    obtain ⟨l, -, rfl⟩ := List.mem_map.mp hl
    rw [l.reads, l.reads]
  rw [parseSip_message hlines
    (.inl fun l hl => .inr ⟨rfl, hlast l (List.mem_of_mem_getLast? hl)⟩)
    (f := fun l m => parseLine l [] m) hreads, List.foldl_map]
  simp only [Line.reads]

def statusLine (status : Nat) (reason : Bytes) : Bytes :=
  ascii "SIP/2.0 " ++ decimal (status : Int) ++ (ascii " " ++ reason ++ [13])

theorem parseFirstLine_statusLine {status : Nat} (hstatus : status < 2 ^ 31) {reason : Bytes}
    (hfits : (statusLine status reason).length < 512) (rest stale line : Bytes) :
    parseFirstLine (datagram (statusLine status reason ++ rest) stale line)
        (statusLine status reason).length sipMsgZero =
      { sipMsgZero with isResponse := true, status := status } := by
  have htake : (datagram (statusLine status reason ++ rest) stale line).buf.take
      (statusLine status reason).length = statusLine status reason := by
    rw [datagram, List.append_assoc, List.take_left]
  have hstarts (tail : Bytes) :
      strncmp (statusLine status reason ++ tail) (ascii "SIP/2.0") = true := by
    have hversion : ascii "SIP/2.0 " = ascii "SIP/2.0" ++ [32] := by decide
    rw [strncmp, List.isPrefixOf_iff_prefix, statusLine, hversion]
    simp only [List.append_assoc]
    exact List.prefix_append _ _
  have hnumber (tail : Bytes) : atoi ((statusLine status reason ++ tail).drop 8) = status := by
    have hdrop : (statusLine status reason ++ tail).drop 8 =
        [] ++ decimal (status : Int) ++ (ascii " " ++ reason ++ [13] ++ tail) := by
      have hversion : (ascii "SIP/2.0 ").length = 8 := by decide
      rw [statusLine, List.append_assoc, List.append_assoc, ← hversion, List.drop_left]
      simp
    rw [hdrop]
    exact atoi_decimal (by simp) hstatus (by simp [ascii, isDigit])
  have hmin : min (statusLine status reason).length 511 = (statusLine status reason).length := by
    omega
  simp only [parseFirstLine, hmin, htake, hstarts, hnumber, if_true]

theorem joined_append (lines more : List Bytes) :
    joined (lines ++ more) = joined lines ++ joined more :=
  List.flatMap_append

theorem headerLine_joined {name : String} (spelled : Bytes)
    (hname : ascii name = spelled ++ [32]) (value : Bytes) :
    headerLine name value = joined [spelled ++ ([32] ++ value ++ [13])] := by
  simp [headerLine, joined, crlf, hname]

-- What the caller of a server sees in its response.
def view (m : SipMsg) : Bool × Int × List Bytes × Bytes × Bytes × Bytes × Bytes × Bytes × Bytes :=
  (m.isResponse, m.status, m.via, m.fromHdr, m.toHdr, m.toTag, m.callId, m.cseq, m.body)

def Line.Quiet (l : Line) : Prop := ∀ m, view (l.effect m) = view m

theorem foldl_quiet {lines : List Line} (h : ∀ l ∈ lines, l.Quiet) (m : SipMsg) :
    view (lines.foldl (fun m l => l.effect m) m) = view m := by
  induction lines generalizing m with
  | nil => rfl
  | cons l lines ih =>
      rw [List.foldl_cons, ih fun k hk => h k (List.mem_cons_of_mem _ hk)]
      exact h l List.mem_cons_self m

theorem foldl_addVia (vias : List Bytes) {m : SipMsg}
    (h : m.via.length + vias.length ≤ smSipMaxVias) :
    vias.foldl addVia m = { m with via := m.via ++ vias } := by
  induction vias generalizing m with
  | nil => simp
  | cons v vias ih =>
      rw [List.length_cons] at h
      have hadd : addVia m v = { m with via := m.via ++ [v] } := if_pos (by omega)
      rw [List.foldl_cons, hadd, ih]
      · simp
      · simp only [List.length_append, List.length_singleton]
        omega

def fromField : HeaderField := ⟨[ascii "From:", ascii "f:"], 320, setFrom⟩

def toField : HeaderField := ⟨[ascii "To:", ascii "t:"], 320, setTo⟩

def callIdField : HeaderField :=
  ⟨[ascii "Call-ID:", ascii "i:"], 256, fun m value => { m with callId := value }⟩

def cseqField : HeaderField := ⟨[ascii "CSeq:"], 64, setCseq⟩

def contentTypeField : HeaderField :=
  ⟨[ascii "Content-Type:"], 64, fun m value => { m with contentType := value }⟩

theorem serverLine_unknown :
    ∀ n ∈ allNames, strncasecmp (ascii "Server: SoftmodemSIP/1.0\r") n = false := by
  decide

def serverLine : Line :=
  .unknown (ascii "Server: SoftmodemSIP/1.0\r") ⟨by decide, by decide, by decide⟩
    (by decide) serverLine_unknown

theorem sdpType_storable : Storable 64 (ascii "application/sdp") :=
  ⟨⟨by decide, by decide, by decide, by decide⟩, by decide⟩

def typeLine : Line :=
  .named contentTypeField (by simp [headerFields, contentTypeField])
    List.mem_cons_self sdpType_storable

-- A response whose values all fit the fields they are read into.
structure Response.Readable (r : Response) : Prop where
  status : r.status < 2 ^ 31
  start : (statusLine r.status r.reason).length < 512
  reason : (10 : UInt8) ∉ r.reason
  via : ∀ v ∈ r.via, Storable 320 v
  vias : r.via.length ≤ smSipMaxVias
  fromHdr : Storable 320 r.fromHdr
  toHdr : Storable 320 r.toHdr
  callId : Storable 256 r.callId
  cseq : Storable 64 r.cseq
  body : r.body.length ≤ smSipMaxMsg
  extra : ∃ lines : List Line, r.extra = joined (lines.map Line.text) ∧ ∀ l ∈ lines, l.Quiet

theorem via_lines {vias : List Bytes} (h : ∀ v ∈ vias, Storable 320 v) :
    ∃ lines : List Line, vias.flatMap (headerLine "Via: ") = joined (lines.map Line.text) ∧
      ∀ m, lines.foldl (fun m l => l.effect m) m = vias.foldl addVia m := by
  induction vias with
  | nil => exact ⟨[], rfl, fun _ => rfl⟩
  | cons v vias ih =>
      obtain ⟨lines, htext, heffect⟩ := ih fun u hu => h u (List.mem_cons_of_mem _ hu)
      refine ⟨.named viaField viaField_mem List.mem_cons_self (h v List.mem_cons_self) :: lines, ?_,
        fun m => heffect _⟩
      rw [List.flatMap_cons, htext, List.map_cons, ← List.singleton_append, joined_append]
      exact congrArg (· ++ _) (headerLine_joined _ (by decide) v)

theorem takeBody_view {body : Bytes} (hsmall : body.length < 2 ^ 31)
    (hfits : body.length ≤ smSipMaxMsg) {m : SipMsg} {response : Bool} {status : Int}
    {vias : List Bytes} {fromHdr toHdr toTag callId cseq : Bytes}
    (hm : view m = (response, status, vias, fromHdr, toHdr, toTag, callId, cseq, [])) :
    view (takeBody body ((Line.length hsmall).effect m)) =
      (response, status, vias, fromHdr, toHdr, toTag, callId, cseq, body) := by
  simp only [view, Prod.mk.injEq] at hm
  obtain ⟨rfl, rfl, rfl, rfl, rfl, rfl, rfl, rfl, hbody⟩ := hm
  have htake : takeBody (body ++ []) ((Line.length hsmall).effect m) =
      { (Line.length hsmall).effect m with body := body } :=
    takeBody_exact rfl hbody hfits (.inr rfl)
  rw [List.append_nil] at htake
  rw [htake]
  rfl

section Render

variable {r : Response} (h : r.Readable)

def Response.Readable.dialog : List Line :=
  [.named fromField (by simp [headerFields, fromField]) List.mem_cons_self h.fromHdr,
    .named toField (by simp [headerFields, toField]) List.mem_cons_self h.toHdr,
    .named callIdField (by simp [headerFields, callIdField]) List.mem_cons_self h.callId,
    .named cseqField (by simp [headerFields, cseqField]) List.mem_cons_self h.cseq]

theorem Response.Readable.dialog_text :
    headerLine "From: " r.fromHdr ++ (headerLine "To: " r.toHdr ++
      (headerLine "Call-ID: " r.callId ++ headerLine "CSeq: " r.cseq)) =
      joined (h.dialog.map Line.text) := by
  rw [headerLine_joined (ascii "From:") (by decide),
    headerLine_joined (ascii "To:") (by decide),
    headerLine_joined (ascii "Call-ID:") (by decide),
    headerLine_joined (ascii "CSeq:") (by decide), ← joined_append,
    ← joined_append, ← joined_append]
  rfl

def Response.describes (r : Response) : List Line :=
  serverLine :: if r.body ≠ [] then [typeLine] else []

theorem Response.describes_text (r : Response) :
    headerLine "Server: " (ascii "SoftmodemSIP/1.0") ++
        (if r.body ≠ [] then headerLine "Content-Type: " (ascii "application/sdp") else []) =
      joined (r.describes.map Line.text) := by
  rw [describes]
  split
  · decide
  · decide

include h

theorem Response.Readable.body_small : r.body.length < 2 ^ 31 := by
  have hbody := h.body
  rw [smSipMaxMsg] at hbody
  omega

theorem Response.Readable.start_text : HeaderText (statusLine r.status r.reason) := by
  refine ⟨?_, by simp [statusLine], fun hreturn => ?_⟩
  · have hdigits := decimal_no_line r.status
    have hversion : (10 : UInt8) ∉ ascii "SIP/2.0 " := by decide
    have hblank : (10 : UInt8) ∉ ascii " " := by decide
    simp [statusLine, hdigits, hversion, hblank, h.reason]
  · have hlen := congrArg List.length hreturn
    have hversion : (ascii "SIP/2.0 ").length = 8 := by decide
    simp only [statusLine, List.length_append, List.length_singleton] at hlen
    omega

theorem parseSip_render (stale line : Bytes) :
    view (parseSip (datagram r.render stale line)) =
      (true, (r.status : Int), r.via, r.fromHdr, r.toHdr, extractTag r.toHdr, r.callId, r.cseq,
        r.body) := by
  obtain ⟨vias, hvias, haddVia⟩ := via_lines h.via
  obtain ⟨extra, hextra, hquiet⟩ := h.extra
  have hrender : r.render = message (statusLine r.status r.reason)
      ((vias ++ (h.dialog ++ ((extra ++ r.describes) ++ [Line.length h.body_small]))).map Line.text)
      [13] r.body := by
    have hlength : headerLine "Content-Length: " (decimal (r.body.length : Int)) =
        joined ([Line.length h.body_small].map Line.text) :=
      headerLine_joined _ (by decide) _
    simp only [List.map_append, message, joined_cons, joined_append, ← hlength, ← hvias, ← hextra,
      ← h.dialog_text, ← r.describes_text]
    simp [Response.render, statusLine, crlf]
  have hends : (statusLine r.status r.reason).getLast? = some 13 := by
    rw [statusLine, ← List.append_assoc, List.getLast?_concat]
  have hdescribes : ∀ l ∈ extra ++ r.describes, l.Quiet := by
    intro l hl
    rcases List.mem_append.mp hl with hl | hl
    · exact hquiet l hl
    · rw [Response.describes] at hl
      split at hl
      · rcases List.mem_cons.mp hl with rfl | hl
        · exact fun _ => rfl
        · obtain rfl := List.mem_singleton.mp hl
          exact fun _ => rfl
      · obtain rfl := List.mem_singleton.mp hl
        exact fun _ => rfl
  have hmessage : message (statusLine r.status r.reason)
      ((vias ++ (h.dialog ++ ((extra ++ r.describes) ++ [Line.length h.body_small]))).map Line.text)
      [13] r.body = statusLine r.status r.reason ++ (r.render.drop (statusLine r.status r.reason).length) := by
    rw [hrender, message, joined_cons, List.append_assoc, List.drop_left]
  rw [hrender, parseSip_lines h.start_text hends, hmessage,
    parseFirstLine_statusLine h.status h.start, List.foldl_append, List.foldl_append,
    List.foldl_append, haddVia, foldl_addVia r.via (by simpa [sipMsgZero] using h.vias)]
  have hdialog : view (h.dialog.foldl (fun m l => l.effect m)
      { sipMsgZero with isResponse := true, status := r.status, via := [] ++ r.via }) =
      (true, (r.status : Int), r.via, r.fromHdr, r.toHdr, extractTag r.toHdr, r.callId, r.cseq,
        []) := rfl
  rw [← foldl_quiet hdescribes] at hdialog
  exact takeBody_view h.body_small h.body hdialog

end Render

end Softmodem.Sip

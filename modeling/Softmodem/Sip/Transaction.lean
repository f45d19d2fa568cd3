import Softmodem.Sip.Responses
import Softmodem.Sip.Server

namespace Softmodem.Sip

open CString

theorem strstr_plain {pat s : Bytes} {c : UInt8} (hpat : pat ≠ []) (hc : c ∉ pat)
    (h : strstr pat s = none) (t : Bytes) : strstr pat (s ++ c :: t) = strstr pat t := by
  have hstop (u : Bytes) : pat.isPrefixOf (u ++ c :: t) = pat.isPrefixOf u := by
    rw [Bool.eq_iff_iff, List.isPrefixOf_iff_prefix, List.isPrefixOf_iff_prefix,
      prefix_append_cons_iff hc]
  induction s with
  | nil =>
      have hnone : pat.isPrefixOf (c :: t) = false := by
        rw [← List.nil_append (c :: t), hstop]
        cases pat <;> simp_all
      rw [List.nil_append, strstr, hnone]
      rfl
  | cons d s ih =>
      rw [strstr] at h
      rw [List.cons_append, strstr, ← List.cons_append, hstop]
      split at h
      · simp at h
      · next hnot =>
          rw [if_neg hnot]
          exact ih h

theorem extractTag_new {toHdr tag : Bytes} (hnone : strstr (ascii "tag=") toHdr = none)
    (htag : ∀ c ∈ tag, tagEnds c = false) (hlen : tag.length ≤ 63) :
    extractTag (toHdr ++ ascii ";tag=" ++ tag) = tag := by
  have hsplit : toHdr ++ ascii ";tag=" ++ tag = toHdr ++ 59 :: (ascii "tag=" ++ tag) := by
    have hsemi : ascii ";tag=" = 59 :: ascii "tag=" := by decide
    rw [hsemi, List.append_assoc, List.cons_append]
  have hfound : strstr (ascii "tag=") (ascii "tag=" ++ tag) = some (ascii "tag=" ++ tag) := by
    have hcons : ascii "tag=" = 116 :: ascii "ag=" := by decide
    rw [hcons, List.cons_append, strstr, if_pos]
    rw [List.isPrefixOf_iff_prefix]
    exact List.prefix_append (116 :: ascii "ag=") tag
  have hdrop : (ascii "tag=" ++ tag).drop 4 = tag := by
    have hfour : (ascii "tag=").length = 4 := by decide
    rw [← hfour, List.drop_left]
  have htake : (tag.takeWhile fun c => !tagEnds c) = tag :=
    List.takeWhile_eq_self_iff.mpr fun c hc => by simp [htag c hc]
  rw [extractTag, hsplit, strstr_plain (by decide) (by decide) hnone, hfound]
  simp only [hdrop, htake]
  exact List.take_of_length_le hlen

theorem digit_plain : ∀ d < 16, tagEnds (digit d) = false ∧ digit d ≠ 0 ∧ isBlank (digit d) = false
    := by decide

theorem mem_makeTag {rand time : UInt32} {c : UInt8} (h : c ∈ makeTag rand time) :
    ∃ d < 16, c = digit d := by
  have hhex (w : UInt32) (hc : c ∈ hex8 w) : ∃ d < 16, c = digit d := by
    obtain ⟨i, -, rfl⟩ := List.mem_map.mp hc
    exact ⟨_, Nat.mod_lt _ (by decide), rfl⟩
  rcases List.mem_append.mp h with h | h
  · exact hhex rand h
  · exact hhex time h

theorem makeTag_length (rand time : UInt32) : (makeTag rand time).length = 16 := by
  simp [makeTag, hex8]

theorem Trimmed.with_tag {toHdr : Bytes} (h : Trimmed toHdr) (rand time : UInt32) :
    Trimmed (toHdr ++ ascii ";tag=" ++ makeTag rand time) := by
  have hplain (c : UInt8) (hc : c ∈ makeTag rand time) :
      tagEnds c = false ∧ c ≠ 0 ∧ isBlank c = false := by
    obtain ⟨d, hd, rfl⟩ := mem_makeTag hc
    exact digit_plain d hd
  have hnul : (0 : UInt8) ∉ ascii ";tag=" := by decide
  have hline : (10 : UInt8) ∉ ascii ";tag=" := by decide
  refine ⟨?_, ?_, ?_, ?_⟩
  · simp only [List.mem_append, not_or]
    exact ⟨⟨h.noNul, hnul⟩, fun hc => (hplain 0 hc).2.1 rfl⟩
  · simp only [List.mem_append, not_or]
    exact ⟨⟨h.noLine, hline⟩, fun hc => absurd (hplain 10 hc).1 (by decide)⟩
  · intro c hc
    cases toHdr with
    | nil =>
        obtain rfl : 59 = c := by simpa [ascii] using hc
        rfl
    | cons d toHdr => exact h.head c hc
  · intro c hc
    have hne : makeTag rand time ≠ [] := by
      rw [← List.length_pos_iff, makeTag_length]
      decide
    rw [List.getLast?_append_of_ne_nil _ hne] at hc
    obtain ⟨hends, -, hblank⟩ := hplain c (List.mem_of_mem_getLast? hc)
    simp only [tagEnds, Bool.or_eq_false_iff] at hends
    rw [hends.1.2, hblank]
    rfl

-- The statuses, reasons, header blocks and bodies that the handlers answer with.
def plainReplies : List (Nat × String) :=
  [(100, "Trying"), (200, "OK"), (405, "Method Not Allowed"), (486, "Busy Here"),
    (487, "Request Terminated"), (488, "Not Acceptable Here"), (500, "Server Internal Error"),
    (503, "Service Unavailable")]

inductive HandlerReply (m : SipMsg) : Nat → String → Bytes → Bytes → Prop
  | plain {status : Nat} {reason : String} :
      (status, reason) ∈ plainReplies → HandlerReply m status reason [] []
  | register : HandlerReply m 200 "OK"
      (headerLine "Contact: " (if m.contact ≠ [] then m.contact else ascii "<sip:modem@unknown>"))
      []
  | options : HandlerReply m 200 "OK"
      (headerLine "Allow: " (ascii "INVITE, ACK, CANCEL, BYE, OPTIONS, REGISTER")) []
  | answered {cfg : SmSipConfig} {e : Env} :
      (10 : UInt8) ∉ cfg.advertiseIp → cfg.advertiseIp.length < 64 → e.rtpPort < 2 ^ 16 →
        HandlerReply m 200 "OK" (contactHeader cfg) (sdpAnswer cfg e)

theorem decimal_length {n k : Nat} (hk : 0 < k) (h : n < 10 ^ k) :
    (decimal (n : Int)).length ≤ k := by
  rw [decimal_nat, List.length_map]
  exact (Nat.length_toDigits_le_iff (by decide) hk).mpr h

theorem sdpAnswer_length {cfg : SmSipConfig} (hip : cfg.advertiseIp.length < 64) {e : Env}
    (hport : e.rtpPort < 2 ^ 16) : (sdpAnswer cfg e).length < 512 := by
  have htime (w : UInt32) : (decimal (w.toNat : Int)).length ≤ 10 :=
    decimal_length (by decide) (w.toNat_lt.trans (by decide))
  have hcreated := htime (e.time 1)
  have hversion := htime (e.time 2)
  have hdigits : (decimal (e.rtpPort : Int)).length ≤ 5 :=
    decimal_length (by decide) (hport.trans (by decide))
  delta sdpAnswer
  simp only [headerLine, crlf, ascii, List.length_append, List.length_map, String.reduceToList,
    List.length_cons, List.length_nil]
  omega

theorem contactField_mem :
    (⟨[ascii "Contact:", ascii "m:"], 320, fun m value => { m with contact := value }⟩ :
      HeaderField) ∈ headerFields := by
  simp [headerFields]

-- Whatever a Contact line holds, it is kept to its own field.
def contactLine (value : Bytes) (h : (10 : UInt8) ∉ value) : Line where
  text := ascii "Contact:" ++ ([32] ++ value ++ [13])
  effect m := { m with contact := Value ([32] ++ value ++ [13]) 320 }
  header := headerText_named (by decide) h
  ends := by rw [← List.append_assoc, List.getLast?_concat]
  reads rest m := by
    have hline : ascii "Contact:" ++ ([32] ++ value ++ [13]) ++ 10 :: rest =
        ascii "Contact:" ++ ([32] ++ value ++ [13] ++ 10 :: rest) := by simp
    have hname : ascii "Contact:" ∈ allNames := field_names_mem contactField_mem List.mem_cons_self
    rw [parseLine_spelled hname rfl, hline,
      parseField_named contactField_mem List.mem_cons_self (spelled_matches rfl _),
      copyLineValue_inside (by simp), List.drop_left, List.length_append,
      Nat.add_sub_cancel_left, List.take_left]

theorem allowLine_unknown : ∀ n ∈ allNames,
    strncasecmp (ascii "Allow:" ++
      ([32] ++ ascii "INVITE, ACK, CANCEL, BYE, OPTIONS, REGISTER" ++ [13])) n = false := by
  decide

def allowLine : Line :=
  .unknown _ ⟨by decide, by decide, by decide⟩ (by decide)
    allowLine_unknown

def modemContact (cfg : SmSipConfig) : Bytes :=
  ascii "<sip:modem@" ++ cfg.advertiseIp ++ ascii ":" ++ decimal cfg.bindPort ++ ascii ">"

theorem contactHeader_eq (cfg : SmSipConfig) :
    contactHeader cfg = headerLine "Contact: " (modemContact cfg) := by
  have hstart : ascii "Contact: <sip:modem@" = ascii "Contact: " ++ ascii "<sip:modem@" := by
    decide
  simp only [contactHeader, headerLine, modemContact, hstart, List.append_assoc]

theorem modemContact_no_line {cfg : SmSipConfig} (h : (10 : UInt8) ∉ cfg.advertiseIp) :
    (10 : UInt8) ∉ modemContact cfg := by
  have hport := decimal_no_line cfg.bindPort
  have hopen : (10 : UInt8) ∉ ascii "<sip:modem@" := by decide
  have hcolon : (10 : UInt8) ∉ ascii ":" := by decide
  have hclose : (10 : UInt8) ∉ ascii ">" := by decide
  simp [modemContact, h, hport, hopen, hcolon, hclose]

theorem contact_lines {value : Bytes} (h : (10 : UInt8) ∉ value) :
    ∃ lines : List Line, headerLine "Contact: " value = joined (lines.map Line.text) ∧
      ∀ l ∈ lines, l.Quiet := by
  refine ⟨[contactLine value h], headerLine_joined _ (by decide) value, fun l hl => ?_⟩
  obtain rfl := List.mem_singleton.mp hl
  exact fun _ => rfl

section Replies

variable {m : SipMsg} {status : Nat} {reason : String} {extra body : Bytes}

theorem HandlerReply.extra_lines (h : HandlerReply m status reason extra body)
    (hcontact : (10 : UInt8) ∉ m.contact) :
    ∃ lines : List Line, extra = joined (lines.map Line.text) ∧ ∀ l ∈ lines, l.Quiet := by
  cases h with
  | plain => exact ⟨[], rfl, by simp⟩
  | register =>
      apply contact_lines
      split
      · exact hcontact
      · decide
  | options =>
      refine ⟨[allowLine], headerLine_joined _ (by decide) _, fun l hl => ?_⟩
      obtain rfl := List.mem_singleton.mp hl
      exact fun _ => rfl
  | answered hip =>
      rw [contactHeader_eq]
      exact contact_lines (modemContact_no_line hip)

theorem plainReplies_start : ∀ p ∈ plainReplies,
    p.1 < 2 ^ 31 ∧ (statusLine p.1 (ascii p.2)).length < 512 ∧ (10 : UInt8) ∉ ascii p.2 := by
  decide

theorem HandlerReply.start (h : HandlerReply m status reason extra body) :
    (status, reason) ∈ plainReplies := by
  cases h with
  | plain h => exact h
  | register => simp [plainReplies]
  | options => simp [plainReplies]
  | answered => simp [plainReplies]

theorem HandlerReply.body_fits (h : HandlerReply m status reason extra body) :
    body.length ≤ smSipMaxMsg := by
  cases h with
  | plain => exact Nat.zero_le _
  | register => exact Nat.zero_le _
  | options => exact Nat.zero_le _
  | answered _ hip hport => exact (sdpAnswer_length hip hport).le.trans (by decide)

def Taggable (toTag toHdr : Bytes) : Prop :=
  toTag ≠ [] ∨ strstr (ascii "tag=") toHdr = none ∧ toHdr.length ≤ 298

theorem to_storable (hm : Stored Storable m) (htag : Taggable m.toTag m.toHdr) (rand time : UInt32) :
    let r := buildResponse m status reason extra body (makeTag rand time)
    Storable 320 r.toHdr ∧
      extractTag r.toHdr = if m.toTag ≠ [] then m.toTag else makeTag rand time := by
  dsimp only [buildResponse]
  split
  · exact ⟨hm.toHdr, hm.toTag.symm⟩
  · next hnone =>
      obtain ⟨hplain, hlen⟩ := htag.resolve_left hnone
      have hends (c : UInt8) (hc : c ∈ makeTag rand time) : tagEnds c = false := by
        obtain ⟨d, hd, rfl⟩ := mem_makeTag hc
        exact (digit_plain d hd).1
      have hfive : (ascii ";tag=").length = 5 := by decide
      refine ⟨⟨hm.toHdr.1.with_tag rand time, ?_⟩, extractTag_new hplain hends ?_⟩
      · rw [List.length_append, List.length_append, makeTag_length, hfive]
        omega
      · rw [makeTag_length]
        decide

theorem buildResponse_readable (hm : Stored Storable m) (htag : Taggable m.toTag m.toHdr)
    (h : HandlerReply m status reason extra body) (rand time : UInt32) :
    (buildResponse m status reason extra body (makeTag rand time)).Readable where
  status := (plainReplies_start _ h.start).1
  start := (plainReplies_start _ h.start).2.1
  reason := (plainReplies_start _ h.start).2.2
  via := hm.via
  vias := hm.vias
  fromHdr := hm.fromHdr
  toHdr := (to_storable hm htag rand time).1
  callId := hm.callId
  cseq := hm.cseq
  body := h.body_fits
  extra := h.extra_lines hm.contact.1.noLine

end Replies

-- What of its request a response must bring back.
structure CarriesBack (m : SipMsg) (status : Nat) (body tag : Bytes) (m' : SipMsg) : Prop where
  isResponse : m'.isResponse = true
  status : m'.status = status
  via : m'.via = m.via
  fromHdr : m'.fromHdr = m.fromHdr
  toHdr : m'.toHdr = if m.toTag ≠ [] then m.toHdr else m.toHdr ++ ascii ";tag=" ++ tag
  toTag : m'.toTag = if m.toTag ≠ [] then m.toTag else tag
  tagged : m'.toTag ≠ []
  callId : m'.callId = m.callId
  cseq : m'.cseq = m.cseq
  body : m'.body = body

theorem response_carries_back {m : SipMsg} (hm : Stored Storable m)
    (htag : Taggable m.toTag m.toHdr) {status : Nat} {reason : String} {extra body : Bytes}
    (h : HandlerReply m status reason extra body) (rand time : UInt32) (stale line : Bytes) :
    CarriesBack m status body (makeTag rand time)
      (parseSip (datagram
        (buildResponse m status reason extra body (makeTag rand time)).render stale line)) := by
  have hview := parseSip_render (buildResponse_readable hm htag h rand time) stale line
  rw [(to_storable hm htag rand time).2] at hview
  simp only [view, Prod.mk.injEq] at hview
  obtain ⟨hresponse, hstatus, hvia, hfrom, hto, htag', hcall, hcseq, hbody⟩ := hview
  refine ⟨hresponse, hstatus, hvia, hfrom, hto, htag', ?_, hcall, hcseq, hbody⟩
  rw [htag']
  split
  · assumption
  · rw [← List.length_pos_iff, makeTag_length]
    decide

theorem CarriesBack.no_line {m : SipMsg} {status : Nat} {body tag bytes line : Bytes}
    (h : CarriesBack m status body tag (parseSip (datagram bytes [] line))) :
    (∀ v ∈ m.via, (10 : UInt8) ∉ v) ∧ (10 : UInt8) ∉ m.fromHdr ∧ (10 : UInt8) ∉ m.toHdr ∧
      (10 : UInt8) ∉ m.callId ∧ (10 : UInt8) ∉ m.cseq := by
  have hstored := stored_no_line bytes line
  refine ⟨h.via ▸ hstored.via, h.fromHdr ▸ hstored.fromHdr, fun hline => ?_,
    h.callId ▸ hstored.callId, h.cseq ▸ hstored.cseq⟩
  apply hstored.toHdr
  rw [h.toHdr]
  split
  · exact hline
  · exact List.mem_append_left _ (List.mem_append_left _ hline)

theorem bodyOffset_early (front rest : Bytes) :
    ∃ k ≤ front.length + 2, bodyOffset (front ++ 10 :: 10 :: rest) = some k := by
  induction front with
  | nil => exact ⟨2, le_rfl, rfl⟩
  | cons c front ih =>
      obtain ⟨k, hk, heq⟩ := ih
      rw [List.cons_append, bodyOffset.eq_def, List.length_cons]
      split
      · next tail htail =>
          refine ⟨4, ?_, rfl⟩
          cases front with
          | nil => simp at htail
          | cons d front =>
              rw [List.length_cons]
              omega
      · exact ⟨2, by omega, rfl⟩
      · next htail =>
          obtain ⟨-, rfl⟩ := List.cons.inj htail
          exact ⟨k + 1, by omega, by rw [heq]; rfl⟩
      · next htail => simp at htail

theorem parseBody_ne_nil {d : Datagram} {body : Nat} (hlen : body < d.len)
    (hbuf : d.len ≤ d.buf.length) (m : SipMsg) : (parseBody d body m).body ≠ [] := by
  rw [parseBody, if_pos hlen]
  dsimp only
  rw [← List.length_pos_iff, List.length_take, List.length_drop, smSipMaxMsg]
  split <;> omega

theorem parseSip_body_ne_nil {bytes : Bytes} (h : headerArea bytes < bytes.length)
    (stale line : Bytes) : (parseSip (datagram bytes stale line)).body ≠ [] := by
  simp only [parseSip, datagram_bytes]
  exact parseBody_ne_nil h (by simp [datagram]) _

theorem early_body {front rest : Bytes} (h : rest ≠ []) (stale line : Bytes) :
    (parseSip (datagram (front ++ 10 :: 10 :: rest) stale line)).body ≠ [] := by
  obtain ⟨k, hk, heq⟩ := bodyOffset_early front rest
  apply parseSip_body_ne_nil
  have hpos := List.length_pos_iff.mpr h
  rw [headerArea, heq, Option.getD_some, List.length_append, List.length_cons, List.length_cons]
  omega

structure Answerable (bytes : Bytes) : Prop where
  noNul : (0 : UInt8) ∉ bytes
  vias : viaLines bytes ≤ smSipMaxVias
  fits : Fits bytes
  tag : Taggable (parseSip (datagram bytes [] [])).toTag (parseSip (datagram bytes [] [])).toHdr

def ResponsesCarryBack (bytes : Bytes) : Prop :=
  ∀ stale line, let m := parseSip (datagram bytes stale line)
    m.via = viaValues bytes ∧
      ∀ status reason extra body, HandlerReply m status reason extra body →
        ∀ rand time stale' line', CarriesBack m status body (makeTag rand time)
          (parseSip (datagram
            (buildResponse m status reason extra body (makeTag rand time)).render stale' line'))

theorem Response.render_extra (r : Response) :
    ∃ front rest, r.render = front ++ r.extra ++ rest := by
  refine ⟨ascii "SIP/2.0 " ++ decimal r.status ++ ascii " " ++ r.reason ++ crlf ++
      r.via.flatMap (headerLine "Via: ") ++ headerLine "From: " r.fromHdr ++
      headerLine "To: " r.toHdr ++ headerLine "Call-ID: " r.callId ++ headerLine "CSeq: " r.cseq,
    headerLine "Server: " (ascii "SoftmodemSIP/1.0") ++
      (if r.body ≠ [] then headerLine "Content-Type: " (ascii "application/sdp") else []) ++
      headerLine "Content-Length: " (decimal r.body.length) ++ crlf ++ r.body, ?_⟩
  simp only [render, List.append_assoc]

theorem contact_breaks {m : SipMsg} {value : Bytes} (h : m.contact = 10 :: 10 :: value)
    (hcarries : ∀ status reason extra body, HandlerReply m status reason extra body →
      CarriesBack m status body (makeTag 0 0) (parseSip (datagram
        (buildResponse m status reason extra body (makeTag 0 0)).render [] []))) : False := by
  have hbody := (hcarries _ _ _ _ .register).body
  rw [h, if_pos (by simp)] at hbody
  obtain ⟨front, rest, heq⟩ := (buildResponse m 200 "OK"
    (headerLine "Contact: " (10 :: 10 :: value)) [] (makeTag 0 0)).render_extra
  have hline : front ++ headerLine "Contact: " (10 :: 10 :: value) ++ rest =
      front ++ ascii "Contact: " ++ 10 :: 10 :: (value ++ crlf ++ rest) := by
    simp [headerLine]
  rw [heq] at hbody
  simp only [buildResponse] at hbody
  rw [hline] at hbody
  exact early_body (by simp [crlf]) _ _ hbody

theorem viaNames_loud : ∀ name ∈ viaNames, name ∉ quietNames := by decide

theorem sizes_wide : ∀ field ∈ headerFields, 4 ≤ field.size := by decide

theorem completed_breaks {bytes t name : Bytes} (ht : t ∈ headerLines bytes)
    (hname : name ∈ allNames) (hloud : name ∉ quietNames) (hlt : t.length < name.length)
    (hstart : t.map lower <+: name.map lower)
    (hvia : name ∈ viaNames → viaLines bytes < smSipMaxVias) : ¬ ResponsesCarryBack bytes := by
  intro h
  obtain ⟨m, body, heq, hm⟩ := parseSip_completed ht hname hlt hstart [10, 10, 97] []
  obtain ⟨-, hcarries⟩ := h (name.drop t.length ++ [10, 10, 97]) []
  rcases List.mem_append.mp hname with hmem | hmem
  · obtain ⟨field, hfield, hn⟩ := List.mem_flatMap.mp hmem
    have hsize := sizes_wide field hfield
    have hvalue : cstr ([10, 10, 97].take (field.size - 1)) = [10, 10, 97] := by
      rw [List.take_of_length_le (by simp; omega)]
      rfl
    rw [parseField_named hfield hn (completed_matches hstart _), copyLineValue_outside hlt,
      drop_completed hlt, hvalue] at heq
    rw [heq] at hcarries
    have hline := (hcarries 100 "Trying" [] [] (.plain (by simp [plainReplies])) 0 0 [] []).no_line
    simp only [headerFields, List.mem_cons, List.not_mem_nil, or_false] at hfield
    rcases hfield with rfl | rfl | rfl | rfl | rfl | rfl | rfl | rfl
    · have hlimit := hvia hn
      have hadd : (addVia m [10, 10, 97]).via = m.via ++ [[10, 10, 97]] :=
        congrArg SipMsg.via (if_pos (by omega))
      exact hline.1 [10, 10, 97] (by simp [hadd]) (by simp)
    · exact hline.2.1 (by simp [setFrom])
    · exact hline.2.2.1 (by simp [setTo])
    · exact hline.2.2.2.1 (by simp)
    · exact hline.2.2.2.2 (by simp [setCseq])
    · exact contact_breaks rfl fun _ _ _ _ hreply => hcarries _ _ _ _ hreply 0 0 [] []
    · obtain rfl := List.mem_singleton.mp hn
      exact hloud (by decide)
    · obtain rfl := List.mem_singleton.mp hn
      exact hloud (by decide)
  · obtain rfl := List.mem_singleton.mp hmem
    exact hloud (by decide)

theorem responses_carry_back_iff {bytes : Bytes} (h : Answerable bytes) :
    ResponsesCarryBack bytes ↔ Contained quietNames 0 (headerLines bytes) := by
  constructor
  · intro hcarries
    refine ⟨fun hvia t ht hcut => ?_, fun t ht hcut => ?_, fun hquiet => ?_⟩
    · obtain ⟨name, hname, hlt, hstart⟩ := hcut
      exact completed_breaks ht (viaNames_sub name hname)
        (viaNames_loud name hname) hlt hstart (fun _ => by rwa [Nat.zero_add] at hvia) hcarries
    · obtain ⟨name, hname, hlt, hstart⟩ := hcut
      have hmem := List.mem_filter.mp hname
      have hother := List.mem_filter.mp hmem.1
      exact completed_breaks ht hother.1 (of_decide_eq_true hmem.2) hlt hstart
        (fun hvia => absurd hvia (of_decide_eq_true hother.2)) hcarries
    · exact absurd (by decide) hquiet
  · intro hin stale line
    have hstored := stored_storable h.noNul h.fits []
    have htag := h.tag
    have hvias := parseSip_via h.noNul h.fits h.vias []
    have hechoed := parseSip_echoed hin stale line
    generalize parseSip (datagram bytes [] []) = m₀ at hechoed hstored htag hvias
    generalize parseSip (datagram bytes stale line) = m at hechoed ⊢
    simp only [echoed, Prod.mk.injEq] at hechoed
    obtain ⟨hvia, hfrom, hto, htoTag, hcall, hcseq, hcontact⟩ := hechoed
    rw [← hto, ← htoTag] at htag
    have hm : Stored Storable m :=
      ⟨hvia ▸ hstored.via, hvia ▸ hstored.vias, hfrom ▸ hstored.fromHdr, hto ▸ hstored.toHdr,
        by rw [htoTag, hto, hstored.toTag], hcall ▸ hstored.callId, hcseq ▸ hstored.cseq,
        hcontact ▸ hstored.contact⟩
    exact ⟨hvia.trans hvias, fun _ _ _ _ hreply rand time stale' line' =>
      response_carries_back hm htag hreply rand time stale' line'⟩

instance (names : List Bytes) (text : Bytes) : Decidable (CutShort names text) :=
  inferInstanceAs (Decidable (∃ name ∈ names, _))

instance (bytes : Bytes) : Decidable (Fits bytes) :=
  inferInstanceAs (Decidable (∀ text ∈ headerLines bytes, _))

instance (toTag toHdr : Bytes) : Decidable (Taggable toTag toHdr) :=
  inferInstanceAs (Decidable (_ ∨ _))

def pageBye : Bytes :=
  ascii "BYE sip:modem SIP/2.0\r\nv: SIP/2.0/UDP 10.0.0.7\r\nf: <sip:alice@home>;tag=1\r\n" ++
    ascii "t: <sip:modem@home>\r\ni: 7 to: 8\r\nCSeq: 2 BYE\r\n\r\n"

theorem bye_is_answered :
    ResponsesCarryBack pageBye ∧ viaValues pageBye = [ascii "SIP/2.0/UDP 10.0.0.7"] :=
  ⟨(responses_carry_back_iff ⟨by decide +kernel, by decide +kernel, by decide +kernel,
      by decide +kernel⟩).mpr
    ⟨by decide +kernel, by decide +kernel, fun h => absurd (by decide +kernel) h⟩,
    by decide +kernel⟩

-- The last header name is cut short by the end; an earlier datagram completes it.
theorem stale_from_is_not_carried_back :
    let earlier := ascii "BYE sip:modem SIP/2.0\r\nf: <sip:alice@home>\r\n"
    let d : Datagram := ⟨earlier, 24, []⟩
    let reply := (buildResponse (parseSip d) 200 "OK" [] [] (makeTag 0 0)).render
    Answerable d.bytes ∧ (parseSip d).fromHdr = ascii " <sip:alice@home>\r\n" ∧
      (parseSip (datagram reply [] [])).fromHdr = ascii "<sip:alice@home>" ∧
      ¬ ResponsesCarryBack d.bytes := by
  intro earlier d reply
  refine ⟨⟨by decide, by decide, by decide, by decide⟩,
    by decide +kernel, by decide +kernel, fun h => ?_⟩
  have hcarries := (h (earlier.drop 24) []).2 200 "OK" [] [] (.plain (by simp [plainReplies]))
    0 0 [] []
  exact absurd hcarries.fromHdr (by decide +kernel)

def RepliesTo (m : SipMsg) (r : Response) : Prop :=
  ∃ status reason extra body, HandlerReply m status reason extra body ∧
    ∃ rand time, r = buildResponse m status reason extra body (makeTag rand time)

-- The calls of build_response that the handlers make.
inductive Built (cfg : SmSipConfig) (m : SipMsg) (e : Env) : Response → Prop
  | plain {status : Nat} {reason : String} (draw reading : Nat) :
      (status, reason) ∈ plainReplies →
        Built cfg m e (buildResponse m status reason [] [] (e.tag draw reading))
  | register (draw reading : Nat) : Built cfg m e (buildResponse m 200 "OK"
      (headerLine "Contact: " (if m.contact ≠ [] then m.contact else ascii "<sip:modem@unknown>"))
      [] (e.tag draw reading))
  | options (draw reading : Nat) : Built cfg m e (buildResponse m 200 "OK"
      (headerLine "Allow: " (ascii "INVITE, ACK, CANCEL, BYE, OPTIONS, REGISTER")) []
      (e.tag draw reading))
  | answered (draw reading : Nat) : Built cfg m e
      (buildResponse m 200 "OK" (contactHeader cfg) (sdpAnswer cfg e) (e.tag draw reading))

theorem Built.repliesTo {cfg : SmSipConfig} {m : SipMsg} {e : Env} {r : Response}
    (h : Built cfg m e r) (hip : (10 : UInt8) ∉ cfg.advertiseIp)
    (hfits : cfg.advertiseIp.length < 64) (hport : e.rtpPort < 2 ^ 16) : RepliesTo m r := by
  cases h with
  | plain _ _ h => exact ⟨_, _, _, _, .plain h, _, _, rfl⟩
  | register => exact ⟨_, _, _, _, .register, _, _, rfl⟩
  | options => exact ⟨_, _, _, _, .options, _, _, rfl⟩
  | answered => exact ⟨_, _, _, _, .answered hip hfits hport, _, _, rfl⟩

section Handlers

variable {s : SmSip} {m : SipMsg} {src dest : SockAddr} {e : Env} {r : Response}

theorem plain_built {status : Nat} {reason : String} (h : (status, reason) ∈ plainReplies)
    {draw reading : Nat}
    (hr : Action.response dest r =
      .response src (buildResponse m status reason [] [] (e.tag draw reading))) :
    Built s.cfg m e r := by
  rw [Action.response.injEq] at hr
  rw [hr.2]
  exact .plain draw reading h

theorem closing_silent : Action.response dest r ∉ closing s := by
  simp [closing]

theorem handleRegister_built (h : .response dest r ∈ (handleRegister s m src e).2) :
    Built s.cfg m e r := by
  rw [handleRegister, List.mem_singleton, Action.response.injEq] at h
  rw [h.2]
  exact .register 0 0

theorem handleOptions_built (h : .response dest r ∈ (handleOptions s m src e).2) :
    Built s.cfg m e r := by
  rw [handleOptions, List.mem_singleton, Action.response.injEq] at h
  rw [h.2]
  exact .options 0 0

theorem setUpCall_built (h : .response dest r ∈ (setUpCall s m src e).2) :
    Built s.cfg m e r := by
  simp only [setUpCall] at h
  split at h
  · simp only [List.mem_append, List.mem_cons, List.not_mem_nil, or_false] at h
    rcases h with (h | h) | h
    · exact plain_built (by simp [plainReplies]) h
    · exact plain_built (by simp [plainReplies]) h
    · exact absurd h closing_silent
  · split at h
    · simp only [List.mem_append, List.mem_cons, List.not_mem_nil, or_false] at h
      rcases h with (h | h | h) | h
      · exact plain_built (by simp [plainReplies]) h
      · exact absurd h (by simp)
      · exact plain_built (by simp [plainReplies]) h
      · exact absurd h closing_silent
    · split at h
      · simp only [List.mem_append, List.mem_cons, List.not_mem_nil, or_false] at h
        rcases h with (h | h | h) | h
        · exact plain_built (by simp [plainReplies]) h
        · exact absurd h (by simp)
        · exact plain_built (by simp [plainReplies]) h
        · exact absurd h closing_silent
      · simp only [List.mem_append, List.mem_cons, List.not_mem_nil, or_false] at h
        rcases h with ((h | h | h) | h) | h
        · exact plain_built (by simp [plainReplies]) h
        · exact absurd h (by simp)
        · exact absurd h (by simp)
        · simp [openCaptures] at h
        · rw [Action.response.injEq, okResponse] at h
          rw [h.2]
          exact .answered 6 4

theorem handleInvite_built (h : .response dest r ∈ (handleInvite s m src e).2) :
    s.lastOk = some r ∨ Built s.cfg m e r := by
  rw [handleInvite] at h
  split at h
  · next ok hok =>
      rw [List.mem_singleton, Action.response.injEq] at h
      obtain rfl := h.2
      split at hok
      · exact .inl hok
      · simp at hok
  · split at h
    · exact .inr (plain_built (by simp [plainReplies]) (List.mem_singleton.mp h))
    · split at h
      · exact .inr (plain_built (by simp [plainReplies]) (List.mem_singleton.mp h))
      · exact .inr (setUpCall_built h)

theorem handleBye_built (h : .response dest r ∈ (handleBye s m src e).2) : Built s.cfg m e r := by
  rw [handleBye] at h
  split at h
  · rcases List.mem_cons.mp h with h | h
    · exact plain_built (by simp [plainReplies]) h
    · exact absurd h closing_silent
  · exact plain_built (by simp [plainReplies]) (List.mem_singleton.mp h)

theorem handleCancel_built (h : .response dest r ∈ (handleCancel s m src e).2) :
    Built s.cfg m e r := by
  rw [handleCancel] at h
  split at h
  · simp only [List.mem_append, List.mem_cons, List.not_mem_nil, or_false] at h
    rcases h with (h | h) | h
    · exact plain_built (by simp [plainReplies]) h
    · have hterminated : Action.response dest r = .response src
          (buildResponse m 487 "Request Terminated" [] [] (e.tag 1 1)) := h
      exact plain_built (by simp [plainReplies]) hterminated
    · exact absurd h closing_silent
  · exact plain_built (by simp [plainReplies]) (List.mem_singleton.mp h)

theorem handleRequest_built (h : .response dest r ∈ (handleRequest s m src e).2) :
    s.lastOk = some r ∨ Built s.cfg m e r := by
  rw [handleRequest] at h
  split at h
  · exact .inr (handleRegister_built h)
  · split at h
    · exact handleInvite_built h
    · split at h
      · simp [handleAck] at h
      · split at h
        · exact .inr (handleBye_built h)
        · split at h
          · exact .inr (handleCancel_built h)
          · split at h
            · exact .inr (handleOptions_built h)
            · exact .inr (plain_built (by simp [plainReplies]) (List.mem_singleton.mp h))

end Handlers

end Softmodem.Sip

import Softmodem.Sip.Echo
import Softmodem.Sip.Outcome

namespace Softmodem.Sip

open CString

def bodyLines (body : Bytes) : List Bytes := linesFrom body.length body

def words (line : Bytes) : List Bytes :=
  (line.splitOnP fun c => isBlank c || c = 13).filter (· ≠ [])

-- m=audio PORT PROTO FORMAT..., as an offer and its answer are written.
structure AudioLine where
  port : Bytes
  proto : Bytes
  formats : List Bytes
  deriving DecidableEq, Repr

def audioLine (line : Bytes) : Option AudioLine :=
  if strncmp line (ascii "m=audio ") then
    match words (line.drop 8) with
    | port :: proto :: formats => some ⟨port, proto, formats⟩
    | _ => none
  else none

def audioLines (body : Bytes) : List AudioLine :=
  (bodyLines body).filterMap fun text => audioLine (lineOf text)

def AudioLine.OffersPcmu (a : AudioLine) : Prop :=
  digitsValue a.port ≠ 0 ∧ a.proto = ascii "RTP/AVP" ∧ ascii "0" ∈ a.formats

instance (a : AudioLine) : Decidable a.OffersPcmu := inferInstanceAs (Decidable (_ ∧ _ ∧ _))

def OffersPcmu (body : Bytes) : Prop := ∃ a ∈ audioLines body, a.OffersPcmu

instance (body : Bytes) : Decidable (OffersPcmu body) :=
  inferInstanceAs (Decidable (∃ a ∈ _, _))

def pcmuLine (port : Nat) : AudioLine := ⟨decimal port, ascii "RTP/AVP", [ascii "0"]⟩

-- What follows the name on each m=audio line, the lines below it included.
def audioTexts (body : Bytes) : List Bytes :=
  (bodyLines body).filterMap fun text =>
    if strncmp text (ascii "m=audio ") then some (text.drop 8) else none

def sdpPort (text : Bytes) : Option Int :=
  if strncmp text (ascii "m=audio ") then some (atoi (text.drop 8)) else none

theorem sdpLine_port (mem : Bytes) (s eol : Nat) (sdp : Sdp) :
    (sdpLine mem s eol sdp).port = (sdpPort (mem.drop s)).getD sdp.port := by
  have hapart (h : strncmp (mem.drop s) (ascii "c=IN IP4 ") = true) :
      strncmp (mem.drop s) (ascii "m=audio ") = false := by
    rw [strncmp, List.isPrefixOf_iff_prefix] at h
    obtain ⟨rest, hrest⟩ := h
    rw [← hrest]
    rfl
  by_cases hconnection : strncmp (mem.drop s) (ascii "c=IN IP4 ") = true
  · rw [sdpLine, if_pos hconnection, sdpPort, hapart hconnection]
    rfl
  · rw [sdpLine, if_neg hconnection, sdpPort]
    split
    · rw [List.drop_drop]
      rfl
    · rfl

theorem sdpLines_port {mem : Bytes} {e : Nat} (he : e ≤ mem.length) {left : Nat} :
    ∀ {s : Nat}, e - s ≤ left → ∀ sdp, (sdpLines mem e left s sdp).port =
      (linesFrom (e - s) (mem.drop s)).foldl (fun port text => (sdpPort text).getD port)
        sdp.port := by
  induction left with
  | zero =>
      intro s hleft sdp
      rw [Nat.le_zero.mp hleft]
      rfl
  | succ left ih =>
      intro s hleft sdp
      have harea : e - s ≤ (mem.drop s).length := by
        rw [List.length_drop]
        omega
      have heol : s ≤ e → findEol mem s e = s + findEol (mem.drop s) 0 (e - s) := by
        intro hs
        rw [← findEol_shift, Nat.add_zero, Nat.add_sub_cancel' hs]
      rcases area_cases harea with hnone | ⟨line, rest, more, hline, htext, hmore, -⟩ |
        ⟨hpos, htext⟩
      · rw [sdpLines, if_neg (by omega), hnone]
        rfl
      · have hnext : e - (s + line.length + 1) = more := by omega
        have hrest : mem.drop (s + line.length + 1) = rest := by
          rw [Nat.add_assoc, ← List.drop_drop, htext, List.drop_length_add_append,
            List.drop_succ_cons, List.drop_zero]
        have hline' : findEol mem s e = s + line.length := by
          rw [heol (by omega), htext, hmore, findEol_line hline]
        rw [sdpLines, if_pos (by omega)]
        simp only [hline']
        rw [if_pos (by omega), ih (by omega), sdpLine_port, hnext, hrest, htext, hmore,
          linesFrom_line hline, List.foldl_cons]
      · have hend : findEol mem s e = e := by
          rw [heol (by omega), findEol_last harea htext, Nat.add_sub_cancel' (by omega)]
        rw [sdpLines, if_pos (by omega)]
        simp only [hend, Nat.lt_irrefl, if_false]
        rw [ih (by omega), Nat.sub_self, linesFrom_last hpos htext, List.foldl_cons,
          sdpLine_port]
        rfl

theorem foldl_getD_eq_getLastD {α β : Type} (f : α → Option β) (l : List α) (b : β) :
    l.foldl (fun b a => (f a).getD b) b = (l.filterMap f).getLastD b := by
  induction l generalizing b with
  | nil => rfl
  | cons a l ih =>
      rw [List.foldl_cons, ih, List.filterMap_cons]
      cases f a with
      | none => rfl
      | some c => rw [List.getLastD_cons, Option.getD_some]

theorem lineStarts_padded (text stale : Bytes) :
    lineStarts text.length (text ++ stale) = (lineStarts text.length text).map (· ++ stale) := by
  induction text with
  | nil => rfl
  | cons c text ih =>
      rw [List.cons_append, List.length_cons, lineStarts, lineStarts, ih]
      split <;> rfl

theorem linesFrom_padded (text stale : Bytes) :
    linesFrom text.length (text ++ stale) = (bodyLines text).map (· ++ stale) := by
  rw [linesFrom, bodyLines, linesFrom, lineStarts_padded]
  split <;> rfl

theorem atoi_padded (text : Bytes) (n : Nat) : atoi (text ++ List.replicate n 0) = atoi text := by
  cases n with
  | zero => rw [List.replicate_zero, List.append_nil]
  | succ n => exact atoi_stop (by decide) (by decide) (by decide) (by decide) text _

theorem sdpPort_padded (text : Bytes) (n : Nat) :
    sdpPort (text ++ List.replicate n 0) = sdpPort text := by
  have hname : strncmp (text ++ List.replicate n 0) (ascii "m=audio ") =
      strncmp text (ascii "m=audio ") := by
    cases n with
    | zero => rw [List.replicate_zero, List.append_nil]
    | succ n => exact strncmp_stop (by decide) text _
  rw [sdpPort, sdpPort, hname]
  split
  · next h =>
      rw [strncmp, List.isPrefixOf_iff_prefix] at h
      have hlen : 8 ≤ text.length := h.length_le
      rw [List.drop_append_of_le_length hlen, atoi_padded]
  · rfl

-- The port is the number behind the last m=audio, wherever its line ends.
theorem extractSdp_port (m : SipMsg) :
    (extractSdp m).port = ((audioTexts m.body).map atoi).getLastD 0 := by
  have hpad (text : Bytes) := sdpPort_padded text (smSipMaxMsg - m.body.length)
  have hlen : m.body.length ≤
      (m.body ++ List.replicate (smSipMaxMsg - m.body.length) 0).length := by simp
  rw [extractSdp, sdpLines_port hlen (by omega), Nat.sub_zero, List.drop_zero, linesFrom_padded,
    foldl_getD_eq_getLastD, List.filterMap_map, audioTexts, List.map_filterMap]
  congr 2
  funext text
  rw [Function.comp_apply, hpad, sdpPort]
  split <;> rfl

def LastPortOpen (body : Bytes) : Prop := ∃ text ∈ (audioTexts body).getLast?, 0 < atoi text

instance (body : Bytes) : Decidable (LastPortOpen body) :=
  inferInstanceAs (Decidable (∃ text ∈ (_ : Option Bytes), _))

theorem extractSdp_port_pos (m : SipMsg) : 0 < (extractSdp m).port ↔ LastPortOpen m.body := by
  rw [extractSdp_port, List.getLastD_eq_getLast?, List.getLast?_map, LastPortOpen]
  cases (audioTexts m.body).getLast? with
  | none => simp
  | some text => simp

section Answer

theorem words_cons {word : Bytes} (hword : ∀ c ∈ word, (isBlank c || c = 13) = false)
    (hne : word ≠ []) (rest : Bytes) : words (word ++ 32 :: rest) = word :: words rest := by
  rw [words, List.splitOnP_append_cons _ _ (by rfl), List.splitOnP_eq_singleton hword,
    List.singleton_append, List.filter_cons_of_pos (by simp [hne])]
  rfl

theorem decimal_word (n : Nat) :
    ∀ c ∈ decimal (n : Int), c ≠ 10 ∧ (isBlank c || c = 13) = false := by
  intro c hc
  have hdigit := decimal_digits c hc
  simp only [isDigit, Bool.and_eq_true, decide_eq_true_eq, UInt8.le_iff_toNat_le,
    UInt8.reduceToNat] at hdigit
  simp only [isBlank, Bool.or_eq_false_iff, decide_eq_false_iff_not, ne_eq, ← UInt8.toNat_inj,
    UInt8.reduceToNat]
  omega

theorem audioLines_line {line : Bytes} (hline : (10 : UInt8) ∉ line) (rest : Bytes) :
    audioLines (line ++ 10 :: rest) = (audioLine line).toList ++ audioLines rest := by
  have hlen : (line ++ 10 :: rest).length = line.length + 1 + rest.length := by
    simp only [List.length_append, List.length_cons]
    omega
  rw [audioLines, bodyLines, hlen, linesFrom_line hline, List.filterMap_cons, lineOf_line hline,
    audioLines, bodyLines]
  cases audioLine line with
  | none => rfl
  | some a => rfl

theorem audioLines_crlf {line : Bytes} (hline : (10 : UInt8) ∉ line) (rest : Bytes) :
    audioLines (line ++ crlf ++ rest) = (audioLine (line ++ [13])).toList ++ audioLines rest := by
  have hsplit : line ++ crlf ++ rest = (line ++ [13]) ++ 10 :: rest := by simp [crlf]
  rw [hsplit, audioLines_line (by simpa using hline)]

theorem audioLine_other {line : Bytes} (h : strncmp line (ascii "m=audio ") = false) :
    audioLine line = none := by
  rw [audioLine, if_neg (by simp [h])]

theorem audioLine_pcmu (port : Nat) :
    audioLine (ascii "m=audio " ++ decimal port ++ ascii " RTP/AVP 0" ++ [13]) =
      some (pcmuLine port) := by
  have hwords : words (decimal (port : Int) ++ 32 :: (ascii "RTP/AVP 0" ++ [13])) =
      decimal port :: [ascii "RTP/AVP", ascii "0"] := by
    have hrest : words (ascii "RTP/AVP 0" ++ [13]) = [ascii "RTP/AVP", ascii "0"] := by
      decide
    rw [words_cons (fun c hc => (decimal_word port c hc).2) (decimal_ne_nil port), hrest]
  have hline : ascii "m=audio " ++ decimal port ++ ascii " RTP/AVP 0" ++ [13] =
      ascii "m=audio " ++ (decimal (port : Int) ++ 32 :: (ascii "RTP/AVP 0" ++ [13])) := by
    simp [ascii]
  rw [hline, audioLine, if_pos (by rfl)]
  have hdrop (text : Bytes) : (ascii "m=audio " ++ text).drop 8 = text := rfl
  rw [hdrop, hwords]
  rfl

def sdpSession (cfg : SmSipConfig) (e : Env) : Bytes :=
  ascii "v=0" ++ crlf ++
    ascii "o=- " ++ decimal (e.time 1).toNat ++ ascii " " ++ decimal (e.time 2).toNat ++
    ascii " IN IP4 " ++ cfg.advertiseIp ++ crlf ++
    ascii "s=softmodem" ++ crlf ++
    headerLine "c=IN IP4 " cfg.advertiseIp ++
    ascii "t=0 0" ++ crlf

def sdpMedia (e : Env) : Bytes :=
  ascii "m=audio " ++ decimal e.rtpPort ++ ascii " RTP/AVP 0" ++ crlf ++
    (ascii "a=rtpmap:0 PCMU/8000" ++ crlf ++
      (ascii "a=ptime:20" ++ crlf ++
        (ascii "a=sendrecv" ++ crlf)))

theorem sdpAnswer_eq (cfg : SmSipConfig) (e : Env) :
    sdpAnswer cfg e = sdpSession cfg e ++ sdpMedia e := by
  delta sdpAnswer sdpSession sdpMedia
  simp only [List.append_assoc]

theorem audioLines_media (e : Env) : audioLines (sdpMedia e) = [pcmuLine e.rtpPort] := by
  have hline : (10 : UInt8) ∉ ascii "m=audio " ++ decimal e.rtpPort ++ ascii " RTP/AVP 0" := by
    simp only [List.mem_append, not_or]
    exact ⟨⟨by decide, decimal_no_line _⟩, by decide⟩
  have hrest : audioLines (ascii "a=rtpmap:0 PCMU/8000" ++ crlf ++
      (ascii "a=ptime:20" ++ crlf ++ (ascii "a=sendrecv" ++ crlf))) = [] := by
    decide
  rw [sdpMedia, audioLines_crlf hline, audioLine_pcmu, hrest]
  rfl

theorem audioLines_session {cfg : SmSipConfig} (hip : (10 : UInt8) ∉ cfg.advertiseIp) (e : Env)
    (media : Bytes) : audioLines (sdpSession cfg e ++ media) = audioLines media := by
  have horigin : (10 : UInt8) ∉ ascii "o=- " ++ (decimal (e.time 1).toNat ++ (ascii " " ++
      (decimal (e.time 2).toNat ++ (ascii " IN IP4 " ++ cfg.advertiseIp)))) := by
    simp only [List.mem_append, not_or]
    exact ⟨by decide, decimal_no_line _, by decide, decimal_no_line _,
      by decide, hip⟩
  have hconnection : (10 : UInt8) ∉ ascii "c=IN IP4 " ++ cfg.advertiseIp := by
    simp only [List.mem_append, not_or]
    exact ⟨by decide, hip⟩
  have hsplit : sdpSession cfg e ++ media = ascii "v=0" ++ crlf ++
      ((ascii "o=- " ++ (decimal (e.time 1).toNat ++ (ascii " " ++
        (decimal (e.time 2).toNat ++ (ascii " IN IP4 " ++ cfg.advertiseIp))))) ++ crlf ++
        (ascii "s=softmodem" ++ crlf ++
          ((ascii "c=IN IP4 " ++ cfg.advertiseIp) ++ crlf ++
            (ascii "t=0 0" ++ crlf ++ media)))) := by
    simp only [sdpSession, headerLine, List.append_assoc]
  rw [hsplit, audioLines_crlf (by decide), audioLines_crlf horigin,
    audioLines_crlf (by decide), audioLines_crlf hconnection,
    audioLines_crlf (by decide), audioLine_other (by rfl), audioLine_other (by rfl),
    audioLine_other (by rfl), audioLine_other (by rfl), audioLine_other (by rfl)]
  rfl

end Answer

structure AnswersPcmu (cfg : SmSipConfig) (e : Env) (r : Response) : Prop where
  status : r.status = 200
  media : ∃ session media, r.body = session ++ media ∧ audioLines media = [pcmuLine e.rtpPort]
  only : (10 : UInt8) ∉ cfg.advertiseIp → audioLines r.body = [pcmuLine e.rtpPort]

theorem okResponse_pcmu (s : SmSip) (m : SipMsg) (e : Env) :
    AnswersPcmu s.cfg e (okResponse s m e) where
  status := rfl
  media := ⟨sdpSession s.cfg e, sdpMedia e, sdpAnswer_eq s.cfg e, audioLines_media e⟩
  only hip := by
    have hbody : (okResponse s m e).body = sdpSession s.cfg e ++ sdpMedia e :=
      sdpAnswer_eq s.cfg e
    rw [hbody, audioLines_session hip, audioLines_media]

section Decision

variable (s : SmSip) (m : SipMsg) (src : SockAddr) (e : Env)

def inviteFinals : List Response := finals ((handleInvite s m src e).2.filterMap Action.response?)

structure Accepts : Prop where
  answer : ∃ ok, inviteFinals s m src e = [ok] ∧ AnswersPcmu s.cfg e ok
  setUp : SetUp (handleInvite s m src e).1

structure Declines : Prop where
  answer : ∃ r, inviteFinals s m src e = [r] ∧ r.status = 488
  idle : (handleInvite s m src e).1 = s

structure AnswersOffer : Prop where
  accepts : OffersPcmu m.body → Accepts s m src e
  declines : ¬ OffersPcmu m.body → Declines s m src e

-- The last m=audio line alone is looked at, and of it the port.
structure LastLineDecides (body : Bytes) : Prop where
  offered : OffersPcmu body → LastPortOpen body
  supported : LastPortOpen body → OffersPcmu body

variable {s m src e}

theorem Accepts.not_declines (h : Accepts s m src e) : ¬ Declines s m src e := by
  rintro ⟨⟨r, hr, hstatus⟩, -⟩
  obtain ⟨ok, hok, hpcmu⟩ := h.answer
  rw [hr, List.cons.injEq] at hok
  have h200 := hpcmu.status
  rw [← hok.1, hstatus] at h200
  omega

theorem handleInvite_declines (hactive : s.callActive = false) (h : ¬ LastPortOpen m.body) :
    Declines s m src e := by
  have hinvite : handleInvite s m src e =
      (s, [.response src (buildResponse m 488 "Not Acceptable Here" [] [] (e.tag 0 0))]) := by
    rw [← extractSdp_port_pos, not_lt] at h
    simp [handleInvite, hactive, h]
  constructor
  · refine ⟨buildResponse m 488 "Not Acceptable Here" [] [] (e.tag 0 0), ?_, rfl⟩
    rw [inviteFinals, hinvite]
    rfl
  · rw [hinvite]

theorem handleInvite_accepts (hactive : s.callActive = false) (hsocket : e.socketOk)
    (hbind : e.bindOk) {daemon : AudioSocket.Peer} (hdaemon : e.daemon = some daemon)
    (h : LastPortOpen m.body) : Accepts s m src e := by
  have hinvite : handleInvite s m src e = setUpCall s m src e := by
    rw [← extractSdp_port_pos] at h
    simp [handleInvite, hactive, h]
  have hup : setUpCall s m src e = (recordCall { s with rtpFd := true } m e daemon,
      [.response src (buildResponse m 100 "Trying" [] [] (e.tag 0 0)), .opened .rtp,
        .opened .daemon] ++ openCaptures s e ++ [.response src (okResponse s m e)]) := by
    simp [setUpCall, hsocket, hbind, hdaemon, openCaptures, okResponse]
  have hcaptures : (openCaptures s e).filterMap Action.response? = [] := by
    rw [openCaptures]
    split <;> split <;> rfl
  constructor
  · refine ⟨okResponse s m e, ?_, okResponse_pcmu s m e⟩
    rw [inviteFinals, hinvite, hup, List.filterMap_append, List.filterMap_append, hcaptures]
    rfl
  · rw [hinvite, hup]
    exact recordCall_setUp _ _ _ _ rfl

theorem offer_answered_iff (hactive : s.callActive = false) (hsocket : e.socketOk)
    (hbind : e.bindOk) {daemon : AudioSocket.Peer} (hdaemon : e.daemon = some daemon)
    (m : SipMsg) (src : SockAddr) : AnswersOffer s m src e ↔ LastLineDecides m.body := by
  have haccepts (h : LastPortOpen m.body) : Accepts s m src e :=
    handleInvite_accepts hactive hsocket hbind hdaemon h
  constructor
  · intro h
    constructor
    · intro hoffer
      by_contra hport
      exact (h.accepts hoffer).not_declines (handleInvite_declines hactive hport)
    · intro hport
      by_contra hoffer
      exact (haccepts hport).not_declines (h.declines hoffer)
  · intro h
    constructor
    · intro hoffer
      exact haccepts (h.offered hoffer)
    · intro hoffer
      exact handleInvite_declines hactive fun hport => hoffer (h.supported hport)

end Decision

def ataOffer (body : String) : SipMsg :=
  match (ataRequest "INVITE" "1" body).sip with
  | none => sipMsgZero
  | some r => parseSip (datagram r.bytes [] (List.replicate 512 0))

theorem pcmu_offer_is_answered :
    AnswersOffer (smSipCreate ataConfig)
      (ataOffer "v=0\r\nm=video 5000 RTP/AVP 99\r\nm=audio 4000 RTP/AVP 8 0\r\n") ata
      quietWake.toEnv :=
  (offer_answered_iff rfl rfl rfl rfl _ _).mpr
    ⟨fun _ => by decide +kernel, fun _ => by decide +kernel⟩

theorem alaw_offer_is_answered :
    ¬ AnswersOffer (smSipCreate ataConfig) (ataOffer "v=0\r\nm=audio 4000 RTP/AVP 8\r\n") ata
        quietWake.toEnv := by
  intro h
  have hopen : LastPortOpen (ataOffer "v=0\r\nm=audio 4000 RTP/AVP 8\r\n").body := by
    decide +kernel
  have hoffer : ¬ OffersPcmu (ataOffer "v=0\r\nm=audio 4000 RTP/AVP 8\r\n").body := by
    decide +kernel
  exact (handleInvite_accepts rfl rfl rfl rfl hopen).not_declines (h.declines hoffer)

end Softmodem.Sip

import Softmodem.Lib.Printing
import Softmodem.Sip.ByeDialog
import Softmodem.Sip.Transaction

namespace Softmodem.Sip

open CString Printing

-- The pieces that build_response prints, one snprintf each.
def Response.texts (r : Response) : List Bytes :=
  [ascii "SIP/2.0 " ++ decimal r.status ++ ascii " " ++ r.reason ++ crlf] ++
    r.via.map (headerLine "Via: ") ++
    [headerLine "From: " r.fromHdr, headerLine "To: " r.toHdr, headerLine "Call-ID: " r.callId,
      headerLine "CSeq: " r.cseq] ++
    (if r.extra ≠ [] then [r.extra] else []) ++
    [headerLine "Server: " (ascii "SoftmodemSIP/1.0")] ++
    (if r.body ≠ [] then [headerLine "Content-Type: " (ascii "application/sdp")] else []) ++
    [headerLine "Content-Length: " (decimal r.body.length) ++ crlf]

def Response.build (r : Response) (buf : Bytes) (outlen : Nat) : Option Bytes :=
  (printAll 0 ⟨buf, 0⟩ r.texts).bind fun p =>
    (p.memcpy r.body).map fun p => p.buf.take (min p.n outlen)

theorem Response.texts_flatten (r : Response) : r.texts.flatten ++ r.body = r.render := by
  have hextra : (if r.extra ≠ [] then [r.extra] else []).flatten = r.extra := by
    split
    · simp
    · next h => simp [not_not.mp h]
  have htype : (if r.body ≠ [] then [headerLine "Content-Type: " (ascii "application/sdp")]
      else []).flatten =
      if r.body ≠ [] then headerLine "Content-Type: " (ascii "application/sdp") else [] := by
    split
    · simp
    · rfl
  simp only [texts, render, List.flatten_append, hextra, htype, List.flatten_cons,
    List.flatten_nil, List.append_nil, List.append_assoc, List.flatMap_def]

-- extra and sdp of the callers have 512 bytes each, the last for the terminator.
def callerBuffer : Nat := 512

structure Response.FitsBuffer (r : Response) : Prop where
  extra : r.extra.length < callerBuffer
  body : r.body.length < callerBuffer
  printed : ∀ buf : Bytes, buf.length = smSipMaxMsg → PrintedWhole 0 buf r.texts r.body
  built : ∀ buf : Bytes, buf.length = smSipMaxMsg → r.build buf smSipMaxMsg = some r.render

theorem copyLineValue_length (mem : Bytes) (start e : Nat) {size : Nat} (h : 0 < size) :
    (copyLineValue mem start e size).length < size := by
  have hcstr (s : Bytes) : (cstr (s.take (size - 1))).length < size := by
    have htake : (cstr (s.take (size - 1))).length ≤ (s.take (size - 1)).length :=
      (List.takeWhile_sublist _).length_le
    rw [List.length_take] at htake
    omega
  rw [copyLineValue]
  split
  · exact hcstr _
  · exact hcstr _

abbrev Bounded (m : SipMsg) : Prop := Stored (fun size value => value.length < size) m

theorem parseField_bounded {m : SipMsg} (h : Bounded m) (mem : Bytes) (s eol : Nat)
    {fields : List HeaderField} (hfields : ∀ field ∈ fields, field ∈ headerFields) :
    Bounded (parseField mem s eol m fields) := by
  induction fields with
  | nil =>
      rw [parseField]
      split
      · exact h
      · exact { h with }
  | cons field fields ih =>
      rw [parseField]
      split
      · exact ih fun f hf => hfields f (List.mem_cons_of_mem _ hf)
      · have hfield := hfields field List.mem_cons_self
        have hsize := sizes_wide field hfield
        exact h.set hfield (copyLineValue_length _ _ _ (by omega))

theorem parseHeaders_bounded {m : SipMsg} (h : Bounded m) (mem : Bytes) (body left s : Nat) :
    Bounded (parseHeaders mem body left s m) := by
  induction left generalizing s m with
  | zero => exact h
  | succ left ih =>
      rw [parseHeaders]
      split
      · dsimp only
        split
        · exact ih h _
        · exact ih (parseField_bounded h mem s _ fun _ hf => hf) _
      · exact h

theorem parseFirstLine_bounded {m : SipMsg} (h : Bounded m) (d : Datagram) (eol : Nat) :
    Bounded (parseFirstLine d eol m) := by
  simp only [parseFirstLine]
  split
  · exact { h with }
  · split
    · exact h
    · exact { h with }

theorem parseBody_bounded {m : SipMsg} (h : Bounded m) (d : Datagram) (body : Nat) :
    Bounded (parseBody d body m) := by
  rw [parseBody]
  split
  · exact { h with }
  · exact h

theorem sipMsgZero_bounded : Bounded sipMsgZero :=
  ⟨by simp [sipMsgZero], by decide, by decide, by decide, rfl, by decide, by decide, by decide⟩

-- Whatever the datagram holds, no field outgrows its array.
theorem parseSip_bounded (d : Datagram) : Bounded (parseSip d) :=
  parseBody_bounded (parseHeaders_bounded (parseFirstLine_bounded sipMsgZero_bounded _ _) _ _ _ _)
    _ _

theorem headerLine_length (name : String) (value : Bytes) :
    (headerLine name value).length = (ascii name).length + value.length + 2 := by
  simp [headerLine, crlf, Nat.add_assoc]

theorem viaLines_length {via : List Bytes} (h : ∀ v ∈ via, v.length < 320) :
    (via.flatMap (headerLine "Via: ")).length ≤ 326 * via.length := by
  induction via with
  | nil => simp
  | cons v via ih =>
      have hv := h v List.mem_cons_self
      have hrest := ih fun u hu => h u (List.mem_cons_of_mem _ hu)
      have hname : (ascii "Via: ").length = 5 := by decide
      rw [List.flatMap_cons, List.length_append, headerLine_length, List.length_cons]
      omega

theorem plainReplies_length : ∀ p ∈ plainReplies,
    (decimal (p.1 : Int)).length + (ascii p.2).length ≤ 24 := by
  decide

theorem toHdr_length {m : SipMsg} (h : Bounded m) (status : Nat) (reason : String)
    (extra body : Bytes) (rand time : UInt32) :
    (buildResponse m status reason extra body (makeTag rand time)).toHdr.length ≤ 340 := by
  have hto := h.toHdr
  dsimp only [buildResponse]
  split
  · omega
  · have hname : (ascii ";tag=").length = 5 := by decide
    rw [List.length_append, List.length_append, makeTag_length]
    omega

structure Response.Short (r : Response) : Prop where
  start : (decimal (r.status : Int)).length + r.reason.length ≤ 24
  via : (r.via.flatMap (headerLine "Via: ")).length ≤ 1304
  fromHdr : r.fromHdr.length < 320
  toHdr : r.toHdr.length ≤ 340
  callId : r.callId.length < 256
  cseq : r.cseq.length < 64
  extra : r.extra.length < callerBuffer
  body : r.body.length < callerBuffer

theorem Response.Short.render_length {r : Response} (h : r.Short) :
    r.render.length < smSipMaxMsg := by
  obtain ⟨hstart, hvia, hfrom, hto, hcall, hcseq, hextra, hbody⟩ := h
  rw [callerBuffer] at hextra hbody
  have hlength : (decimal (r.body.length : Int)).length ≤ 3 :=
    decimal_length (by decide) (hbody.trans (by decide))
  have htype : (if r.body ≠ [] then headerLine "Content-Type: " (ascii "application/sdp")
      else []).length ≤ 31 := by
    split
    · decide
    · exact Nat.zero_le _
  rw [smSipMaxMsg, Response.render]
  generalize (if r.body ≠ [] then headerLine "Content-Type: " (ascii "application/sdp")
    else []) = contentType at htype ⊢
  simp only [List.length_append, headerLine_length, crlf, ascii, List.length_map,
    String.reduceToList, List.length_cons, List.length_nil]
  omega

theorem Response.Short.fitsBuffer {r : Response} (h : r.Short) : r.FitsBuffer := by
  have hlength : r.texts.flatten.length + r.body.length < smSipMaxMsg := by
    rw [← List.length_append, r.texts_flatten]
    exact h.render_length
  have hwhole (buf : Bytes) (hbuf : buf.length = smSipMaxMsg) :
      PrintedWhole 0 buf r.texts r.body :=
    printedWhole_of_length (by rw [hbuf]; decide) (by rwa [hbuf]) 0
  refine ⟨h.extra, h.body, hwhole, fun buf hbuf => ?_⟩
  obtain ⟨p, hp, hn, hfirst⟩ := (hwhole buf hbuf).last
  obtain ⟨q, hq, hpq⟩ := Option.bind_eq_some_iff.mp hp
  rw [hbuf] at hn
  rw [Response.build, hq, Option.bind_some, hpq, Option.map_some, Nat.min_eq_left hn.le, hfirst,
    r.texts_flatten]

theorem buildResponse_short {m : SipMsg} (h : Bounded m) {status : Nat} {reason : String}
    (hstart : (status, reason) ∈ plainReplies) {extra body : Bytes}
    (hextra : extra.length < callerBuffer) (hbody : body.length < callerBuffer)
    (rand time : UInt32) : (buildResponse m status reason extra body (makeTag rand time)).Short where
  start := plainReplies_length _ hstart
  via := (viaLines_length h.via).trans (Nat.mul_le_mul_left 326 h.vias)
  fromHdr := h.fromHdr
  toHdr := toHdr_length h status reason extra body rand time
  callId := h.callId
  cseq := h.cseq
  extra := hextra
  body := hbody

theorem contactHeader_length {cfg : SmSipConfig} (hip : cfg.advertiseIp.length < 64)
    (hport : cfg.bindPort < 2 ^ 31) : (contactHeader cfg).length < callerBuffer := by
  have hdigits : (decimal (cfg.bindPort : Int)).length ≤ 10 :=
    decimal_length (by decide) (hport.trans (by decide))
  delta contactHeader
  simp only [callerBuffer, crlf, ascii, List.length_append, List.length_map, String.reduceToList,
    List.length_cons, List.length_nil]
  omega

-- advertise_ip is a char[64] and bind_port an int.
structure SmSipConfig.Typed (cfg : SmSipConfig) : Prop where
  advertiseIp : cfg.advertiseIp.length < 64
  bindPort : cfg.bindPort < 2 ^ 31

theorem Built.fitsBuffer {cfg : SmSipConfig} (hcfg : cfg.Typed) {e : Env}
    (hport : e.rtpPort < 2 ^ 16) {m : SipMsg} (hm : Bounded m) {r : Response}
    (h : Built cfg m e r) : r.FitsBuffer := by
  have hempty : ([] : Bytes).length < callerBuffer := by decide
  have fits {status : Nat} {reason : String} (hstart : (status, reason) ∈ plainReplies)
      {extra body : Bytes} (hextra : extra.length < callerBuffer)
      (hbody : body.length < callerBuffer) (draw reading : Nat) :
      (buildResponse m status reason extra body (e.tag draw reading)).FitsBuffer :=
    (buildResponse_short hm hstart hextra hbody _ _).fitsBuffer
  have hok : (200, "OK") ∈ plainReplies := by simp [plainReplies]
  cases h with
  | plain draw reading hstart => exact fits hstart hempty hempty draw reading
  | register draw reading =>
      refine fits hok ?_ hempty draw reading
      have hcontact := hm.contact
      have hname : (ascii "Contact: ").length = 9 := by decide
      have hunknown : (ascii "<sip:modem@unknown>").length = 19 := by decide
      rw [headerLine_length, callerBuffer]
      split
      · omega
      · omega
  | options draw reading => exact fits hok (by decide) hempty draw reading
  | answered draw reading =>
      exact fits hok (contactHeader_length hcfg.advertiseIp hcfg.bindPort)
        (sdpAnswer_length hcfg.advertiseIp hport) draw reading

theorem receiveSip_fits {s : SmSip} (hcfg : s.cfg.Typed) {src dest : SockAddr} {e : Env}
    (hport : e.rtpPort < 2 ^ 16) {d : Datagram} {r : Response}
    (h : .response dest r ∈ (receiveSip s src e d).2) : s.lastOk = some r ∨ r.FitsBuffer := by
  rw [receiveSip] at h
  split at h
  · simp at h
  · exact (handleRequest_built h).imp_right fun h => h.fitsBuffer hcfg hport (parseSip_bounded d)

theorem Handled.lastOk {s : SmSip} {m : SipMsg} {src : SockAddr} {e : Env}
    {result : SmSip × List Action} (h : Handled s m src e result) {r : Response}
    (hr : result.1.lastOk = some r) : s.lastOk = some r ∨ .response src r ∈ result.2 := by
  cases h with
  | answered | ignored | media | replayed | busy | noAudio => exact .inl hr
  | bye | cancel | noSocket | noPort | noDaemon => simp [endCall] at hr
  | accepted =>
      obtain rfl := Option.some.inj hr
      exact .inr (List.mem_append_right _ List.mem_cons_self)

theorem Handled.cfg {s : SmSip} {m : SipMsg} {src : SockAddr} {e : Env}
    {result : SmSip × List Action} (h : Handled s m src e result) : result.1.cfg = s.cfg := by
  cases h with
  | answered | ignored | media | replayed | busy | noAudio => rfl
  | bye | cancel | noSocket | noPort | noDaemon | accepted => rfl

-- Every response sent so far, and the one kept for a retransmission, fits.
structure AllFit (cfg : SmSipConfig) (s : SipRun) : Prop where
  cfg : s.server.cfg = cfg
  lastOk : ∀ r ∈ s.server.lastOk, r.FitsBuffer
  sent : ∀ dest r, .response dest r ∈ s.log → r.FitsBuffer

theorem AllFit.extend {cfg : SmSipConfig} {s s' : SipRun} (h : AllFit cfg s)
    (hcfg : s'.server.cfg = s.server.cfg) {actions : List Action}
    (hlog : s'.log = s.log ++ actions)
    (hnew : ∀ dest r, .response dest r ∈ actions → r.FitsBuffer)
    (hlast : ∀ r, s'.server.lastOk = some r → r.FitsBuffer) : AllFit cfg s' where
  cfg := hcfg.trans h.cfg
  lastOk := hlast
  sent dest r hr := by
    rw [hlog] at hr
    rcases List.mem_append.mp hr with hr | hr
    · exact h.sent dest r hr
    · exact hnew dest r hr

theorem hangUp_quiet (s : SmSip) (e : Env) :
    (hangUp s e).1.cfg = s.cfg ∧ ∀ dest r, .response dest r ∉ (hangUp s e).2 := by
  simp only [hangUp, sendBye]
  split
  · split
    · exact ⟨rfl, by simp [closing_silent]⟩
    · exact ⟨rfl, by simp [closing_silent]⟩
  · exact ⟨rfl, by simp [closing_silent]⟩

theorem Ticked.quiet {s : SmSip} {e : Env} {result : SmSip × List Action}
    (h : Ticked s e result) :
    result.1.cfg = s.cfg ∧ (∀ dest r, .response dest r ∉ result.2) ∧
      ∀ r, result.1.lastOk = some r → s.lastOk = some r := by
  cases h with
  | silent s' h => exact ⟨h.cfg, by simp, fun r hr => h.lastOk ▸ hr⟩
  | sent s' h => exact ⟨h.cfg, by simp, fun r hr => h.lastOk ▸ hr⟩
  | hungUp s' h =>
      obtain ⟨hcfg, hsilent⟩ := hangUp_quiet s' e
      exact ⟨hcfg.trans h.cfg, hsilent, fun r hr => absurd hr (by simp [hangUp, endCall])⟩

theorem heardRequest_allFit {cfg : SmSipConfig} (hcfg : cfg.Typed) {s : SipRun} {e : LoopEnv}
    (hport : e.rtpPort < 2 ^ 16) (hs : AllFit cfg s) (r : Received) :
    AllFit cfg (heardRequest s r e) := by
  obtain rfl := hs.cfg
  have hnew (dest : SockAddr) (response : Response) (h : .response dest response ∈
      (receiveSip s.server r.src e.toEnv (recvInto s.buf r e.line)).2) : response.FitsBuffer :=
    (receiveSip_fits hcfg hport h).elim (hs.lastOk response) id
  refine hs.extend ?_ rfl hnew fun response hlast => ?_
  · rw [heardRequest_server]
    rcases receiveSip_cases s.server r.src e.toEnv (recvInto s.buf r e.line) with ⟨-, h⟩ | ⟨-, h⟩
    · rw [h]
    · exact h.cfg
  · rw [heardRequest_server] at hlast
    rcases receiveSip_cases s.server r.src e.toEnv (recvInto s.buf r e.line) with ⟨-, h⟩ | ⟨-, h⟩
    · rw [h] at hlast
      exact hs.lastOk response hlast
    · exact (h.lastOk hlast).elim (hs.lastOk response) (hnew r.src response)

theorem Turn.allFit {cfg : SmSipConfig} (hcfg : cfg.Typed) {s s' : SipRun} {e : LoopEnv}
    (hport : e.rtpPort < 2 ^ 16) (h : Turn s e s') (hs : AllFit cfg s) : AllFit cfg s' := by
  cases h with
  | waited => exact ⟨hs.cfg, hs.lastOk, hs.sent⟩
  | ended =>
      obtain ⟨hsame, hsilent⟩ := hangUp_quiet s.server e.toEnv
      refine hs.extend hsame rfl (fun dest r hr => absurd hr (hsilent dest r)) fun r hr => ?_
      exact absurd hr (by simp [SipRun.act, hangUp, endCall])
  | media r =>
      have hsame := receiveRtp_sameDialog s.server r e.firstPacket
      exact ⟨hsame.cfg.trans hs.cfg, fun r' hr => hs.lastOk r' (hsame.lastOk ▸ hr), hs.sent⟩
  | request r => exact heardRequest_allFit hcfg hport hs r
  | ticked now =>
      obtain ⟨hsame, hsilent, hlast⟩ := (audioTick_ticked s.server e.toEnv).quiet
      have hsched := schedule_sameCall (audioTick s.server e.toEnv).1 e.now
      refine hs.extend (hsched.cfg.trans hsame) rfl
        (fun dest r hr => absurd hr (hsilent dest r)) fun r hr => ?_
      exact hs.lastOk r (hlast r (hsched.lastOk ▸ hr))

theorem run_allFit {cfg : SmSipConfig} (hcfg : cfg.Typed) (maxCalls : Int) {es : List LoopEnv}
    (hports : ∀ e ∈ es, e.rtpPort < 2 ^ 16) {s : SipRun} (hs : AllFit cfg s) :
    AllFit cfg (smSipRun maxCalls s es) := by
  induction es generalizing s with
  | nil => exact hs
  | cons e es ih =>
      have hstep := (step_turn maxCalls s e).allFit hcfg (hports e List.mem_cons_self) hs
      exact ih (fun f hf => hports f (List.mem_cons_of_mem e hf)) hstep

theorem responses_fit_their_buffer {cfg : SmSipConfig} (hcfg : cfg.Typed) (maxCalls : Int)
    (buf : Bytes) (es : List LoopEnv) (hports : ∀ e ∈ es, e.rtpPort < 2 ^ 16) :
    ∀ dest r, .response dest r ∈ (smSipRun maxCalls (start cfg buf) es).log → r.FitsBuffer := by
  have hstart : AllFit cfg (start cfg buf) := ⟨rfl, by simp [start, smSipCreate], by simp [start]⟩
  exact (run_allFit hcfg maxCalls hports hstart).sent

theorem answered_invite_fits :
    let run := smSipRun (-1) (start ataConfig ataBuffer) [ataInvite "1"]
    (run.log.filterMap Action.response?).map Response.status = [100, 200] ∧
      ∀ dest r, .response dest r ∈ run.log → r.FitsBuffer := by
  refine ⟨?_, responses_fit_their_buffer ⟨by decide, by decide⟩ (-1) ataBuffer
    [ataInvite "1"] fun e he => ?_⟩
  · decide +kernel
  · obtain rfl := List.mem_singleton.mp he
    decide

end Softmodem.Sip

import Softmodem.Sip.Isolation

namespace Softmodem.Sip

open CString

structure InCall (s : SipRun) (d : Dialog) : Prop where
  dialog : s.dialog = some d
  callId : s.server.callId = d.invite.callId
  toHdr : s.server.toHdr = d.invite.toHdr
  lastOk : s.server.lastOk = some d.ok
  answers : Answers d.ok d.invite
  status : d.ok.status = 200
  sent : .response d.src d.ok ∈ s.log
  media : s.server.rtpPeerKnown → d.media = some s.server.rtpPeer

def Tracked (s : SipRun) : Prop := s.server.callActive → ∃ d, InCall s d

structure FromCall (log : List Action) (b : SentBye) (d : Dialog) : Prop where
  dialog : b.dialog = some d
  callId : b.bye.callId = d.invite.callId
  toHdr : b.bye.toHdr = d.invite.toHdr
  tag : b.bye.tag = b.drawn
  status : d.ok.status = 200
  sent : .response d.src d.ok ∈ log
  media : d.media = some b.dest

def ByesTracked (s : SipRun) : Prop := ∀ b ∈ s.byes, ∃ d, FromCall s.log b d

theorem InCall.same {s s' : SipRun} {d : Dialog} (h : InCall s d)
    (hs : SameCall s.server s'.server) (hdialog : s'.dialog = s.dialog)
    (hlog : s.log ⊆ s'.log) : InCall s' d where
  dialog := hdialog.trans h.dialog
  callId := hs.callId.trans h.callId
  toHdr := hs.toHdr.trans h.toHdr
  lastOk := hs.lastOk.trans h.lastOk
  answers := h.answers
  status := h.status
  sent := hlog h.sent
  media := fun hknown => by
    rw [hs.rtpPeer]
    exact h.media (hs.rtpPeerKnown ▸ hknown)

theorem ByesTracked.log {s s' : SipRun} (h : ByesTracked s) (hbyes : s'.byes = s.byes)
    (hlog : s.log ⊆ s'.log) : ByesTracked s' := by
  intro b hb
  obtain ⟨d, hd⟩ := h b (hbyes ▸ hb)
  exact ⟨d, hd.dialog, hd.callId, hd.toHdr, hd.tag, hd.status, hlog hd.sent, hd.media⟩

theorem act_byes (s : SipRun) (e : Env) (r : SmSip × List Action) (stage : Stage) :
    (s.act e r stage).byes = s.byes ++ r.2.filterMap (byeOf s.dialog (e.tag 0 0)) := rfl

theorem filterMap_byeOf_nil {actions : List Action} (h : ∀ dest b, .bye dest b ∉ actions)
    (dialog : Option Dialog) (drawn : Bytes) :
    actions.filterMap (byeOf dialog drawn) = [] := by
  refine List.filterMap_eq_nil_iff.mpr fun a ha => ?_
  cases a with
  | bye dest b => exact absurd ha (h dest b)
  | response | rtp | opened | closed => rfl

theorem closing_no_bye (s : SmSip) (dest : SockAddr) (b : Bye) : .bye dest b ∉ closing s := by
  simp [closing]

theorem hangUp_bye {s : SmSip} {e : Env} {dest : SockAddr} {b : Bye}
    (h : .bye dest b ∈ (hangUp s e).2) :
    s.callActive ∧ s.rtpPeerKnown ∧ dest = s.rtpPeer ∧ b = byeRequest s e := by
  rcases hknown : s.rtpPeerKnown with _ | _
  · simp [hangUp, hknown, closing_no_bye] at h
  rcases hactive : s.callActive with _ | _
  · simp [hangUp, sendBye, hknown, hactive, closing_no_bye] at h
  · have hb : dest = s.rtpPeer ∧ b = byeRequest s e := by
      simpa [hangUp, sendBye, hknown, hactive, closing_no_bye] using h
    exact ⟨rfl, rfl, hb⟩

theorem Tracked.hungUp {s : SipRun} (h : Tracked s) (hbyes : ByesTracked s) {s' : SmSip}
    (hs : SameCall s.server s') (e : Env) (stage : Stage) :
    ByesTracked (s.act e (hangUp s' e) stage) := by
  intro b hb
  have hlog : s.log ⊆ (s.act e (hangUp s' e) stage).log := List.subset_append_left ..
  rw [act_byes, List.mem_append] at hb
  rcases hb with hb | hb
  · obtain ⟨d, hd⟩ := hbyes b hb
    exact ⟨d, hd.dialog, hd.callId, hd.toHdr, hd.tag, hd.status, hlog hd.sent, hd.media⟩
  · obtain ⟨a, ha, hab⟩ := List.mem_filterMap.mp hb
    cases a with
    | response | rtp | opened | closed => simp [byeOf] at hab
    | bye dest bye =>
        obtain ⟨hactive, hknown, rfl, rfl⟩ := hangUp_bye ha
        obtain ⟨d, hd⟩ := h (hs.callActive ▸ hactive)
        obtain rfl : (⟨s.dialog, e.tag 0 0, s'.rtpPeer, byeRequest s' e⟩ : SentBye) = b := by
          simpa [byeOf] using hab
        refine ⟨d, hd.dialog, hs.callId.trans hd.callId, hs.toHdr.trans hd.toHdr, rfl, hd.status,
          hlog hd.sent, ?_⟩
        rw [hd.media (hs.rtpPeerKnown ▸ hknown), hs.rtpPeer]

theorem tracked_of_inactive {s : SipRun} (h : s.server.callActive = false) : Tracked s :=
  fun hactive => by simp [h] at hactive

theorem hangUp_inactive (s : SmSip) (e : Env) : (hangUp s e).1.callActive = false := rfl

theorem Tracked.ticked {s : SipRun} (h : Tracked s) (hbyes : ByesTracked s) {e : Env}
    {r : SmSip × List Action} (hr : Ticked s.server e r) (now : Timespec) (stage : Stage) :
    Tracked (s.act e (schedule r.1 now, r.2) stage) ∧
      ByesTracked (s.act e (schedule r.1 now, r.2) stage) := by
  have hsched := schedule_sameCall r.1 now
  have hlog (server actions) : s.log ⊆ (s.act e (server, actions) stage).log :=
    List.subset_append_left ..
  have kept {actions : List Action} (hs : SameCall s.server r.1)
      (hquiet : ∀ dest b, .bye dest b ∉ actions) :
      Tracked (s.act e (schedule r.1 now, actions) stage) ∧
        ByesTracked (s.act e (schedule r.1 now, actions) stage) := by
    have hsame := hs.trans hsched
    constructor
    · intro hactive
      obtain ⟨d, hd⟩ := h (hsame.callActive ▸ hactive)
      exact ⟨d, hd.same hsame (if_pos hactive) (hlog ..)⟩
    · refine hbyes.log ?_ (hlog ..)
      rw [act_byes, filterMap_byeOf_nil hquiet, List.append_nil]
  cases hr with
  | silent s' hs => exact kept hs (by simp)
  | sent s' hs => exact kept hs (by simp)
  | hungUp s' hs =>
      constructor
      · exact tracked_of_inactive (hsched.callActive.trans (hangUp_inactive s' e))
      · exact h.hungUp hbyes hs e stage

theorem Handled.no_bye {s : SmSip} {m : SipMsg} {src : SockAddr} {e : Env}
    {r : SmSip × List Action} (h : Handled s m src e r) (dest : SockAddr) (b : Bye) :
    .bye dest b ∉ r.2 := by
  cases h <;> simp [closing, openCaptures]

theorem openCaptures_responses (s : SmSip) (e : Env) :
    (openCaptures s e).filterMap Action.response? = [] := by
  unfold openCaptures
  split <;> split <;> rfl

theorem accepted_responses (s : SmSip) (src : SockAddr) (e : Env) (trying ok : Response) :
    ([.response src trying, .opened .rtp, .opened .daemon] ++ openCaptures s e ++
      [.response src ok] : List Action).filterMap Action.response? = [trying, ok] := by
  rw [List.filterMap_append, List.filterMap_append, openCaptures_responses]
  rfl

theorem InCall.changed {s s' : SipRun} {d : Dialog} (h : InCall s d)
    (hserver : s'.server = s.server ∨ s'.server = { s.server with mediaActive := true })
    (hdialog : s'.dialog = s.dialog) (hlog : s.log ⊆ s'.log) : InCall s' d := by
  rcases hserver with hs | hs
  · exact ⟨hdialog.trans h.dialog, by rw [hs]; exact h.callId, by rw [hs]; exact h.toHdr,
      by rw [hs]; exact h.lastOk, h.answers, h.status, hlog h.sent, by rw [hs]; exact h.media⟩
  · exact ⟨hdialog.trans h.dialog, by rw [hs]; exact h.callId, by rw [hs]; exact h.toHdr,
      by rw [hs]; exact h.lastOk, h.answers, h.status, hlog h.sent, by rw [hs]; exact h.media⟩

theorem heardRequest_log (s : SipRun) (r : Received) (e : LoopEnv) :
    s.log ⊆ (heardRequest s r e).log := List.subset_append_left ..

theorem heardRequest_dialog {s : SipRun} {r : Received} {e : LoopEnv}
    (hactive : (heardRequest s r e).server.callActive) (hbefore : s.server.callActive) :
    (heardRequest s r e).dialog = s.dialog := by
  rw [heardRequest_server] at hactive
  simp [heardRequest, SipRun.act, hactive, hbefore]

theorem heardRequest_tracked {s : SipRun} (h : Tracked s) (r : Received) (e : LoopEnv) :
    Tracked (heardRequest s r e) := by
  intro hactive
  have hserver := heardRequest_server s r e
  have kept (hs : (heardRequest s r e).server = s.server ∨
      (heardRequest s r e).server = { s.server with mediaActive := true }) :
      ∃ d, InCall (heardRequest s r e) d := by
    have hbefore : s.server.callActive := by
      rcases hs with hs | hs
      · exact hs ▸ hactive
      · rw [hs] at hactive
        exact hactive
    obtain ⟨d, hd⟩ := h hbefore
    exact ⟨d, hd.changed hs (heardRequest_dialog hactive hbefore) (heardRequest_log ..)⟩
  rcases receiveSip_cases s.server r.src e.toEnv (recvInto s.buf r e.line) with ⟨_, hr⟩ | ⟨hm, hr⟩
  · exact kept (.inl (by rw [hserver, hr]))
  generalize hresult : receiveSip s.server r.src e.toEnv (recvInto s.buf r e.line) = result at *
  cases hr with
  | answered | ignored | replayed | busy | noAudio => exact kept (.inl hserver)
  | media => exact kept (.inr hserver)
  | bye | cancel | noSocket | noPort | noDaemon =>
      rw [hserver] at hactive
      simp [endCall] at hactive
  | accepted _ hinactive _ _ _ daemon _ trying htrying hprovisional =>
      refine ⟨⟨parseSip (recvInto s.buf r e.line), r.src,
        okResponse s.server (parseSip (recvInto s.buf r e.line)) e.toEnv, none⟩, ?_⟩
      refine ⟨?_, ?_, ?_, ?_, buildResponse_answers .., rfl, ?_, ?_⟩
      · simp only [heardRequest, hresult, accepted_responses]
        simp [hprovisional, hinactive, recordCall, okResponse]
      · rw [hserver]
        rfl
      · rw [hserver]
        rfl
      · rw [hserver]
        rfl
      · simp [heardRequest, SipRun.act, hresult]
      · rw [hserver]
        simp [recordCall]

theorem heardRequest_byes {s : SipRun} (h : ByesTracked s) (r : Received) (e : LoopEnv) :
    ByesTracked (heardRequest s r e) := by
  refine h.log ?_ (heardRequest_log ..)
  have hquiet (dest b) : .bye dest b ∉
      (receiveSip s.server r.src e.toEnv (recvInto s.buf r e.line)).2 := by
    rcases receiveSip_cases s.server r.src e.toEnv (recvInto s.buf r e.line) with ⟨_, hr⟩ | ⟨_, hr⟩
    · rw [hr]
      exact List.not_mem_nil
    · exact hr.no_bye dest b
  have hnone := filterMap_byeOf_nil hquiet s.dialog (e.tag 0 0)
  simp [heardRequest, SipRun.act, hnone]

theorem receiveRtp_peer (s : SmSip) (r : Received) (now : Timespec) :
    (receiveRtp s r now).rtpPeer = s.rtpPeer ∧
        (receiveRtp s r now).rtpPeerKnown = s.rtpPeerKnown ∨
      s.rtpPeerKnown = false ∧ (receiveRtp s r now).rtpPeerKnown ∧
        (receiveRtp s r now).rtpPeer = r.src := by
  simp only [receiveRtp]
  split
  · have hsame := processRtp_sameCall (bindPeer s r.src now) (r.bytes.take 2048)
    rw [hsame.rtpPeer, hsame.rtpPeerKnown]
    rcases hknown : s.rtpPeerKnown with _ | _
    · exact .inr (by simp [bindPeer, hknown])
    · exact .inl (by simp [bindPeer, hknown])
  · exact .inl ⟨rfl, rfl⟩

theorem heardMedia_tracked {s : SipRun} (h : Tracked s) (r : Received) (e : LoopEnv) :
    Tracked (heardMedia s r e) := by
  intro hactive
  have hsame := receiveRtp_sameDialog s.server r e.firstPacket
  obtain ⟨d, hd⟩ := h (hsame.callActive ▸ hactive)
  have hin (media : Option SockAddr) (hdialog : (heardMedia s r e).dialog = some { d with media := media })
      (hmedia : (heardMedia s r e).server.rtpPeerKnown →
        media = some (heardMedia s r e).server.rtpPeer) :
      InCall (heardMedia s r e) { d with media := media } :=
    ⟨hdialog, hsame.callId.trans hd.callId, hsame.toHdr.trans hd.toHdr,
      hsame.lastOk.trans hd.lastOk, hd.answers, hd.status, hd.sent, hmedia⟩
  rcases receiveRtp_peer s.server r e.firstPacket with ⟨hpeer, hknown⟩ | ⟨hunknown, hknown, hpeer⟩
  · refine ⟨d, hin d.media ?_ fun hk => ?_⟩
    · simp [heardMedia, hd.dialog, hknown]
    · exact (hd.media (hknown ▸ hk)).trans (congrArg some hpeer.symm)
  · refine ⟨{ d with media := some r.src }, hin (some r.src) ?_ fun _ => ?_⟩
    · simp [heardMedia, hd.dialog, hknown, hunknown]
    · exact congrArg some hpeer.symm

theorem Turn.tracked {s s' : SipRun} {e : LoopEnv} (h : Turn s e s') (ht : Tracked s)
    (hb : ByesTracked s) : Tracked s' ∧ ByesTracked s' := by
  cases h with
  | waited =>
      refine ⟨fun hactive => ?_, hb⟩
      obtain ⟨d, hd⟩ := ht hactive
      exact ⟨d, hd.same (.refl _) rfl (List.Subset.refl _)⟩
  | ended =>
      exact ⟨tracked_of_inactive (hangUp_inactive ..), ht.hungUp hb (.refl _) _ _⟩
  | media r => exact ⟨heardMedia_tracked ht r e, hb⟩
  | request r => exact ⟨heardRequest_tracked ht r e, heardRequest_byes hb r e⟩
  | ticked now => exact ht.ticked hb (audioTick_ticked ..) e.now _

theorem run_tracked (maxCalls : Int) (cfg : SmSipConfig) (buf : Bytes) (es : List LoopEnv) :
    Tracked (smSipRun maxCalls (start cfg buf) es) ∧
      ByesTracked (smSipRun maxCalls (start cfg buf) es) :=
  smSipRun_invariant (P := fun s => Tracked s ∧ ByesTracked s)
    (fun _ _ _ hs h => h.tracked hs.1 hs.2) es
    ⟨tracked_of_inactive rfl, fun _ hb => absurd hb List.not_mem_nil⟩

def SentBye.InDialog (b : SentBye) : Prop :=
  ∃ d ∈ b.dialog,
    b.bye.callId = d.invite.callId ∧ b.bye.tag = extractTag d.ok.toHdr ∧
      b.bye.toHdr = d.invite.fromHdr ∧ b.dest = d.src

def SentBye.Matched (b : SentBye) : Prop :=
  ∃ d ∈ b.dialog,
    b.drawn = extractTag d.ok.toHdr ∧ d.invite.toHdr = d.invite.fromHdr ∧ d.media = some d.src

instance (b : SentBye) : Decidable b.InDialog :=
  inferInstanceAs (Decidable (∃ d ∈ b.dialog, _))

theorem FromCall.inDialog_iff {log : List Action} {b : SentBye} {d : Dialog}
    (h : FromCall log b d) : b.InDialog ↔ b.Matched := by
  have hdest : b.dest = d.src ↔ d.media = some d.src := by
    rw [h.media]
    exact Option.some_inj.symm
  simp [SentBye.InDialog, SentBye.Matched, h.dialog, h.callId, h.tag, h.toHdr, hdest]

theorem bye_in_dialog_iff (maxCalls : Int) (cfg : SmSipConfig) (buf : Bytes)
    (es : List LoopEnv) :
    ∀ b ∈ (smSipRun maxCalls (start cfg buf) es).byes,
      (∃ d ∈ b.dialog, d.ok.status = 200 ∧
        .response d.src d.ok ∈ (smSipRun maxCalls (start cfg buf) es).log) ∧
      (b.InDialog ↔ b.Matched) := by
  intro b hb
  obtain ⟨d, hd⟩ := (run_tracked maxCalls cfg buf es).2 b hb
  exact ⟨⟨d, hd.dialog, hd.status, hd.sent⟩, hd.inDialog_iff⟩

def ataConfig : SmSipConfig :=
  { bindPort := 5060, advertiseIp := ascii "10.0.0.2", captureDir := false }

def ata : SockAddr := ⟨0x0A000001, 5060⟩

def ataMedia : SockAddr := ⟨0x0A000001, 4000⟩

def quietWake : LoopEnv :=
  { rand := fun k => k.toUInt32, time := fun _ => 0, socketOk := true, bindOk := true
    rtpPort := 20000, daemon := some ⟨[], []⟩, uuidSent := [.sent 3, .sent 16]
    capRxOpened := false, capTxOpened := false, frameSent := [.sent 3, .sent 2048]
    poll := .ready, daemonHup := false, daemonEof := false, rtp := none
    sip := none, line := List.replicate 512 0, firstPacket := ⟨0, 0⟩, now := ⟨0, 0⟩ }

def ataRequest (method cseq body : String) : LoopEnv :=
  { quietWake with
    sip := some
      ⟨ascii method ++ ascii " sip:modem@10.0.0.2 SIP/2.0\r\n" ++
        ascii "Via: SIP/2.0/UDP 10.0.0.1;branch=z9hG4bK" ++ ascii cseq ++ crlf ++
        ascii "From: <sip:ata@10.0.0.1>;tag=a1\r\nTo: <sip:modem@10.0.0.2>\r\n" ++
        ascii "Call-ID: c1\r\nCSeq: " ++ ascii cseq ++ ascii " " ++ ascii method ++
        ascii "\r\n\r\n" ++ ascii body, ata⟩ }

def ataInvite (cseq : String) : LoopEnv :=
  ataRequest "INVITE" cseq "v=0\r\nm=audio 4000 RTP/AVP 0\r\n"

def ataPacket : LoopEnv := { quietWake with rtp := some ⟨List.replicate 172 0x80, ataMedia⟩ }

def ataBuffer : Bytes := List.replicate (smSipMaxMsg + 64) 0

def hangUpWakes : List LoopEnv :=
  [ataInvite "1", ataPacket, quietWake, { quietWake with daemonHup := true }]

theorem hang_up_sends_a_bye :
    ∃ b ∈ (smSipRun (-1) (start ataConfig ataBuffer) hangUpWakes).byes,
      (∃ d ∈ b.dialog, d.ok.status = 200 ∧
        .response d.src d.ok ∈ (smSipRun (-1) (start ataConfig ataBuffer) hangUpWakes).log) ∧
      (b.InDialog ↔ b.Matched) := by
  have hsent : (smSipRun (-1) (start ataConfig ataBuffer) hangUpWakes).byes ≠ [] := by
    decide +kernel
  have hmem := List.head_mem hsent
  exact ⟨_, hmem, bye_in_dialog_iff (-1) ataConfig ataBuffer hangUpWakes _ hmem⟩

theorem bye_outside_the_dialog :
    ¬ ∀ (maxCalls : Int) (cfg : SmSipConfig) (buf : Bytes) (es : List LoopEnv),
      ∀ b ∈ (smSipRun maxCalls (start cfg buf) es).byes, b.InDialog := by
  intro h
  have hrun := h (-1) ataConfig ataBuffer hangUpWakes
  revert hrun
  decide +kernel

end Softmodem.Sip

import Softmodem.Sip.Run

namespace Softmodem.Sip

open AudioSocket CString

structure Answers (r : Response) (m : SipMsg) : Prop where
  via : r.via = m.via
  fromHdr : r.fromHdr = m.fromHdr
  callId : r.callId = m.callId
  cseq : r.cseq = m.cseq

theorem buildResponse_answers (m : SipMsg) (status : Nat) (reason : String)
    (extra body tag : Bytes) : Answers (buildResponse m status reason extra body tag) m :=
  ⟨rfl, rfl, rfl, rfl⟩

@[simp] theorem buildResponse_status (m : SipMsg) (status : Nat) (reason : String)
    (extra body tag : Bytes) : (buildResponse m status reason extra body tag).status = status :=
  rfl

def Mine (s : SmSip) (m : SipMsg) : Prop := s.callActive ∧ s.callId = m.callId

instance (s : SmSip) (m : SipMsg) : Decidable (Mine s m) :=
  inferInstanceAs (Decidable (_ ∧ _))

inductive Handled (s : SmSip) (m : SipMsg) (src : SockAddr) (e : Env) :
    SmSip × List Action → Prop where
  | answered (r : Response) (hmethod : m.method ≠ ascii "INVITE" ∧ m.method ≠ ascii "ACK")
      (hother : Mine s m → m.method ≠ ascii "BYE" ∧ m.method ≠ ascii "CANCEL")
      (hr : Answers r m) (hstatus : r.status = 200 ∨ r.status = 405) :
      Handled s m src e (s, [.response src r])
  | ignored (hmethod : m.method = ascii "ACK") (hother : ¬ Mine s m) : Handled s m src e (s, [])
  | media (hmethod : m.method = ascii "ACK") (hm : Mine s m) :
      Handled s m src e ({ s with mediaActive := true }, [])
  | bye (hmethod : m.method = ascii "BYE") (hm : Mine s m) (r : Response) (hr : Answers r m)
      (hstatus : r.status = 200) : Handled s m src e (endCall s, .response src r :: closing s)
  | cancel (hmethod : m.method = ascii "CANCEL") (hm : Mine s m) (ok r : Response)
      (hok : Answers ok m) (hstatus : ok.status = 200) (hr : Answers r m)
      (hterminated : r.status = 487) :
      Handled s m src e (endCall s, [.response src ok, .response src r] ++ closing s)
  | replayed (hmethod : m.method = ascii "INVITE") (hm : Mine s m) (ok : Response)
      (hok : s.lastOk = some ok) : Handled s m src e (s, [.response src ok])
  | busy (hmethod : m.method = ascii "INVITE") (hactive : s.callActive)
      (hm : Mine s m → s.lastOk = none) (r : Response) (hr : Answers r m)
      (hstatus : r.status = 486) : Handled s m src e (s, [.response src r])
  | noAudio (hmethod : m.method = ascii "INVITE") (hactive : s.callActive = false)
      (hport : (extractSdp m).port ≤ 0) (r : Response) (hr : Answers r m)
      (hstatus : r.status = 488) : Handled s m src e (s, [.response src r])
  | noSocket (hmethod : m.method = ascii "INVITE") (hactive : s.callActive = false)
      (hport : 0 < (extractSdp m).port) (hsocket : e.socketOk = false) (trying r : Response)
      (htrying : Answers trying m) (hprovisional : trying.status = 100) (hr : Answers r m)
      (hstatus : r.status = 500) :
      Handled s m src e (endCall s, [.response src trying, .response src r] ++ closing s)
  | noPort (hmethod : m.method = ascii "INVITE") (hactive : s.callActive = false)
      (hport : 0 < (extractSdp m).port) (hsocket : e.socketOk) (hbind : e.bindOk = false)
      (trying r : Response) (htrying : Answers trying m) (hprovisional : trying.status = 100)
      (hr : Answers r m) (hstatus : r.status = 500) :
      Handled s m src e
        (endCall s, [.response src trying, .opened .rtp, .response src r] ++
          closing { s with rtpFd := true })
  | noDaemon (hmethod : m.method = ascii "INVITE") (hactive : s.callActive = false)
      (hport : 0 < (extractSdp m).port) (hsocket : e.socketOk) (hbind : e.bindOk)
      (hdaemon : e.daemon = none) (trying r : Response) (htrying : Answers trying m)
      (hprovisional : trying.status = 100) (hr : Answers r m) (hstatus : r.status = 503) :
      Handled s m src e
        (endCall s, [.response src trying, .opened .rtp, .response src r] ++
          closing { s with rtpFd := true })
  | accepted (hmethod : m.method = ascii "INVITE") (hactive : s.callActive = false)
      (hport : 0 < (extractSdp m).port) (hsocket : e.socketOk) (hbind : e.bindOk)
      (daemon : Peer) (hdaemon : e.daemon = some daemon) (trying : Response)
      (htrying : Answers trying m) (hprovisional : trying.status = 100) :
      Handled s m src e
        (recordCall { s with rtpFd := true } m e daemon,
          [.response src trying, .opened .rtp, .opened .daemon] ++ openCaptures s e ++
            [.response src (okResponse s m e)])

variable {s : SmSip} {m : SipMsg} {src : SockAddr} {e : Env}

theorem setUpCall_handled (hmethod : m.method = ascii "INVITE") (hactive : s.callActive = false)
    (hport : 0 < (extractSdp m).port) : Handled s m src e (setUpCall s m src e) := by
  have answers (status reason tag) :
      Answers (buildResponse m status reason [] [] tag) m := buildResponse_answers ..
  rcases hsocket : e.socketOk with _ | _
  · have h : Handled s m src e _ := .noSocket hmethod hactive hport
      hsocket _ _ (answers 100 "Trying" (e.tag 0 0)) rfl
      (answers 500 "Server Internal Error" (e.tag 1 1)) rfl
    simpa [setUpCall, hsocket, refuse] using h
  rcases hbind : e.bindOk with _ | _
  · have h : Handled s m src e _ := .noPort hmethod hactive hport
      hsocket hbind _ _ (answers 100 "Trying" (e.tag 0 0)) rfl
      (answers 500 "Server Internal Error" (e.tag 1 1)) rfl
    simpa [setUpCall, hsocket, hbind, refuse, endCall] using h
  rcases hdaemon : e.daemon with _ | daemon
  · have h : Handled s m src e _ := .noDaemon hmethod hactive hport
      hsocket hbind hdaemon _ _ (answers 100 "Trying" (e.tag 0 0)) rfl
      (answers 503 "Service Unavailable" (e.tag 1 1)) rfl
    simpa [setUpCall, hsocket, hbind, hdaemon, refuse, endCall] using h
  · have h : Handled s m src e _ := .accepted hmethod hactive hport
      hsocket hbind daemon hdaemon _ (answers 100 "Trying" (e.tag 0 0)) rfl
    simpa [setUpCall, hsocket, hbind, hdaemon, openCaptures, okResponse] using h

theorem handleInvite_handled (hmethod : m.method = ascii "INVITE") :
    Handled s m src e (handleInvite s m src e) := by
  rcases hactive : s.callActive with _ | _
  · have hinvite : handleInvite s m src e =
        if (extractSdp m).port ≤ 0 then
          (s, [.response src (buildResponse m 488 "Not Acceptable Here" [] [] (e.tag 0 0))])
        else setUpCall s m src e := by
      simp [handleInvite, hactive]
    rw [hinvite]
    split
    · exact .noAudio hmethod hactive ‹_› _ (buildResponse_answers ..) rfl
    · exact setUpCall_handled hmethod hactive (by omega)
  · have hbusy (h : Mine s m → s.lastOk = none) :
        Handled s m src e
          (s, [.response src (buildResponse m 486 "Busy Here" [] [] (e.tag 0 0))]) :=
      .busy hmethod hactive h _ (buildResponse_answers ..) rfl
    rcases Decidable.em (s.callId = m.callId) with hid | hid
    · rcases hok : s.lastOk with _ | ok
      · simpa [handleInvite, hactive, hid, hok] using hbusy fun _ => hok
      · simpa [handleInvite, hactive, hid, hok] using
          Handled.replayed hmethod ⟨hactive, hid⟩ ok hok
    · simpa [handleInvite, hactive, hid] using hbusy fun h => absurd h.2 hid

theorem handleAck_handled (hmethod : m.method = ascii "ACK") :
    Handled s m src e (handleAck s m) := by
  unfold handleAck
  split
  next h => exact .media hmethod h
  next h => exact .ignored hmethod h

theorem handleBye_handled (hmethod : m.method = ascii "BYE") :
    Handled s m src e (handleBye s m src e) := by
  unfold handleBye
  split
  next h => exact .bye hmethod h _ (buildResponse_answers ..) rfl
  next h =>
    exact .answered _ (by rw [hmethod]; decide) (fun hm => absurd hm h)
      (buildResponse_answers ..) (.inl rfl)

theorem handleCancel_handled (hmethod : m.method = ascii "CANCEL") :
    Handled s m src e (handleCancel s m src e) := by
  unfold handleCancel
  split
  next h => exact .cancel hmethod h _ _ (buildResponse_answers ..) rfl ⟨rfl, rfl, rfl, rfl⟩ rfl
  next h =>
    exact .answered _ (by rw [hmethod]; decide) (fun hm => absurd hm h)
      (buildResponse_answers ..) (.inl rfl)

theorem handleRequest_handled (s : SmSip) (m : SipMsg) (src : SockAddr) (e : Env) :
    Handled s m src e (handleRequest s m src e) := by
  have fixed (method : Bytes) (r : Response) (h : m.method = method)
      (hm : method ≠ ascii "INVITE" ∧ method ≠ ascii "ACK" ∧ method ≠ ascii "BYE" ∧
        method ≠ ascii "CANCEL") (hr : Answers r m) (hstatus : r.status = 200) :
      Handled s m src e (s, [.response src r]) := by
    subst h
    exact .answered r ⟨hm.1, hm.2.1⟩ (fun _ => hm.2.2) hr (.inl hstatus)
  unfold handleRequest
  split
  next h => exact fixed _ _ h (by decide) (buildResponse_answers ..) rfl
  split
  next h => exact handleInvite_handled h
  next hinvite =>
    split
    next h => exact handleAck_handled h
    next hack =>
      split
      next h => exact handleBye_handled h
      next hbye =>
        split
        next h => exact handleCancel_handled h
        next hcancel =>
          split
          next h => exact fixed _ _ h (by decide) (buildResponse_answers ..) rfl
          exact .answered _ ⟨hinvite, hack⟩ (fun _ => ⟨hbye, hcancel⟩)
            (buildResponse_answers ..) (.inr rfl)

structure SameDialog (s s' : SmSip) : Prop where
  cfg : s'.cfg = s.cfg
  callActive : s'.callActive = s.callActive
  mediaActive : s'.mediaActive = s.mediaActive
  callId : s'.callId = s.callId
  toHdr : s'.toHdr = s.toHdr
  fromHdr : s'.fromHdr = s.fromHdr
  cseq : s'.cseq = s.cseq
  localSsrc : s'.localSsrc = s.localSsrc
  holds : s'.holds = s.holds
  lastOk : s'.lastOk = s.lastOk
  callsDone : s'.callsDone = s.callsDone
  tickNs : 1 ≤ s.tickNs ∧ s.tickNs ≤ smSipRtpMaxpay → 1 ≤ s'.tickNs ∧ s'.tickNs ≤ smSipRtpMaxpay

structure SameCall (s s' : SmSip) : Prop extends SameDialog s s' where
  rtpPeer : s'.rtpPeer = s.rtpPeer
  rtpPeerKnown : s'.rtpPeerKnown = s.rtpPeerKnown

theorem SameDialog.refl (s : SmSip) : SameDialog s s :=
  ⟨rfl, rfl, rfl, rfl, rfl, rfl, rfl, rfl, rfl, rfl, rfl, id⟩

theorem SameCall.refl (s : SmSip) : SameCall s s := ⟨.refl s, rfl, rfl⟩

theorem SameDialog.trans {s t u : SmSip} (h : SameDialog s t) (h' : SameDialog t u) :
    SameDialog s u where
  cfg := h'.cfg.trans h.cfg
  callActive := h'.callActive.trans h.callActive
  mediaActive := h'.mediaActive.trans h.mediaActive
  callId := h'.callId.trans h.callId
  toHdr := h'.toHdr.trans h.toHdr
  fromHdr := h'.fromHdr.trans h.fromHdr
  cseq := h'.cseq.trans h.cseq
  localSsrc := h'.localSsrc.trans h.localSsrc
  holds := h'.holds.trans h.holds
  lastOk := h'.lastOk.trans h.lastOk
  callsDone := h'.callsDone.trans h.callsDone
  tickNs := fun hs => h'.tickNs (h.tickNs hs)

theorem SameCall.trans {s t u : SmSip} (h : SameCall s t) (h' : SameCall t u) : SameCall s u :=
  ⟨h.toSameDialog.trans h'.toSameDialog, h'.rtpPeer.trans h.rtpPeer,
    h'.rtpPeerKnown.trans h.rtpPeerKnown⟩

theorem SameCall.bridge (s : SmSip) (as : SmAstSocket) (daemon : Peer) (written : List WriteCall)
    (seq : UInt16) (ts : UInt32) (tail underruns : Nat) (nextTick : Timespec) :
    SameCall s
      { s with
        daemonAs := as, daemon := daemon, written := written, rtpSeq := seq, rtpTs := ts, rxqTail := tail
        rxUnderruns := underruns, nextTick := nextTick } :=
  ⟨⟨rfl, rfl, rfl, rfl, rfl, rfl, rfl, rfl, rfl, rfl, rfl, id⟩, rfl, rfl⟩

theorem SameCall.queue (s : SmSip) (rxq : Nat → List Int) (head tail tickNs drops : Nat)
    (h : 1 ≤ tickNs ∧ tickNs ≤ smSipRtpMaxpay) :
    SameCall s
      { s with
        rxq := rxq, rxqHead := head, rxqTail := tail, tickNs := tickNs, rxDrops := drops } :=
  ⟨⟨rfl, rfl, rfl, rfl, rfl, rfl, rfl, rfl, rfl, rfl, rfl, fun _ => h⟩, rfl, rfl⟩

theorem enqueueRx_sameCall (s : SmSip) (pcm : List Int) : SameCall s (enqueueRx s pcm) := by
  simp only [enqueueRx]
  split
  · exact .refl s
  next hpcm =>
    have hlen : 1 ≤ (pcm.take smSipRtpMaxpay).length ∧
        (pcm.take smSipRtpMaxpay).length ≤ smSipRtpMaxpay :=
      ⟨List.length_pos_iff.mpr hpcm, List.length_take_le ..⟩
    split
    · exact .queue s _ _ _ _ _ hlen
    · exact .queue s _ _ _ _ _ hlen

theorem processRtp_sameCall (s : SmSip) (pkt : Bytes) : SameCall s (processRtp s pkt) := by
  unfold processRtp
  split
  · exact .refl s
  split
  · exact .refl s
  split
  · exact .refl s
  dsimp only
  split
  · exact .refl s
  split
  · exact .refl s
  split
  · exact .refl s
  · exact enqueueRx_sameCall ..

inductive Ticked (s : SmSip) (e : Env) : SmSip × List Action → Prop where
  | silent (s' : SmSip) (h : SameCall s s') : Ticked s e (s', [])
  | sent (s' : SmSip) (h : SameCall s s') (bytes : Bytes) :
      Ticked s e (s', [.rtp s.rtpPeer bytes])
  | hungUp (s' : SmSip) (h : SameCall s s') : Ticked s e (hangUp s' e)

theorem Ticked.of_sameCall {s t : SmSip} {e : Env} {r : SmSip × List Action}
    (ht : Ticked t e r) (h : SameCall s t) : Ticked s e r := by
  cases ht with
  | silent s' h' => exact .silent s' (h.trans h')
  | sent s' h' bytes => exact h.rtpPeer ▸ .sent s' (h.trans h') bytes
  | hungUp s' h' => exact .hungUp s' (h.trans h')

theorem readDaemon_sameCall (s : SmSip) : SameCall s (readDaemon s).2 := .bridge ..

theorem sendRtp_ticked (s : SmSip) (e : Env) (buf : Bytes) (plen : Nat) :
    Ticked s e (sendRtp s buf plen) := by
  apply Ticked.sent
  exact .bridge ..

theorem daemonReplies_ticked (e : Env) (left : Nat) (s : SmSip) :
    Ticked s e (daemonReplies e left s) := by
  induction left generalizing s with
  | zero => exact .silent s (.refl s)
  | succ left ih =>
      have hread := readDaemon_sameCall s
      unfold daemonReplies
      rcases hr : readDaemon s with ⟨r, s'⟩
      rw [hr] at hread
      rcases r with ⟨kind, payload, plen⟩ | stop
      · dsimp only
        split
        · exact (sendRtp_ticked ..).of_sameCall hread
        split
        · exact .hungUp s' hread
        · exact (ih s').of_sameCall hread
      · rcases stop
        · exact .silent s' hread
        · exact .hungUp s' hread

theorem feedDaemon_ticked (s : SmSip) (pcm : List Int) (e : Env) :
    Ticked s e (feedDaemon s pcm e) := by
  simp only [feedDaemon]
  split
  · exact .hungUp _ (.bridge ..)
  · exact (daemonReplies_ticked ..).of_sameCall (.bridge ..)

theorem audioTick_ticked (s : SmSip) (e : Env) : Ticked s e (audioTick s e) := by
  unfold audioTick
  split
  · exact (feedDaemon_ticked _ _ e).of_sameCall (.bridge ..)
  · exact (feedDaemon_ticked _ _ e).of_sameCall (.bridge ..)

theorem schedule_sameCall (s : SmSip) (now : Timespec) : SameCall s (schedule s now) := by
  simp only [schedule]
  split
  · exact .bridge ..
  · exact .bridge ..

inductive Turn (s : SipRun) (e : LoopEnv) : SipRun → Prop where
  | waited (stage : Stage) : Turn s e { s with stage := stage }
  | ended : Turn s e (s.act e.toEnv (hangUp s.server e.toEnv) .poll)
  | media (r : Received) (hrtp : s.server.rtpFd) : Turn s e (heardMedia s r e)
  | request (r : Received) (hr : r.bytes ≠ []) : Turn s e (heardRequest s r e)
  | ticked (now : Timespec) (hactive : s.server.callActive) (hknown : s.server.rtpPeerKnown) :
      Turn s e
        (s.act e.toEnv
          (schedule (audioTick s.server e.toEnv).1 e.now, (audioTick s.server e.toEnv).2)
          (.pump e.now))

theorem awake_turn (s : SipRun) (e : LoopEnv) : Turn s e (awake s e) := by
  unfold awake
  split
  · exact .ended
  split
  next r hr =>
    refine .media r ?_
    by_contra hfd
    simp [hfd] at hr
  split
  · split
    · exact .waited _
    · exact .request _ ‹_›
  · exact .waited _

theorem step_turn (maxCalls : Int) (s : SipRun) (e : LoopEnv) :
    Turn s e (step maxCalls s e) := by
  unfold step
  split
  · unfold pollTurn
    split
    · exact .waited _
    split
    · exact .waited s.stage
    · exact .waited _
    · exact awake_turn s e
  next now _ =>
    unfold pumpTurn
    split
    next h => exact .ticked now h.1 h.2.1
    · exact .waited _
  · exact .waited s.stage

structure Listens (maxCalls : Int) (s : SipRun) (e : LoopEnv) : Prop where
  stage : s.stage = .poll
  calls : ¬ (0 ≤ maxCalls ∧ maxCalls ≤ s.server.callsDone)
  poll : e.poll = .ready
  daemon : ¬ (s.server.daemonFd ∧ (e.daemonHup ∨ e.daemonEof))
  rtp : s.server.rtpFd → e.rtp = none

instance (maxCalls : Int) (s : SipRun) (e : LoopEnv) : Decidable (Listens maxCalls s e) :=
  decidable_of_iff
    (s.stage = .poll ∧ ¬ (0 ≤ maxCalls ∧ maxCalls ≤ s.server.callsDone) ∧ e.poll = .ready ∧
      ¬ (s.server.daemonFd ∧ (e.daemonHup ∨ e.daemonEof)) ∧ (s.server.rtpFd → e.rtp = none))
    ⟨fun ⟨h₁, h₂, h₃, h₄, h₅⟩ => ⟨h₁, h₂, h₃, h₄, h₅⟩,
      fun h => ⟨h.stage, h.calls, h.poll, h.daemon, h.rtp⟩⟩

def heard (maxCalls : Int) (s : SipRun) (e : LoopEnv) : Option Received :=
  if Listens maxCalls s e then e.sip.filter fun r => r.bytes ≠ [] else none

theorem awake_heard {s : SipRun} {e : LoopEnv}
    (hdaemon : ¬ (s.server.daemonFd ∧ (e.daemonHup ∨ e.daemonEof)))
    (hrtp : s.server.rtpFd → e.rtp = none) :
    awake s e =
      match e.sip.filter fun r => r.bytes ≠ [] with
      | some r => heardRequest s r e
      | none => { s with stage := pumpStage s.server e.now } := by
  have hnone : (if s.server.rtpFd then e.rtp else none) = none := by
    split
    · exact hrtp ‹_›
    · rfl
  unfold awake
  rw [if_neg hdaemon, hnone]
  rcases e.sip with _ | r
  · rfl
  · rcases Decidable.em (r.bytes = []) with hr | hr
    · simp [hr, Option.filter]
    · simp [hr, Option.filter]

theorem step_heard {maxCalls : Int} {s : SipRun} {e : LoopEnv} {r : Received}
    (h : heard maxCalls s e = some r) : step maxCalls s e = heardRequest s r e := by
  unfold heard at h
  split at h
  next hl =>
    simp only [step, hl.stage, pollTurn, if_neg hl.calls, hl.poll]
    rw [awake_heard hl.daemon hl.rtp, h]
  · simp at h

theorem step_unheard {maxCalls : Int} {s : SipRun} {e : LoopEnv}
    (h : heard maxCalls s e = none) : (step maxCalls s e).exchanges = s.exchanges := by
  rcases hstage : s.stage with _ | now | rc
  · simp only [step, hstage, pollTurn]
    split
    · rfl
    next hcalls =>
      split
      · rfl
      · rfl
      next hpoll =>
        rcases Decidable.em (s.server.daemonFd ∧ (e.daemonHup ∨ e.daemonEof)) with hd | hd
        · simp [awake, hd, SipRun.act]
        rcases Decidable.em (s.server.rtpFd → e.rtp = none) with hrtp | hrtp
        · have hl : Listens maxCalls s e := ⟨hstage, hcalls, hpoll, hd, hrtp⟩
          rw [heard, if_pos hl] at h
          rw [awake_heard hd hrtp, h]
        · obtain ⟨hfd, hne⟩ := Classical.not_imp.mp hrtp
          obtain ⟨r, hr⟩ := Option.ne_none_iff_exists'.mp hne
          simp [awake, hd, hfd, hr, heardMedia]
  · simp only [step, hstage, pumpTurn]
    split
    · rfl
    · rfl
  · simp [step, hstage]

theorem smSipRun_invariant {maxCalls : Int} {P : SipRun → Prop}
    (hstep : ∀ s e s', P s → Turn s e s' → P s') (es : List LoopEnv) {s : SipRun} (h : P s) :
    P (smSipRun maxCalls s es) :=
  Transition.run_invariant (fun s e hs => hstep s e _ hs (step_turn maxCalls s e)) es h

end Softmodem.Sip

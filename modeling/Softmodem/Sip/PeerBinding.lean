import Softmodem.Sip.RxQueue

namespace Softmodem.Sip

open CString Transition

theorem Enqueues.queued {s s' : SmSip} {frame : List Int} (h : Enqueues s frame s')
    (hs : InRing s) : InRing s' ∧ queued s' <:+ queued s ++ [frame] := by
  obtain ⟨hring, hqueued⟩ := h.queued_eq hs
  refine ⟨hring, ?_⟩
  rw [hqueued]
  split
  · exact ⟨[], rfl⟩
  · exact List.tail_suffix _

theorem Popped.queued {s t : SmSip} (h : Popped s t) (hs : InRing s) :
    InRing t ∧ queued t <:+ queued s := by
  obtain ⟨hring, hqueued⟩ := h.queued_eq hs
  exact ⟨hring, hqueued ▸ List.tail_suffix _⟩

-- What recvfrom leaves of a datagram in the 2048 bytes of pkt.
def Received.packet (r : Received) : Bytes := r.bytes.take 2048

structure RtpReady (maxCalls : Int) (s : SipRun) (e : LoopEnv) : Prop where
  stage : s.stage = .poll
  calls : ¬ (0 ≤ maxCalls ∧ maxCalls ≤ s.server.callsDone)
  poll : e.poll = .ready
  daemon : ¬ (s.server.daemonFd ∧ (e.daemonHup ∨ e.daemonEof))
  rtp : s.server.rtpFd

instance (maxCalls : Int) (s : SipRun) (e : LoopEnv) : Decidable (RtpReady maxCalls s e) :=
  decidable_of_iff
    (s.stage = .poll ∧ ¬ (0 ≤ maxCalls ∧ maxCalls ≤ s.server.callsDone) ∧ e.poll = .ready ∧
      ¬ (s.server.daemonFd ∧ (e.daemonHup ∨ e.daemonEof)) ∧ s.server.rtpFd)
    ⟨fun ⟨h₁, h₂, h₃, h₄, h₅⟩ => ⟨h₁, h₂, h₃, h₄, h₅⟩,
      fun h => ⟨h.stage, h.calls, h.poll, h.daemon, h.rtp⟩⟩

-- The datagram that one wake-up takes from the RTP port.
def rtpHeard (maxCalls : Int) (s : SipRun) (e : LoopEnv) : Option Received :=
  if RtpReady maxCalls s e then e.rtp.filter fun r => r.bytes ≠ [] else none

def callRtp (maxCalls : Int) (s : SipRun) (es : List LoopEnv) : List Received :=
  expand (step maxCalls) (fun s e => (rtpHeard maxCalls s e).toList) s es

theorem awake_rtp {s : SipRun} {e : LoopEnv} {r : Received}
    (hdaemon : ¬ (s.server.daemonFd ∧ (e.daemonHup ∨ e.daemonEof))) (hrtp : s.server.rtpFd)
    (hr : e.rtp = some r) : awake s e = heardMedia s r e := by
  rw [awake, if_neg hdaemon, if_pos hrtp, hr]

theorem step_rtpHeard {maxCalls : Int} {s : SipRun} {e : LoopEnv} {r : Received}
    (h : rtpHeard maxCalls s e = some r) :
    r.bytes ≠ [] ∧ step maxCalls s e = heardMedia s r e := by
  rw [rtpHeard] at h
  split at h
  · next hready =>
      obtain ⟨hr, hne⟩ := Option.filter_eq_some_iff.mp h
      refine ⟨of_decide_eq_true hne, ?_⟩
      rw [step, hready.stage]
      dsimp only
      rw [pollTurn, if_neg hready.calls, hready.poll]
      exact awake_rtp hready.daemon hready.rtp hr
  · simp at h

-- A step that hears nothing from the RTP port leaves the peer and the queue to the audio clock.
inductive Aside (s : SipRun) (e : LoopEnv) : SipRun → Prop
  | same (s' : SipRun) (hserver : s'.server = s.server) (hlog : s'.log = s.log) : Aside s e s'
  | ended : Aside s e (s.act e.toEnv (hangUp s.server e.toEnv) .poll)
  | request (r : Received) : Aside s e (heardRequest s r e)
  | ticked (hknown : s.server.rtpPeerKnown) :
      Aside s e
        (s.act e.toEnv
          (schedule (audioTick s.server e.toEnv).1 e.now, (audioTick s.server e.toEnv).2)
          (.pump e.now))

theorem heardMedia_empty (s : SipRun) {r : Received} (h : r.bytes = []) (e : LoopEnv) :
    Aside s e (heardMedia s r e) := by
  refine .same _ ?_ rfl
  have hsame : receiveRtp s.server r e.firstPacket = s.server := by
    rw [receiveRtp, h]
    exact if_neg fun hne => hne.1 rfl
  exact hsame

theorem awake_aside {s : SipRun} {e : LoopEnv}
    (h : ¬ (s.server.daemonFd ∧ (e.daemonHup ∨ e.daemonEof)) → s.server.rtpFd →
      e.rtp.filter (fun r => r.bytes ≠ []) = none) : Aside s e (awake s e) := by
  rw [awake]
  split
  · exact .ended
  next hdaemon =>
    split
    · next r hr =>
        split at hr
        · next hrtp =>
            have hfilter := h hdaemon hrtp
            rw [hr] at hfilter
            apply heardMedia_empty
            by_contra hne
            simp [Option.filter, hne] at hfilter
        · simp at hr
    · split
      · split
        · exact .same _ rfl rfl
        · exact .request _
      · exact .same _ rfl rfl

theorem step_aside {maxCalls : Int} {s : SipRun} {e : LoopEnv}
    (h : rtpHeard maxCalls s e = none) : Aside s e (step maxCalls s e) := by
  rw [step]
  split
  · next hstage =>
      rw [pollTurn]
      split
      · exact .same _ rfl rfl
      next hcalls =>
        split
        · exact .same _ rfl rfl
        · exact .same _ rfl rfl
        next hpoll =>
          refine awake_aside fun hdaemon hrtp => ?_
          rwa [rtpHeard, if_pos ⟨hstage, hcalls, hpoll, hdaemon, hrtp⟩] at h
  · rw [pumpTurn]
    split
    · next h => exact .ticked h.2.1
    · exact .same _ rfl rfl
  · exact .same _ rfl rfl

theorem bindPeer_enqueues {s s' : SmSip} {src : SockAddr} {now : Timespec} {frame : List Int} :
    Enqueues (bindPeer s src now) frame s' ↔ Enqueues s frame s' := by
  rw [bindPeer]
  split
  · exact Iff.rfl
  · constructor
    · rintro ⟨hroom, hslot, hrest⟩
      exact ⟨hroom, hslot, hrest⟩
    · rintro ⟨hroom, hslot, hrest⟩
      exact ⟨hroom, hslot, hrest⟩

theorem receiveRtp_active {s : SmSip} (hactive : s.callActive) {r : Received} (hr : r.bytes ≠ [])
    (now : Timespec) : receiveRtp s r now = processRtp (bindPeer s r.src now) r.packet := by
  have hpacket : r.bytes.take 2048 ≠ [] := by
    rw [ne_eq, List.take_eq_nil_iff, not_or]
    exact ⟨by decide, hr⟩
  rw [receiveRtp]
  exact if_pos ⟨hpacket, hactive⟩

def Contributes (maxCalls : Int) (s : SipRun) (e : LoopEnv) : Prop :=
  ∃ frame, Enqueues s.server frame (step maxCalls s e).server

theorem contributes_iff {maxCalls : Int} {s : SipRun} (hactive : s.server.callActive)
    {e : LoopEnv} {r : Received} (h : rtpHeard maxCalls s e = some r) :
    Contributes maxCalls s e ↔ ValidPcmu r.packet := by
  obtain ⟨hr, hstep⟩ := step_rtpHeard h
  have hserver : (step maxCalls s e).server =
      processRtp (bindPeer s.server r.src e.firstPacket) r.packet := by
    rw [hstep]
    exact receiveRtp_active hactive hr e.firstPacket
  rw [Contributes, hserver,
    ← processRtp_enqueues_iff (bindPeer s.server r.src e.firstPacket) r.packet]
  exact exists_congr fun _ => bindPeer_enqueues.symm

def validFrames (heard : List Received) : List (List Int) :=
  (heard.filter fun r => ValidPcmu r.packet).map fun r => pcmuFrame r.packet

-- The peer and the queue after the datagrams heard so far in the call.
structure Bound (earlier : List Action) (heard : List Received) (s : SipRun) : Prop where
  peer : s.server.rtpPeerKnown → ∃ r ∈ heard.head?, s.server.rtpPeer = r.src
  known : s.server.callActive → heard ≠ [] → s.server.rtpPeerKnown
  sent : ∃ sent, s.log = earlier ++ sent ∧
    ∀ dest pkt, .rtp dest pkt ∈ sent → ∃ r ∈ heard.head?, dest = r.src
  ring : InRing s.server
  queue : queued s.server <:+ validFrames heard

theorem schedule_keepsQueue (s : SmSip) (now : Timespec) : KeepsQueue s (schedule s now) := by
  rw [schedule]
  dsimp only
  split
  · exact ⟨rfl, rfl, rfl, rfl, rfl, rfl⟩
  · exact ⟨rfl, rfl, rfl, rfl, rfl, rfl⟩

theorem schedule_over (s : SmSip) (now : Timespec) :
    ∃ t, schedule (endCall s) now = endCall t := by
  rw [schedule]
  dsimp only
  split
  · exact ⟨{ s with nextTick := tsAddMs now 20 }, rfl⟩
  · exact ⟨{ s with nextTick := tsAddMs s.nextTick 20 }, rfl⟩

section Bound

variable {earlier : List Action} {heard : List Received} {s : SipRun}

theorem Bound.over (h : Bound earlier heard s) {s' : SipRun} {t : SmSip}
    (hserver : s'.server = endCall t) {actions : List Action} (hlog : s'.log = s.log ++ actions)
    (hquiet : ∀ dest pkt, .rtp dest pkt ∉ actions) : Bound earlier heard s' where
  peer hknown := by simp [hserver, endCall] at hknown
  known hactive := by simp [hserver, endCall] at hactive
  sent := by
    obtain ⟨sent, hsent, hdest⟩ := h.sent
    refine ⟨sent ++ actions, by rw [hlog, hsent, List.append_assoc], fun dest pkt hmem => ?_⟩
    rcases List.mem_append.mp hmem with hmem | hmem
    · exact hdest dest pkt hmem
    · exact absurd hmem (hquiet dest pkt)
  ring := by
    rw [hserver]
    exact inRing_over t
  queue := by
    rw [hserver, queued_over]
    exact List.nil_suffix

theorem Bound.kept (h : Bound earlier heard s) {s' : SipRun} (hactive : s.server.callActive)
    (hpeer : s'.server.rtpPeer = s.server.rtpPeer)
    (hknown : s'.server.rtpPeerKnown = s.server.rtpPeerKnown) {actions : List Action}
    (hlog : s'.log = s.log ++ actions)
    (hdest : ∀ dest pkt, .rtp dest pkt ∈ actions →
      s.server.rtpPeerKnown ∧ dest = s.server.rtpPeer)
    (hring : InRing s'.server) (hqueue : queued s'.server <:+ queued s.server) :
    Bound earlier heard s' where
  peer hk := by
    rw [hpeer]
    exact h.peer (hknown ▸ hk)
  known _ hne := hknown ▸ h.known hactive hne
  sent := by
    obtain ⟨sent, hsent, hall⟩ := h.sent
    refine ⟨sent ++ actions, by rw [hlog, hsent, List.append_assoc], fun dest pkt hmem => ?_⟩
    rcases List.mem_append.mp hmem with hmem | hmem
    · exact hall dest pkt hmem
    · obtain ⟨hk, rfl⟩ := hdest dest pkt hmem
      exact h.peer hk
  ring := hring
  queue := hqueue.trans h.queue

theorem validFrames_valid (heard : List Received) {r : Received} (h : ValidPcmu r.packet) :
    validFrames (heard ++ [r]) = validFrames heard ++ [pcmuFrame r.packet] := by
  simp [validFrames, h]

theorem validFrames_invalid (heard : List Received) {r : Received} (h : ¬ ValidPcmu r.packet) :
    validFrames (heard ++ [r]) = validFrames heard := by
  simp [validFrames, h]

theorem bindPeer_keeps (s : SmSip) (src : SockAddr) (now : Timespec) :
    (bindPeer s src now).callActive = s.callActive ∧ (bindPeer s src now).rtpPeerKnown ∧
      (bindPeer s src now).rtpPeer = if s.rtpPeerKnown then s.rtpPeer else src := by
  rw [bindPeer]
  split
  · next h => exact ⟨rfl, h, rfl⟩
  · exact ⟨rfl, rfl, rfl⟩

theorem bindPeer_queued (s : SmSip) (src : SockAddr) (now : Timespec) :
    queued (bindPeer s src now) = queued s ∧
      (InRing s → InRing (bindPeer s src now)) := by
  rw [bindPeer]
  split
  · exact ⟨rfl, id⟩
  · refine ⟨rfl, ?_⟩
    rintro ⟨hhead, htail⟩
    exact ⟨hhead, htail⟩

theorem processRtp_queued {t : SmSip} (hring : InRing t) {r : Received}
    (hqueue : queued t <:+ validFrames heard) :
    InRing (processRtp t r.packet) ∧
      queued (processRtp t r.packet) <:+ validFrames (heard ++ [r]) := by
  rcases Decidable.em (ValidPcmu r.packet) with hvalid | hvalid
  · obtain ⟨hring', hsuffix⟩ := (processRtp_enqueues t hvalid).queued hring
    refine ⟨hring', hsuffix.trans ?_⟩
    rw [validFrames_valid heard hvalid]
    obtain ⟨front, hfront⟩ := hqueue
    exact ⟨front, by rw [← hfront, List.append_assoc]⟩
  · rw [processRtp_invalid hvalid, validFrames_invalid heard hvalid]
    exact ⟨hring, hqueue⟩

theorem Bound.hear (h : Bound earlier heard s) (hactive : s.server.callActive) {r : Received}
    (hr : r.bytes ≠ []) (e : LoopEnv) : Bound earlier (heard ++ [r]) (heardMedia s r e) := by
  have hserver : (heardMedia s r e).server =
      processRtp (bindPeer s.server r.src e.firstPacket) r.packet :=
    receiveRtp_active hactive hr e.firstPacket
  have hsame := processRtp_sameCall (bindPeer s.server r.src e.firstPacket) r.packet
  obtain ⟨hup, hknown, hpeer⟩ := bindPeer_keeps s.server r.src e.firstPacket
  obtain ⟨hqueued, hring⟩ := bindPeer_queued s.server r.src e.firstPacket
  have hfirst : ∀ q ∈ heard.head?, q ∈ (heard ++ [r]).head? := by
    intro q hq
    rw [List.head?_append, hq]
    rfl
  constructor
  · intro _
    rw [hserver, hsame.rtpPeer, hpeer]
    split
    · next hbefore =>
        obtain ⟨q, hq, heq⟩ := h.peer hbefore
        exact ⟨q, hfirst q hq, heq⟩
    · next hbefore =>
        have hnone : heard = [] := by
          by_contra hne
          exact hbefore (h.known hactive hne)
        exact ⟨r, by rw [hnone]; rfl, rfl⟩
  · intro _ _
    rw [hserver, hsame.rtpPeerKnown]
    exact hknown
  · obtain ⟨sent, hsent, hdest⟩ := h.sent
    refine ⟨sent, hsent, fun dest pkt hmem => ?_⟩
    obtain ⟨q, hq, heq⟩ := hdest dest pkt hmem
    exact ⟨q, hfirst q hq, heq⟩
  · rw [hserver]
    exact (processRtp_queued (hring h.ring) (hqueued ▸ h.queue)).1
  · rw [hserver]
    exact (processRtp_queued (hring h.ring) (hqueued ▸ h.queue)).2

theorem Bound.request (h : Bound earlier heard s) (hactive : s.server.callActive) (r : Received)
    (e : LoopEnv) : Bound earlier heard (heardRequest s r e) := by
  have hlog : (heardRequest s r e).log =
      s.log ++ (receiveSip s.server r.src e.toEnv (recvInto s.buf r e.line)).2 := rfl
  have hserver := heardRequest_server s r e
  rcases receiveSip_cases s.server r.src e.toEnv (recvInto s.buf r e.line) with
    ⟨-, hr⟩ | ⟨-, hhandled⟩
  · rw [hr] at hlog hserver
    refine h.kept hactive ?_ ?_ hlog (by simp) ?_ ?_
    · rw [hserver]
    · rw [hserver]
    · rw [hserver]
      exact h.ring
    · exact hserver ▸ List.suffix_refl _
  · rcases hhandled.keepsQueue hactive with hkeeps | ⟨t, hover⟩
    · rw [← hserver] at hkeeps
      obtain ⟨hring, hqueued⟩ := hkeeps.queued h.ring
      refine h.kept hactive hkeeps.rtpPeer hkeeps.rtpPeerKnown hlog ?_ hring ?_
      · intro dest pkt hmem
        exact absurd hmem (hhandled.no_rtp dest pkt)
      · exact hqueued ▸ List.suffix_refl _
    · exact h.over (hserver.trans hover) hlog hhandled.no_rtp

theorem Bound.ticked (h : Bound earlier heard s) (hactive : s.server.callActive)
    (hknown : s.server.rtpPeerKnown) {t : SmSip} (hpopped : Popped s.server t)
    {result : SmSip × List Action} (hfed : Fed t result) (e : Env) (now : Timespec)
    (stage : Stage) : Bound earlier heard (s.act e (schedule result.1 now, result.2) stage) := by
  obtain ⟨hpeer, hk⟩ : t.rtpPeer = s.server.rtpPeer ∧ t.rtpPeerKnown = s.server.rtpPeerKnown := by
    cases hpopped with
    | frame => exact ⟨rfl, rfl⟩
    | silence => exact ⟨rfl, rfl⟩
  obtain ⟨hring, hqueue⟩ := hpopped.queued h.ring
  have kept {s' : SmSip} (hkeeps : KeepsQueue t s') (actions : List Action)
      (hdest : ∀ dest pkt, .rtp dest pkt ∈ actions → dest = t.rtpPeer) :
      Bound earlier heard (s.act e (schedule s' now, actions) stage) := by
    have hall := hkeeps.trans (schedule_keepsQueue s' now)
    obtain ⟨hring', hqueued⟩ := hall.queued hring
    refine h.kept hactive (hall.rtpPeer.trans hpeer) (hall.rtpPeerKnown.trans hk) rfl ?_ hring' ?_
    · intro dest pkt hmem
      exact ⟨hknown, (hdest dest pkt hmem).trans hpeer⟩
    · exact hqueued ▸ hqueue
  cases hfed with
  | silent s' hkeeps => exact kept hkeeps [] (by simp)
  | packet s' hkeeps => exact kept hkeeps _ (by simp)
  | hungUp t' actions hquiet =>
      obtain ⟨t'', hover⟩ := schedule_over t' now
      exact h.over hover rfl hquiet

theorem Aside.bound {s' : SipRun} {e : LoopEnv} (ha : Aside s e s') (h : Bound earlier heard s)
    (hactive : s.server.callActive) : Bound earlier heard s' := by
  cases ha with
  | same s' hserver hlog =>
      refine h.kept hactive ?_ ?_ (hlog.trans (List.append_nil _).symm) (by simp) ?_ ?_
      · rw [hserver]
      · rw [hserver]
      · rw [hserver]
        exact h.ring
      · exact hserver ▸ List.suffix_refl _
  | ended => exact h.over rfl rfl (hangUp_no_rtp s.server e.toEnv)
  | request r => exact h.request hactive r e
  | ticked hknown =>
      obtain ⟨t, hpopped, hfed⟩ := audioTick_fed s.server e.toEnv
      exact h.ticked hactive hknown hpopped hfed e.toEnv e.now (.pump e.now)

end Bound

theorem step_bound {maxCalls : Int} {earlier : List Action} {heard : List Received} {s : SipRun}
    (h : Bound earlier heard s) (hactive : s.server.callActive) (e : LoopEnv) :
    Bound earlier (heard ++ (rtpHeard maxCalls s e).toList) (step maxCalls s e) := by
  rcases hr : rtpHeard maxCalls s e with _ | r
  · rw [Option.toList_none, List.append_nil]
    exact (step_aside hr).bound h hactive
  · obtain ⟨hne, hstep⟩ := step_rtpHeard hr
    rw [hstep]
    exact h.hear hactive hne e

theorem run_bound {maxCalls : Int} {earlier : List Action} {heard : List Received} {s : SipRun}
    (h : Bound earlier heard s) (es : List LoopEnv)
    (hcall : Along (step maxCalls) (fun s _ => s.server.callActive) s es) :
    Bound earlier (heard ++ callRtp maxCalls s es) (smSipRun maxCalls s es) := by
  have hstep (heard : List Received) (s : SipRun) (e : LoopEnv) (h : Bound earlier heard s)
      (hactive : s.server.callActive) :
      Bound earlier (heard ++ (rtpHeard maxCalls s e).toList) (step maxCalls s e) :=
    step_bound h hactive e
  exact expand_invariant hstep h hcall

theorem setUp_bound {maxCalls : Int} {s : SipRun} {e : LoopEnv}
    (hidle : s.server.callActive = false) (hup : (step maxCalls s e).server.callActive) :
    Bound (step maxCalls s e).log [] (step maxCalls s e) := by
  obtain ⟨t, m, daemon, hserver⟩ := (step_turn maxCalls s e).setsUp hidle hup
  have hempty : queued (recordCall t m e.toEnv daemon) = [] := by simp [queued, recordCall]
  refine ⟨?_, ?_, ⟨[], (List.append_nil _).symm, by simp⟩, ?_, ?_⟩
  · intro h
    rw [hserver] at h
    exact absurd h Bool.false_ne_true
  · intro _ hne
    exact absurd rfl hne
  · rw [hserver]
    exact ⟨Nat.mod_lt 0 (by decide), Nat.mod_lt 0 (by decide)⟩
  · rw [hserver, hempty]
    exact List.nil_suffix

-- Audio goes to the source of `binder`, and only the packets that `contributes` names are queued.
structure PeerBound (maxCalls : Int) (s : SipRun) (es : List LoopEnv) (binder : Option Received)
    (contributes : Received → Prop) : Prop where
  peer : (smSipRun maxCalls s es).server.rtpPeerKnown →
    ∃ r ∈ binder, (smSipRun maxCalls s es).server.rtpPeer = r.src
  audio : ∀ dest pkt, .rtp dest pkt ∈ (smSipRun maxCalls s es).log.drop s.log.length →
    ∃ r ∈ binder, dest = r.src
  sources : Along (step maxCalls)
    (fun s e => ∀ r ∈ rtpHeard maxCalls s e, Contributes maxCalls s e → contributes r) s es
  frames : ∀ f ∈ queued (smSipRun maxCalls s es).server,
    ∃ r ∈ callRtp maxCalls s es, contributes r ∧ f = pcmuFrame r.packet

theorem first_datagram_binds_the_peer (maxCalls : Int) (s : SipRun) (e : LoopEnv)
    (es : List LoopEnv) (hidle : s.server.callActive = false)
    (hup : (step maxCalls s e).server.callActive)
    (hcall : Along (step maxCalls) (fun s _ => s.server.callActive) (step maxCalls s e) es) :
    let call := step maxCalls s e
    PeerBound maxCalls call es (callRtp maxCalls call es).head? (fun r => ValidPcmu r.packet) ∧
      Along (step maxCalls)
        (fun s e => ∀ r ∈ rtpHeard maxCalls s e, ValidPcmu r.packet → Contributes maxCalls s e)
        call es ∧
      ((smSipRun maxCalls call es).server.callActive → callRtp maxCalls call es ≠ [] →
        (smSipRun maxCalls call es).server.rtpPeerKnown) := by
  intro call
  have hbound : Bound call.log ([] ++ callRtp maxCalls call es) (smSipRun maxCalls call es) :=
    run_bound (setUp_bound hidle hup) es hcall
  rw [List.nil_append] at hbound
  have hsteps : Along (step maxCalls) (fun s e => ∀ r ∈ rtpHeard maxCalls s e,
      (Contributes maxCalls s e ↔ ValidPcmu r.packet)) call es :=
    along_imp (fun _ _ hactive _ hr => contributes_iff hactive hr) hcall
  refine ⟨⟨hbound.peer, ?_, ?_, ?_⟩, ?_, hbound.known⟩
  · obtain ⟨sent, hlog, hdest⟩ := hbound.sent
    rw [hlog, List.drop_left]
    exact hdest
  · exact along_imp (fun _ _ h r hr => (h r hr).mp) hsteps
  · intro f hf
    obtain ⟨r, hr, rfl⟩ := List.mem_map.mp (hbound.queue.subset hf)
    obtain ⟨hheard, hvalid⟩ := List.mem_filter.mp hr
    exact ⟨r, hheard, of_decide_eq_true hvalid, rfl⟩
  · exact along_imp (fun _ _ h r hr => (h r hr).mpr) hsteps

def stranger : SockAddr := ⟨0xC0A80063, 9⟩

def strayDatagram : LoopEnv := { quietWake with rtp := some ⟨[0x16, 0x03], stranger⟩ }

def strangerPacket : LoopEnv :=
  { quietWake with rtp := some ⟨0x80 :: List.replicate 15 0, stranger⟩ }

def ataCall : SipRun := step (-1) (start ataConfig ataBuffer) (ataInvite "1")

def strangerWakes : List LoopEnv := [ataPacket, quietWake, strangerPacket]

theorem stranger_is_queued :
    (queued (smSipRun (-1) ataCall strangerWakes).server).length = 2 ∧
      PeerBound (-1) ataCall strangerWakes (callRtp (-1) ataCall strangerWakes).head?
        (fun r => ValidPcmu r.packet) := by
  obtain ⟨hup, hcall, hlength⟩ : ataCall.server.callActive ∧
      Along (step (-1)) (fun s _ => s.server.callActive) ataCall strangerWakes ∧
      (queued (smSipRun (-1) ataCall strangerWakes).server).length = 2 := by
    decide +kernel
  exact ⟨hlength, (first_datagram_binds_the_peer (-1) (start ataConfig ataBuffer)
    (ataInvite "1") strangerWakes rfl hup hcall).1⟩

def strayWakes : List LoopEnv := [strayDatagram, quietWake, ataPacket]

def firstValid : Option Received :=
  (callRtp (-1) ataCall strayWakes).find? fun r => ValidPcmu r.packet

theorem stray_datagram_takes_the_audio :
    ¬ ∀ (maxCalls : Int) (s : SipRun) (e : LoopEnv) (es : List LoopEnv),
      s.server.callActive = false → (step maxCalls s e).server.callActive →
        Along (step maxCalls) (fun s _ => s.server.callActive) (step maxCalls s e) es →
          let call := step maxCalls s e
          let first := (callRtp maxCalls call es).find? fun r => ValidPcmu r.packet
          PeerBound maxCalls call es first fun r => ∃ q ∈ first, r.src = q.src := by
  intro h
  obtain ⟨hup, hcall, hknown, hfirst, hstranger⟩ : ataCall.server.callActive ∧
      Along (step (-1)) (fun s _ => s.server.callActive) ataCall strayWakes ∧
      (smSipRun (-1) ataCall strayWakes).server.rtpPeerKnown ∧
      firstValid.map Received.src = some ataMedia ∧
      (smSipRun (-1) ataCall strayWakes).server.rtpPeer = stranger := by
    decide +kernel
  have hbound : PeerBound (-1) ataCall strayWakes firstValid
      fun r => ∃ q ∈ firstValid, r.src = q.src :=
    h (-1) (start ataConfig ataBuffer) (ataInvite "1") strayWakes rfl hup hcall
  obtain ⟨r, hr, hpeer⟩ := hbound.peer hknown
  rw [Option.mem_def.mp hr, Option.map_some, Option.some.injEq] at hfirst
  exact absurd (hstranger.symm.trans (hpeer.trans hfirst)) (by decide)

end Softmodem.Sip

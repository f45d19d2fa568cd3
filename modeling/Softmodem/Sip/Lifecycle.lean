import Softmodem.Lib.Ledger
import Softmodem.Sip.Steps

namespace Softmodem.Sip

open CString Ledger

structure Idle (s : SmSip) : Prop where
  callActive : s.callActive = false
  holds : ∀ d, s.holds d = false
  rtpPeerKnown : s.rtpPeerKnown = false
  mediaActive : s.mediaActive = false
  rxq : s.rxqHead = s.rxqTail
  lastOk : s.lastOk = none

structure SetUp (s : SmSip) : Prop where
  callActive : s.callActive
  rtpFd : s.rtpFd
  daemonFd : s.daemonFd
  lastOk : ∃ ok, s.lastOk = some ok ∧ 0 < ok.render.length
  tickNs : 1 ≤ s.tickNs ∧ s.tickNs ≤ smSipRtpMaxpay

def IdleOrSetUp (s : SmSip) : Prop := Idle s ∨ SetUp s

theorem IdleOrSetUp.idle {s : SmSip} (h : IdleOrSetUp s) (hs : s.callActive = false) : Idle s :=
  h.resolve_right fun hup => by simp [hup.callActive] at hs

theorem IdleOrSetUp.setUp {s : SmSip} (h : IdleOrSetUp s) (hs : s.callActive) : SetUp s :=
  h.resolve_left fun hidle => by simp [hidle.callActive] at hs

theorem smSipCreate_idle (cfg : SmSipConfig) : Idle (smSipCreate cfg) :=
  ⟨rfl, fun d => by cases d <;> rfl, rfl, rfl, rfl, rfl⟩

theorem endCall_idle (s : SmSip) : Idle (endCall s) :=
  ⟨rfl, fun d => by cases d <;> rfl, rfl, rfl, rfl, rfl⟩

theorem render_pos (r : Response) : 0 < r.render.length := by
  simp [Response.render, ascii]

theorem recordCall_setUp (s : SmSip) (m : SipMsg) (e : Env) (daemon : AudioSocket.Peer)
    (hrtp : s.rtpFd) : SetUp (recordCall s m e daemon) :=
  ⟨rfl, hrtp, rfl, ⟨_, rfl, render_pos _⟩, by simp [recordCall, smSipRtpMaxpay]⟩

theorem Handled.idleOrSetUp {s : SmSip} {m : SipMsg} {src : SockAddr} {e : Env}
    {r : SmSip × List Action} (h : Handled s m src e r) (hs : IdleOrSetUp s) :
    IdleOrSetUp r.1 := by
  cases h with
  | answered | ignored | replayed | busy | noAudio => exact hs
  | media _ hm =>
      have hup := hs.setUp hm.1
      exact .inr ⟨hup.callActive, hup.rtpFd, hup.daemonFd, hup.lastOk, hup.tickNs⟩
  | bye | cancel | noSocket | noPort | noDaemon => exact .inl (endCall_idle _)
  | accepted => exact .inr (recordCall_setUp _ _ _ _ rfl)

theorem SameDialog.setUp {s s' : SmSip} (h : SameDialog s s') (hs : SetUp s) : SetUp s' where
  callActive := h.callActive ▸ hs.callActive
  rtpFd := (congrFun h.holds .rtp).trans hs.rtpFd
  daemonFd := (congrFun h.holds .daemon).trans hs.daemonFd
  lastOk := h.lastOk ▸ hs.lastOk
  tickNs := h.tickNs hs.tickNs

theorem receiveRtp_sameDialog (s : SmSip) (r : Received) (now : Timespec) :
    SameDialog s (receiveRtp s r now) := by
  have hbind : SameDialog s (bindPeer s r.src now) := by
    unfold bindPeer
    split
    · exact .refl s
    · exact ⟨rfl, rfl, rfl, rfl, rfl, rfl, rfl, rfl, rfl, rfl, rfl, id⟩
  simp only [receiveRtp]
  split
  · exact hbind.trans (processRtp_sameCall ..).toSameDialog
  · exact .refl s

theorem Ticked.idleOrSetUp {s : SmSip} {e : Env} {r : SmSip × List Action}
    (h : Ticked s e r) (hs : SetUp s) : IdleOrSetUp r.1 := by
  cases h with
  | silent s' h => exact .inr (h.toSameDialog.setUp hs)
  | sent s' h => exact .inr (h.toSameDialog.setUp hs)
  | hungUp s' h => exact .inl (endCall_idle _)

theorem schedule_idleOrSetUp {s : SmSip} (now : Timespec) (hs : IdleOrSetUp s) :
    IdleOrSetUp (schedule s now) := by
  rcases hs with hs | hs
  · refine .inl ?_
    simp only [schedule]
    split
    · exact ⟨hs.callActive, hs.holds, hs.rtpPeerKnown, hs.mediaActive, hs.rxq, hs.lastOk⟩
    · exact ⟨hs.callActive, hs.holds, hs.rtpPeerKnown, hs.mediaActive, hs.rxq, hs.lastOk⟩
  · exact .inr ((schedule_sameCall s now).toSameDialog.setUp hs)

theorem receiveSip_cases (s : SmSip) (src : SockAddr) (e : Env) (d : Datagram) :
    (parseSip d).isResponse ∧ receiveSip s src e d = (s, []) ∨
      (parseSip d).isResponse = false ∧
        Handled s (parseSip d) src e (receiveSip s src e d) := by
  unfold receiveSip
  split
  next h => exact .inl ⟨h, rfl⟩
  next h => exact .inr ⟨by simpa using h, handleRequest_handled ..⟩

theorem receiveSip_idleOrSetUp {s : SmSip} {src : SockAddr} {e : Env} {d : Datagram}
    (hs : IdleOrSetUp s) : IdleOrSetUp (receiveSip s src e d).1 := by
  rcases receiveSip_cases s src e d with ⟨_, h⟩ | ⟨_, h⟩
  · exact h ▸ hs
  · exact h.idleOrSetUp hs

theorem heardRequest_server (s : SipRun) (r : Received) (e : LoopEnv) :
    (heardRequest s r e).server =
      (receiveSip s.server r.src e.toEnv (recvInto s.buf r e.line)).1 := rfl

theorem Turn.idleOrSetUp {s s' : SipRun} {e : LoopEnv} (h : Turn s e s')
    (hs : IdleOrSetUp s.server) : IdleOrSetUp s'.server := by
  cases h with
  | waited => exact hs
  | ended => exact .inl (endCall_idle _)
  | media r hrtp =>
      have hup : SetUp s.server := hs.resolve_left fun hidle => by
        simp [show s.server.rtpFd = false from hidle.holds .rtp] at hrtp
      exact .inr ((receiveRtp_sameDialog ..).setUp hup)
  | request r => exact receiveSip_idleOrSetUp hs
  | ticked now hactive =>
      exact schedule_idleOrSetUp e.now ((audioTick_ticked ..).idleOrSetUp (hs.setUp hactive))

theorem run_idleOrSetUp (maxCalls : Int) (cfg : SmSipConfig) (buf : Bytes) (es : List LoopEnv) :
    IdleOrSetUp (smSipRun maxCalls (start cfg buf) es).server :=
  smSipRun_invariant (P := fun s => IdleOrSetUp s.server) (fun _ _ _ hs h => h.idleOrSetUp hs) es
    (.inl (smSipCreate_idle cfg))

abbrev ledger (d : Descriptor) : Bool → List Action → Option Bool :=
  settle (Action.opened d) (Action.closed d)

def Kept (d : Descriptor) (s : SmSip) (r : SmSip × List Action) : Prop :=
  ledger d (s.holds d) r.2 = some (r.1.holds d)

theorem settle_released (held : Descriptor → Bool) (d : Descriptor) (ds : List Descriptor)
    (hnodup : ds.Nodup) :
    ledger d (held d) ((ds.filter held).map Action.closed) =
      some (held d && !decide (d ∈ ds)) := by
  induction ds with
  | nil => simp
  | cons c ds ih =>
      obtain ⟨hc, hds⟩ := List.nodup_cons.mp hnodup
      rcases hheld : held c with _ | _
      · have hcd : held d = true → d ≠ c := fun hd h => by simp [h, hheld] at hd
        rw [List.filter_cons_of_neg (by simp [hheld]), ih hds]
        rcases hd : held d with _ | _
        · rfl
        · simp [hcd hd]
      · rw [List.filter_cons_of_pos hheld, List.map_cons]
        rcases eq_or_ne d c with rfl | hdc
        · have hrest : ∀ a ∈ (ds.filter held).map Action.closed,
              a ≠ .opened d ∧ a ≠ .closed d := by
            intro a ha
            obtain ⟨b, hb, rfl⟩ := List.mem_map.mp ha
            have hbd : b ≠ d := fun h => hc (h ▸ (List.mem_filter.mp hb).1)
            simpa using hbd
          simpa [settle, hheld] using settle_other hrest false
        · simpa [settle, Ne.symm hdc, hdc] using ih hds

theorem settle_closing (d : Descriptor) (s : SmSip) :
    ledger d (s.holds d) (closing s) = some false := by
  have h := settle_released s.holds d [.daemon, .rtp, .capRx, .capTx] (by decide)
  have hd : d ∈ [Descriptor.daemon, .rtp, .capRx, .capTx] := by cases d <;> decide
  simpa [closing, hd] using h

theorem kept_of_messages {d : Descriptor} {s s' : SmSip} {actions : List Action}
    (hs : s'.holds d = s.holds d) (h : ∀ a ∈ actions, a ≠ .opened d ∧ a ≠ .closed d) :
    Kept d s (s', actions) :=
  (settle_other h (s.holds d)).trans (congrArg some hs.symm)

theorem kept_of_closing {d : Descriptor} {s t : SmSip} {actions : List Action}
    (h : ledger d (s.holds d) actions = some (t.holds d)) :
    Kept d s (endCall s, actions ++ closing t) := by
  refine (settle_append_of h (settle_closing d t)).trans ?_
  exact congrArg some ((endCall_idle s).holds d).symm

theorem settle_openRtp {s : SmSip} (hs : Idle s) (d : Descriptor) (src : SockAddr)
    (trying r : Response) :
    ledger d (s.holds d)
        [.response src trying, .opened .rtp, .response src r] =
      some (({ s with rtpFd := true } : SmSip).holds d) := by
  rw [hs.holds d]
  have hother (h : Descriptor.rtp ≠ d) : ledger d false
      [.response src trying, .opened .rtp, .response src r] = some false :=
    settle_other (by simp [h]) false
  cases d with
  | rtp => simp [settle, SmSip.holds]
  | daemon => exact (hother (by decide)).trans (congrArg some (hs.holds .daemon).symm)
  | capRx => exact (hother (by decide)).trans (congrArg some (hs.holds .capRx).symm)
  | capTx => exact (hother (by decide)).trans (congrArg some (hs.holds .capTx).symm)

theorem settle_openCall (d : Descriptor) (s : SmSip) (m : SipMsg) (src : SockAddr) (e : Env)
    (daemon : AudioSocket.Peer) (trying ok : Response) :
    ledger d false
        ([.response src trying, .opened .rtp, .opened .daemon] ++ openCaptures s e ++
          [.response src ok]) =
      some ((recordCall { s with rtpFd := true } m e daemon).holds d) := by
  rcases hdir : s.cfg.captureDir with _ | _ <;> rcases hrx : e.capRxOpened with _ | _ <;>
    rcases htx : e.capTxOpened with _ | _ <;> cases d <;>
    simp [settle, openCaptures, recordCall, SmSip.holds, hdir, hrx, htx]

theorem Handled.kept {s : SmSip} {m : SipMsg} {src : SockAddr} {e : Env}
    {r : SmSip × List Action} (h : Handled s m src e r) (hs : IdleOrSetUp s) (d : Descriptor) :
    Kept d s r := by
  cases h with
  | answered | ignored | replayed | busy | noAudio => exact kept_of_messages rfl (by simp)
  | media => exact kept_of_messages rfl (by simp)
  | bye _ _ r =>
      have hmessage : ledger d (s.holds d) [.response src r] = some (s.holds d) :=
        settle_other (by simp) (s.holds d)
      exact kept_of_closing hmessage
  | cancel => exact kept_of_closing (settle_other (by simp) _)
  | noSocket => exact kept_of_closing (settle_other (by simp) _)
  | noPort _ hactive => exact kept_of_closing (settle_openRtp (hs.idle hactive) ..)
  | noDaemon _ hactive => exact kept_of_closing (settle_openRtp (hs.idle hactive) ..)
  | accepted _ hactive =>
      unfold Kept
      rw [(hs.idle hactive).holds d]
      exact settle_openCall ..

theorem hangUp_kept (d : Descriptor) (s : SmSip) (e : Env) : Kept d s (hangUp s e) := by
  have hsent : ∃ t sent, hangUp s e = (endCall t, sent ++ closing t) ∧ t.holds = s.holds ∧
      ∀ a ∈ sent, a ≠ .opened d ∧ a ≠ .closed d := by
    simp only [hangUp, sendBye]
    split
    · split
      · exact ⟨_, _, rfl, rfl, by simp⟩
      · exact ⟨_, _, rfl, rfl, by simp⟩
    · exact ⟨_, _, rfl, rfl, by simp⟩
  obtain ⟨t, sent, h, ht, hquiet⟩ := hsent
  have hkept : Kept d t (endCall t, sent ++ closing t) :=
    kept_of_closing (settle_other hquiet (t.holds d))
  unfold Kept at hkept ⊢
  rw [h, ← ht]
  exact hkept

theorem Ticked.kept {s : SmSip} {e : Env} {r : SmSip × List Action} (h : Ticked s e r)
    (d : Descriptor) : Kept d s r := by
  cases h with
  | silent s' h => exact kept_of_messages (congrFun h.holds d) (by simp)
  | sent s' h => exact kept_of_messages (congrFun h.holds d) (by simp)
  | hungUp s' h =>
      have hkept := hangUp_kept d s' e
      unfold Kept at hkept ⊢
      rwa [congrFun h.holds d] at hkept

theorem receiveSip_kept {s : SmSip} {src : SockAddr} {e : Env} {d : Datagram}
    (hs : IdleOrSetUp s) (c : Descriptor) : Kept c s (receiveSip s src e d) := by
  rcases receiveSip_cases s src e d with ⟨_, h⟩ | ⟨_, h⟩
  · rw [h]
    exact kept_of_messages rfl (by simp)
  · exact h.kept hs c

-- The log accounts for the descriptors: what it has opened and not closed is what is held.
def Accounted (s : SipRun) : Prop :=
  ∀ d, ledger d false s.log = some (s.server.holds d)

theorem Accounted.act {s : SipRun} (h : Accounted s) {r : SmSip × List Action}
    (hr : ∀ d, Kept d s.server r) (e : Env) (stage : Stage) : Accounted (s.act e r stage) :=
  fun d => settle_append_of (h d) (hr d)

theorem Accounted.log_eq {s s' : SipRun} (h : Accounted s) (hlog : s'.log = s.log)
    (hholds : s'.server.holds = s.server.holds) : Accounted s' := by
  intro d
  rw [hlog, hholds]
  exact h d

theorem Turn.accounted {s s' : SipRun} {e : LoopEnv} (h : Turn s e s')
    (hs : IdleOrSetUp s.server) (hacc : Accounted s) : Accounted s' := by
  cases h with
  | waited => exact hacc
  | ended => exact hacc.act (fun d => hangUp_kept d _ _) _ _
  | media r => exact hacc.log_eq rfl (receiveRtp_sameDialog ..).holds
  | request r => exact fun d => settle_append_of (hacc d) (receiveSip_kept hs d)
  | ticked now =>
      apply hacc.act
      intro d
      have hkept := (audioTick_ticked s.server e.toEnv).kept d
      have hholds := (schedule_sameCall (audioTick s.server e.toEnv).1 e.now).holds
      unfold Kept at hkept ⊢
      rwa [hholds]

theorem run_accounted (maxCalls : Int) (cfg : SmSipConfig) (buf : Bytes) (es : List LoopEnv) :
    Accounted (smSipRun maxCalls (start cfg buf) es) := by
  have hstart : IdleOrSetUp (start cfg buf).server ∧ Accounted (start cfg buf) :=
    ⟨.inl (smSipCreate_idle cfg), fun d => by cases d <;> rfl⟩
  have h : IdleOrSetUp (smSipRun maxCalls (start cfg buf) es).server ∧
      Accounted (smSipRun maxCalls (start cfg buf) es) :=
    smSipRun_invariant (P := fun s => IdleOrSetUp s.server ∧ Accounted s)
      (fun s e s' hs ht => ⟨ht.idleOrSetUp hs.1, ht.accounted hs.1 hs.2⟩) es hstart
  exact h.2

theorem handleRequest_accepts {s : SmSip} {m : SipMsg} {src : SockAddr} {e : Env}
    {daemon : AudioSocket.Peer} (hactive : s.callActive = false)
    (hmethod : m.method = ascii "INVITE") (hport : 0 < (extractSdp m).port)
    (hsocket : e.socketOk) (hbind : e.bindOk) (hdaemon : e.daemon = some daemon) :
    SetUp (handleRequest s m src e).1 ∧
      .response src (okResponse s m e) ∈ (handleRequest s m src e).2 := by
  have h := handleRequest_handled s m src e
  generalize handleRequest s m src e = r at h
  cases h with
  | answered _ hm => exact absurd hmethod hm.1
  | ignored hm => exact absurd (hmethod.symm.trans hm) (by decide)
  | media hm => exact absurd (hmethod.symm.trans hm) (by decide)
  | bye hm => exact absurd (hmethod.symm.trans hm) (by decide)
  | cancel hm => exact absurd (hmethod.symm.trans hm) (by decide)
  | replayed _ hm => exact absurd hm.1 (by simp [hactive])
  | busy _ h => exact absurd h (by simp [hactive])
  | noAudio _ _ h => omega
  | noSocket _ _ _ h => simp [hsocket] at h
  | noPort _ _ _ _ h => simp [hbind] at h
  | noDaemon _ _ _ _ _ h => simp [hdaemon] at h
  | accepted => exact ⟨recordCall_setUp _ _ _ _ rfl, by simp⟩

theorem idle_or_fully_set_up (maxCalls : Int) (cfg : SmSipConfig) (buf : Bytes)
    (es : List LoopEnv) :
    let s := smSipRun maxCalls (start cfg buf) es
    (Idle s.server ∨ SetUp s.server) ∧
      (∀ d, ledger d false s.log = some (s.server.holds d)) ∧
      (∀ d, ledger d false (s.log ++ (smSipDestroy s.server).2) = some false) ∧
      ∀ m src e daemon, s.server.callActive = false → m.method = ascii "INVITE" →
        0 < (extractSdp m).port → e.socketOk → e.bindOk → e.daemon = some daemon →
        SetUp (handleRequest s.server m src e).1 ∧
          .response src (okResponse s.server m e) ∈ (handleRequest s.server m src e).2 := by
  intro s
  have hacc : Accounted s := run_accounted maxCalls cfg buf es
  refine ⟨run_idleOrSetUp maxCalls cfg buf es, hacc, ?_, ?_⟩
  · intro d
    exact settle_append_of (hacc d) (settle_closing d s.server)
  · intro m src e daemon hactive hmethod hport hsocket hbind hdaemon
    exact handleRequest_accepts hactive hmethod hport hsocket hbind hdaemon

end Softmodem.Sip

import Mathlib.Algebra.GroupWithZero.Nat
import Softmodem.Sip.ByeDialog
import Softmodem.Sip.Rtp

namespace Softmodem.Sip

open AudioSocket Transition

def sequenceOf (pkt : Bytes) : Nat := 256 * (pkt.getD 2 0).toNat + (pkt.getD 3 0).toNat

def timestampOf (pkt : Bytes) : Nat :=
  2 ^ 24 * (pkt.getD 4 0).toNat + 2 ^ 16 * (pkt.getD 5 0).toNat + 2 ^ 8 * (pkt.getD 6 0).toNat +
    (pkt.getD 7 0).toNat

theorem sequenceOf_header (s : SmSip) (payload : Bytes) :
    sequenceOf (rtpHeader s ++ payload) = s.rtpSeq.toNat := by
  have hlt := s.rtpSeq.toNat_lt
  change 256 * (s.rtpSeq >>> 8).toUInt8.toNat + s.rtpSeq.toUInt8.toNat = s.rtpSeq.toNat
  simp only [UInt16.toNat_toUInt8, UInt16.toNat_shiftRight, Nat.shiftRight_eq_div_pow,
    UInt16.reduceToNat, Nat.reduceMod, Nat.reducePow]
  omega

theorem timestampOf_header (s : SmSip) (payload : Bytes) :
    timestampOf (rtpHeader s ++ payload) = s.rtpTs.toNat := by
  have hlt := s.rtpTs.toNat_lt
  change 2 ^ 24 * (s.rtpTs >>> 24).toUInt8.toNat + 2 ^ 16 * (s.rtpTs >>> 16).toUInt8.toNat +
    2 ^ 8 * (s.rtpTs >>> 8).toUInt8.toNat + s.rtpTs.toUInt8.toNat = s.rtpTs.toNat
  simp only [UInt32.toNat_toUInt8, UInt32.toNat_shiftRight, Nat.shiftRight_eq_div_pow,
    UInt32.reduceToNat, Nat.reduceMod, Nat.reducePow]
  omega

theorem rtpHeader_flags (s : SmSip) (payload : Bytes) :
    rtpFlags (rtpHeader s ++ payload) = 128 := rfl

theorem rtpHeader_payload (s : SmSip) (payload : Bytes) :
    rtpPayload (rtpHeader s ++ payload) = payload := by
  have hheader : afterHeader (rtpHeader s ++ payload) = payload := by
    rw [afterHeader, rtpHeader_flags]
    rfl
  rw [rtpPayload, rtpHeader_flags, hheader]
  rfl

theorem rtpHeader_valid (s : SmSip) {payload : Bytes} (h : payload ≠ []) :
    ValidPcmu (rtpHeader s ++ payload) :=
  ⟨by rw [rtpHeader_flags], rfl, by rwa [rtpHeader_payload]⟩

-- The samples that feed_daemon takes from an audio message of the daemon.
def daemonSamples (payload : Bytes) (plen : Nat) : List Int :=
  (List.range (min (plen / 2) smSipRtpMaxpay)).map (pcmSample payload)

theorem daemonSamples_length (payload : Bytes) (plen : Nat) :
    (daemonSamples payload plen).length = min (plen / 2) smSipRtpMaxpay := by
  rw [daemonSamples, List.length_map, List.length_range]

theorem daemonSamples_ne_nil (payload : Bytes) {plen : Nat} (h : 2 ≤ plen) :
    daemonSamples payload plen ≠ [] := by
  rw [← List.length_pos_iff, daemonSamples_length, smSipRtpMaxpay]
  omega

-- The first audio message that feed_daemon meets, with the others it passes over.
inductive DaemonSends : SmSip → Bytes → Nat → Prop
  | now {s s' : SmSip} {payload : Bytes} {plen : Nat}
      (hread : readDaemon s = (.message smAsKindAudio payload plen, s')) (hlen : 2 ≤ plen) :
      DaemonSends s payload plen
  | later {s s' : SmSip} {kind : UInt8} {other payload : Bytes} {olen plen : Nat}
      (hread : readDaemon s = (.message kind other olen, s'))
      (hother : ¬ (kind = smAsKindAudio ∧ 2 ≤ olen)) (hkind : kind ≠ smAsKindHangup)
      (h : DaemonSends s' payload plen) : DaemonSends s payload plen

theorem DaemonSends.length {s : SmSip} {payload : Bytes} {plen : Nat}
    (h : DaemonSends s payload plen) : 2 ≤ plen := by
  induction h with
  | now _ hlen => exact hlen
  | later _ _ _ _ ih => exact ih

structure KeepsQueue (s s' : SmSip) : Prop where
  rxq : s'.rxq = s.rxq
  rxqHead : s'.rxqHead = s.rxqHead
  rxqTail : s'.rxqTail = s.rxqTail
  tickNs : s'.tickNs = s.tickNs
  rtpPeer : s'.rtpPeer = s.rtpPeer
  rtpPeerKnown : s'.rtpPeerKnown = s.rtpPeerKnown

theorem KeepsQueue.refl (s : SmSip) : KeepsQueue s s := ⟨rfl, rfl, rfl, rfl, rfl, rfl⟩

theorem KeepsQueue.trans {s t u : SmSip} (h : KeepsQueue s t) (h' : KeepsQueue t u) :
    KeepsQueue s u where
  rxq := h'.rxq.trans h.rxq
  rxqHead := h'.rxqHead.trans h.rxqHead
  rxqTail := h'.rxqTail.trans h.rxqTail
  tickNs := h'.tickNs.trans h.tickNs
  rtpPeer := h'.rtpPeer.trans h.rtpPeer
  rtpPeerKnown := h'.rtpPeerKnown.trans h.rtpPeerKnown

theorem readDaemon_keepsQueue (s : SmSip) : KeepsQueue s (readDaemon s).2 :=
  ⟨rfl, rfl, rfl, rfl, rfl, rfl⟩

theorem sendRtp_keepsQueue (s : SmSip) (payload : Bytes) (plen : Nat) :
    KeepsQueue s (sendRtp s payload plen).1 := ⟨rfl, rfl, rfl, rfl, rfl, rfl⟩

inductive Fed (s : SmSip) : SmSip × List Action → Prop
  | silent (s' : SmSip) (hkeeps : KeepsQueue s s') (hseq : s'.rtpSeq = s.rtpSeq)
      (hts : s'.rtpTs = s.rtpTs) : Fed s (s', [])
  | packet (s' : SmSip) (hkeeps : KeepsQueue s s') (payload : Bytes) (plen : Nat)
      (hsends : DaemonSends s payload plen) (hseq : s'.rtpSeq = s.rtpSeq + 1)
      (hts : s'.rtpTs = s.rtpTs + (daemonSamples payload plen).length.toUInt32) :
      Fed s (s', [.rtp s.rtpPeer (rtpHeader s ++ (daemonSamples payload plen).map smUlawEncode)])
  | hungUp (t : SmSip) (actions : List Action) (hquiet : ∀ dest pkt, .rtp dest pkt ∉ actions) :
      Fed s (endCall t, actions)

theorem hangUp_no_rtp (s : SmSip) (e : Env) (dest : SockAddr) (pkt : Bytes) :
    .rtp dest pkt ∉ (hangUp s e).2 := by
  simp only [hangUp, sendBye]
  split
  · split
    · simp [closing]
    · simp [closing]
  · simp [closing]

theorem hangUp_fed (s t : SmSip) (e : Env) : Fed s (hangUp t e) :=
  .hungUp _ _ (hangUp_no_rtp t e)

theorem sendRtp_fed {s s' : SmSip} {payload : Bytes} {plen : Nat}
    (hread : readDaemon s = (.message smAsKindAudio payload plen, s')) (hlen : 2 ≤ plen) :
    Fed s (sendRtp s' payload plen) := by
  have hs : s' = (readDaemon s).2 := by rw [hread]
  subst hs
  have hsent : (daemonSamples payload plen).map smUlawEncode =
      (List.range (min (plen / 2) smSipRtpMaxpay)).map fun j =>
        smUlawEncode (pcmSample payload j) := List.map_map
  have hkeeps := (readDaemon_keepsQueue s).trans (sendRtp_keepsQueue (readDaemon s).2 payload plen)
  rw [sendRtp, ← hsent]
  refine .packet _ hkeeps payload plen (.now hread hlen) rfl ?_
  rw [daemonSamples_length]
  rfl

theorem Fed.of_read {s s' : SmSip} {kind : UInt8} {other : Bytes} {olen : Nat}
    {result : SmSip × List Action}
    (hread : readDaemon s = (.message kind other olen, s'))
    (hother : ¬ (kind = smAsKindAudio ∧ 2 ≤ olen)) (hkind : kind ≠ smAsKindHangup)
    (h : Fed s' result) : Fed s result := by
  have hs : s' = (readDaemon s).2 := by rw [hread]
  cases h with
  | silent t hkeeps hseq hts =>
      subst hs
      exact .silent t ((readDaemon_keepsQueue s).trans hkeeps) hseq hts
  | packet t hkeeps payload plen hsends hseq hts =>
      have hlater := DaemonSends.later hread hother hkind hsends
      subst hs
      exact .packet t ((readDaemon_keepsQueue s).trans hkeeps) payload plen hlater hseq hts
  | hungUp t actions hquiet => exact .hungUp t actions hquiet

theorem daemonReplies_fed (e : Env) (left : Nat) (s : SmSip) : Fed s (daemonReplies e left s) := by
  induction left generalizing s with
  | zero => exact .silent s (.refl s) rfl rfl
  | succ left ih =>
      rw [daemonReplies]
      rcases hread : readDaemon s with ⟨⟨kind, payload, plen⟩ | ⟨why⟩, s'⟩
      · dsimp only
        split
        · next haudio =>
            obtain ⟨rfl, hlen⟩ := haudio
            exact sendRtp_fed hread hlen
        split
        · exact hangUp_fed s s' e
        · next hother hkind => exact (ih s').of_read hread hother hkind
      · have hs : s' = (readDaemon s).2 := by rw [hread]
        subst hs
        cases why with
        | timeout => exact .silent _ (readDaemon_keepsQueue s) rfl rfl
        | fail => exact hangUp_fed s _ e

theorem readDaemon_written (s : SmSip) (written : List WriteCall) :
    readDaemon { s with written := written } =
      ((readDaemon s).1, { (readDaemon s).2 with written := written }) := rfl

theorem DaemonSends.of_written {s : SmSip} {written : List WriteCall} {payload : Bytes}
    {plen : Nat} (h : DaemonSends { s with written := written } payload plen) :
    DaemonSends s payload plen := by
  generalize ht : { s with written := written } = t at h
  induction h generalizing s with
  | now hread hlen =>
      rw [← ht, readDaemon_written] at hread
      obtain ⟨hmessage, -⟩ := Prod.mk.inj hread
      exact .now (Prod.ext hmessage (rfl : _ = (readDaemon s).2)) hlen
  | later hread hother hkind h ih =>
      rw [← ht, readDaemon_written] at hread
      obtain ⟨hmessage, hnext⟩ := Prod.mk.inj hread
      exact .later (Prod.ext hmessage (rfl : _ = (readDaemon s).2)) hother hkind (ih hnext)

theorem Fed.of_written {s : SmSip} {written : List WriteCall} {result : SmSip × List Action}
    (h : Fed { s with written := written } result) : Fed s result := by
  have hwritten : KeepsQueue s { s with written := written } :=
    ⟨rfl, rfl, rfl, rfl, rfl, rfl⟩
  cases h with
  | silent t hkeeps hseq hts => exact .silent t (hwritten.trans hkeeps) hseq hts
  | packet t hkeeps payload plen hsends hseq hts =>
      change Fed s (t, [.rtp s.rtpPeer
        (rtpHeader s ++ (daemonSamples payload plen).map smUlawEncode)])
      exact .packet t (hwritten.trans hkeeps) payload plen hsends.of_written hseq hts
  | hungUp t actions hquiet => exact .hungUp t actions hquiet

theorem feedDaemon_fed (s : SmSip) (pcm : List Int) (e : Env) : Fed s (feedDaemon s pcm e) := by
  simp only [feedDaemon]
  split
  · exact hangUp_fed s _ e
  · exact (daemonReplies_fed e _ _).of_written

theorem sent_is_accepted (s t : SmSip) (payload : Bytes) {plen : Nat} (h : 2 ≤ plen) :
    Enqueues t ((daemonSamples payload plen).map fun x => smUlawDecode (smUlawEncode x))
      (processRtp t (rtpHeader s ++ (daemonSamples payload plen).map smUlawEncode)) := by
  have hne : (daemonSamples payload plen).map smUlawEncode ≠ [] := by
    rw [ne_eq, List.map_eq_nil_iff]
    exact daemonSamples_ne_nil payload h
  have hlen : ((daemonSamples payload plen).map smUlawEncode).length ≤ smSipRtpMaxpay := by
    rw [List.length_map, daemonSamples_length]
    exact Nat.min_le_right _ _
  have hframe := processRtp_enqueues t (rtpHeader_valid s hne)
  rwa [pcmuFrame, rtpHeader_payload, List.take_of_length_le hlen, List.map_map] at hframe

def rtpOf : Action → Option Bytes
  | .rtp _ pkt => some pkt
  | _ => none

def samplesIn (packets : List Bytes) : Nat := (packets.map fun pkt => (rtpPayload pkt).length).sum

structure Numbered (seq0 ts0 : Nat) (packets : List Bytes) : Prop where
  sequence : ∀ k pkt, packets[k]? = some pkt → sequenceOf pkt = (seq0 + k) % 2 ^ 16
  timestamp : ∀ k pkt, packets[k]? = some pkt →
    timestampOf pkt = (ts0 + samplesIn (packets.take k)) % 2 ^ 32

theorem numbered_nil (seq0 ts0 : Nat) : Numbered seq0 ts0 [] := ⟨by simp, by simp⟩

theorem Numbered.concat {seq0 ts0 : Nat} {packets : List Bytes} (h : Numbered seq0 ts0 packets)
    {pkt : Bytes} (hseq : sequenceOf pkt = (seq0 + packets.length) % 2 ^ 16)
    (hts : timestampOf pkt = (ts0 + samplesIn packets) % 2 ^ 32) :
    Numbered seq0 ts0 (packets ++ [pkt]) := by
  have hcases (k : Nat) (q : Bytes) (hq : (packets ++ [pkt])[k]? = some q) :
      packets[k]? = some q ∧ k < packets.length ∨ k = packets.length ∧ q = pkt := by
    rcases Nat.lt_or_ge k packets.length with hlt | hge
    · rw [List.getElem?_append_left hlt] at hq
      exact .inl ⟨hq, hlt⟩
    · rw [List.getElem?_append_right hge, List.getElem?_singleton] at hq
      split at hq
      · exact .inr ⟨by omega, (Option.some.inj hq).symm⟩
      · simp at hq
  constructor
  · intro k q hq
    rcases hcases k q hq with ⟨hold, -⟩ | ⟨rfl, rfl⟩
    · exact h.sequence k q hold
    · exact hseq
  · intro k q hq
    rcases hcases k q hq with ⟨hold, hlt⟩ | ⟨rfl, rfl⟩
    · rw [List.take_append_of_le_length hlt.le]
      exact h.timestamp k q hold
    · rw [List.take_left]
      exact hts

theorem samplesIn_concat (packets : List Bytes) (pkt : Bytes) :
    samplesIn (packets ++ [pkt]) = samplesIn packets + (rtpPayload pkt).length := by
  simp [samplesIn]

-- What a call has sent since `earlier`, and the numbers its next packet will carry.
structure Counted (seq0 ts0 : Nat) (packets : List Bytes) (s : SmSip) : Prop where
  numbered : Numbered seq0 ts0 packets
  next : s.callActive → s.rtpSeq.toNat = (seq0 + packets.length) % 2 ^ 16 ∧
    s.rtpTs.toNat = (ts0 + samplesIn packets) % 2 ^ 32

def Streaming (seq0 ts0 : Nat) (earlier : List Action) (s : SipRun) : Prop :=
  ∃ sent, s.log = earlier ++ sent ∧ Counted seq0 ts0 (sent.filterMap rtpOf) s.server

theorem Counted.same {seq0 ts0 : Nat} {packets : List Bytes} {s s' : SmSip}
    (h : Counted seq0 ts0 packets s)
    (hsame : s'.callActive → s.callActive ∧ s'.rtpSeq = s.rtpSeq ∧ s'.rtpTs = s.rtpTs) :
    Counted seq0 ts0 packets s' where
  numbered := h.numbered
  next hactive := by
    obtain ⟨hbefore, hseq, hts⟩ := hsame hactive
    rw [hseq, hts]
    exact h.next hbefore

theorem Counted.packet {seq0 ts0 : Nat} {packets : List Bytes} {s s' : SmSip}
    (h : Counted seq0 ts0 packets s) (hactive : s.callActive) {payload : Bytes}
    (hseq : s'.rtpSeq = s.rtpSeq + 1) (hts : s'.rtpTs = s.rtpTs + payload.length.toUInt32) :
    Counted seq0 ts0 (packets ++ [rtpHeader s ++ payload]) s' := by
  obtain ⟨hnext, hstamp⟩ := h.next hactive
  constructor
  · exact h.numbered.concat ((sequenceOf_header s payload).trans hnext)
      ((timestampOf_header s payload).trans hstamp)
  · intro _
    rw [hseq, hts, UInt16.toNat_add, UInt32.toNat_add, hnext, hstamp, samplesIn_concat,
      rtpHeader_payload, List.length_append, List.length_singleton, Nat.toUInt32_eq,
      UInt32.toNat_ofNat']
    constructor
    · change ((seq0 + packets.length) % 2 ^ 16 + 1) % 2 ^ 16 = _
      omega
    · omega

theorem filterMap_rtpOf_nil {actions : List Action} (h : ∀ dest pkt, .rtp dest pkt ∉ actions) :
    actions.filterMap rtpOf = [] := by
  refine List.filterMap_eq_nil_iff.mpr fun a ha => ?_
  cases a with
  | rtp dest pkt => exact absurd ha (h dest pkt)
  | response | bye | opened | closed => rfl

theorem Streaming.quiet {seq0 ts0 : Nat} {earlier : List Action} {s s' : SipRun}
    (h : Streaming seq0 ts0 earlier s) {actions : List Action} (hlog : s'.log = s.log ++ actions)
    (hquiet : ∀ dest pkt, .rtp dest pkt ∉ actions)
    (hsame : s'.server.callActive → s.server.callActive ∧ s'.server.rtpSeq = s.server.rtpSeq ∧
      s'.server.rtpTs = s.server.rtpTs) : Streaming seq0 ts0 earlier s' := by
  obtain ⟨sent, hsent, hcounted⟩ := h
  refine ⟨sent ++ actions, by rw [hlog, hsent, List.append_assoc], ?_⟩
  rw [List.filterMap_append, filterMap_rtpOf_nil hquiet, List.append_nil]
  exact hcounted.same hsame

theorem Handled.no_rtp {s : SmSip} {m : SipMsg} {src : SockAddr} {e : Env}
    {result : SmSip × List Action} (h : Handled s m src e result) (dest : SockAddr)
    (pkt : Bytes) : .rtp dest pkt ∉ result.2 := by
  cases h with
  | answered | ignored | media | replayed | busy | noAudio => simp
  | bye | cancel | noSocket | noPort | noDaemon => simp [closing]
  | accepted => simp [openCaptures]

theorem Handled.same_numbers {s : SmSip} {m : SipMsg} {src : SockAddr} {e : Env}
    {result : SmSip × List Action} (h : Handled s m src e result) (hactive : s.callActive)
    (hafter : result.1.callActive) : result.1.rtpSeq = s.rtpSeq ∧ result.1.rtpTs = s.rtpTs := by
  cases h with
  | answered | ignored | media | replayed | busy | noAudio => exact ⟨rfl, rfl⟩
  | bye | cancel | noSocket | noPort | noDaemon => simp [endCall] at hafter
  | accepted _ hidle => simp [hactive] at hidle

theorem Handled.setsUp {s : SmSip} {m : SipMsg} {src : SockAddr} {e : Env}
    {result : SmSip × List Action} (h : Handled s m src e result) (hidle : s.callActive = false)
    (hafter : result.1.callActive) : ∃ t daemon, result.1 = recordCall t m e daemon := by
  cases h with
  | answered | ignored | media | replayed | busy | noAudio => simp [hidle] at hafter
  | bye | cancel | noSocket | noPort | noDaemon => simp [endCall] at hafter
  | accepted _ _ _ _ _ daemon => exact ⟨_, daemon, rfl⟩

theorem processRtp_numbers (s : SmSip) (pkt : Bytes) :
    (processRtp s pkt).rtpSeq = s.rtpSeq ∧ (processRtp s pkt).rtpTs = s.rtpTs := by
  obtain ⟨rxq, head, tail, tickNs, drops, h⟩ := processRtp_queue s pkt
  rw [h]
  exact ⟨rfl, rfl⟩

theorem receiveRtp_numbers (s : SmSip) (r : Received) (now : Timespec) :
    (receiveRtp s r now).rtpSeq = s.rtpSeq ∧ (receiveRtp s r now).rtpTs = s.rtpTs := by
  have hbind : (bindPeer s r.src now).rtpSeq = s.rtpSeq ∧
      (bindPeer s r.src now).rtpTs = s.rtpTs := by
    rw [bindPeer]
    split
    · exact ⟨rfl, rfl⟩
    · exact ⟨rfl, rfl⟩
  rw [receiveRtp]
  split
  · obtain ⟨hseq, hts⟩ := processRtp_numbers (bindPeer s r.src now) (r.bytes.take 2048)
    exact ⟨hseq.trans hbind.1, hts.trans hbind.2⟩
  · exact ⟨rfl, rfl⟩

theorem schedule_numbers (s : SmSip) (now : Timespec) :
    (schedule s now).rtpSeq = s.rtpSeq ∧ (schedule s now).rtpTs = s.rtpTs := by
  rw [schedule]
  dsimp only
  split
  · exact ⟨rfl, rfl⟩
  · exact ⟨rfl, rfl⟩

inductive Popped (s : SmSip) : SmSip → Prop
  | frame (h : s.rxqHead ≠ s.rxqTail) :
      Popped s { s with rxqTail := (s.rxqTail + 1) % smSipRxq }
  | silence (h : s.rxqHead = s.rxqTail) : Popped s { s with rxUnderruns := s.rxUnderruns + 1 }

theorem audioTick_fed (s : SmSip) (e : Env) : ∃ t, Popped s t ∧ Fed t (audioTick s e) := by
  rw [audioTick]
  split
  · next h => exact ⟨_, .frame h, feedDaemon_fed _ _ e⟩
  · next h => exact ⟨_, .silence (not_not.mp h), feedDaemon_fed _ _ e⟩

theorem Fed.streaming {seq0 ts0 : Nat} {earlier : List Action} {s : SipRun}
    (hs : Streaming seq0 ts0 earlier s) (hactive : s.server.callActive) {t : SmSip}
    (ht : Popped s.server t) {result : SmSip × List Action} (h : Fed t result) (e : Env)
    (now : Timespec) (stage : Stage) :
    Streaming seq0 ts0 earlier (s.act e (schedule result.1 now, result.2) stage) := by
  obtain ⟨hseq, hts⟩ : t.rtpSeq = s.server.rtpSeq ∧ t.rtpTs = s.server.rtpTs := by
    cases ht with
    | frame => exact ⟨rfl, rfl⟩
    | silence => exact ⟨rfl, rfl⟩
  obtain ⟨hseq', hts'⟩ := schedule_numbers result.1 now
  cases h with
  | silent s' _ hs' ht' =>
      refine hs.quiet rfl (by simp) fun _ => ⟨hactive, ?_, ?_⟩
      · exact hseq'.trans (hs'.trans hseq)
      · exact hts'.trans (ht'.trans hts)
  | packet s' _ payload plen _ hs' ht' =>
      obtain ⟨sent, hsent, hcounted⟩ := hs
      have hcount : Counted seq0 ts0 (sent.filterMap rtpOf) { t with callActive := true } :=
        hcounted.same fun _ => ⟨hactive, hseq, hts⟩
      refine ⟨sent ++ _, by rw [SipRun.act, hsent, List.append_assoc], ?_⟩
      rw [List.filterMap_append]
      refine hcount.packet rfl (hseq'.trans hs') ?_
      rw [List.length_map]
      exact hts'.trans ht'
  | hungUp t' actions hquiet =>
      refine hs.quiet rfl hquiet fun hafter => ?_
      have hdown := (schedule_sameCall (endCall t') now).callActive
      exact absurd (hdown.symm.trans hafter) Bool.false_ne_true

theorem Turn.streaming {seq0 ts0 : Nat} {earlier : List Action} {s s' : SipRun} {e : LoopEnv}
    (h : Turn s e s') (hs : Streaming seq0 ts0 earlier s) (hactive : s.server.callActive) :
    Streaming seq0 ts0 earlier s' := by
  cases h with
  | waited => exact hs
  | ended =>
      refine hs.quiet rfl (hangUp_no_rtp s.server e.toEnv) fun hafter => ?_
      exact absurd hafter Bool.false_ne_true
  | media r =>
      obtain ⟨hseq, hts⟩ := receiveRtp_numbers s.server r e.firstPacket
      exact hs.quiet (List.append_nil _).symm (by simp) fun _ => ⟨hactive, hseq, hts⟩
  | request r =>
      have hlog : (heardRequest s r e).log =
          s.log ++ (receiveSip s.server r.src e.toEnv (recvInto s.buf r e.line)).2 := rfl
      refine hs.quiet hlog ?_ fun hafter => ⟨hactive, ?_⟩
      · rcases receiveSip_cases s.server r.src e.toEnv (recvInto s.buf r e.line) with ⟨-, h⟩ | ⟨-, h⟩
        · simp [h]
        · exact h.no_rtp
      · rw [heardRequest_server] at hafter ⊢
        rcases receiveSip_cases s.server r.src e.toEnv (recvInto s.buf r e.line) with ⟨-, h⟩ | ⟨-, h⟩
        · rw [h]
          exact ⟨rfl, rfl⟩
        · exact h.same_numbers hactive hafter
  | ticked now =>
      obtain ⟨t, hpopped, hfed⟩ := audioTick_fed s.server e.toEnv
      exact hfed.streaming hs hactive hpopped e.toEnv e.now (.pump e.now)

theorem Turn.setsUp {s s' : SipRun} {e : LoopEnv} (h : Turn s e s')
    (hidle : s.server.callActive = false) (hactive : s'.server.callActive) :
    ∃ t m daemon, s'.server = recordCall t m e.toEnv daemon := by
  cases h with
  | waited => exact absurd (hidle.symm.trans hactive) Bool.false_ne_true
  | ended => exact absurd hactive Bool.false_ne_true
  | media r =>
      have hsame := (receiveRtp_sameDialog s.server r e.firstPacket).callActive.trans hidle
      exact absurd (hsame.symm.trans hactive) Bool.false_ne_true
  | request r =>
      rw [heardRequest_server] at hactive ⊢
      rcases receiveSip_cases s.server r.src e.toEnv (recvInto s.buf r e.line) with ⟨-, h⟩ | ⟨-, h⟩
      · rw [h] at hactive
        exact absurd (hidle.symm.trans hactive) Bool.false_ne_true
      · obtain ⟨t, daemon, hserver⟩ := h.setsUp hidle hactive
        exact ⟨t, _, daemon, hserver⟩
  | ticked now hup => exact absurd (hidle.symm.trans hup) Bool.false_ne_true

def rtpSince (s s' : SipRun) : List Bytes := (s'.log.drop s.log.length).filterMap rtpOf

theorem call_numbered (maxCalls : Int) (s : SipRun) (e : LoopEnv) (es : List LoopEnv)
    (hidle : s.server.callActive = false) (hup : (step maxCalls s e).server.callActive)
    (hcall : Along (step maxCalls) (fun s _ => s.server.callActive) (step maxCalls s e) es) :
    Numbered (e.rand 3).toNat (e.rand 4).toNat
      (rtpSince (step maxCalls s e) (smSipRun maxCalls (step maxCalls s e) es)) := by
  obtain ⟨t, m, daemon, hserver⟩ := (step_turn maxCalls s e).setsUp hidle hup
  have hstart : Streaming (e.rand 3).toNat (e.rand 4).toNat (step maxCalls s e).log
      (step maxCalls s e) := by
    refine ⟨[], (List.append_nil _).symm, numbered_nil _ _, fun _ => ⟨?_, ?_⟩⟩
    · rw [hserver]
      exact UInt32.toNat_toUInt16 _
    · rw [hserver]
      exact (Nat.mod_eq_of_lt (e.rand 4).toNat_lt).symm
  obtain ⟨sent, hlog, hcounted⟩ := along_invariant
    (fun s e hs hactive => (step_turn maxCalls s e).streaming hs hactive) es hstart hcall
  rw [rtpSince, smSipRun, hlog, List.drop_left]
  exact hcounted.numbered

-- What process_rtp does with one datagram, whatever its bytes.
structure RtpReception (s : SmSip) (pkt : Bytes) : Prop where
  inside : readRtp pkt s = some (processRtp s pkt)
  once : (∃ frame, Enqueues s frame (processRtp s pkt)) ↔ ValidPcmu pkt
  frame : ValidPcmu pkt →
    Enqueues s (((rtpPayload pkt).take smSipRtpMaxpay).map smUlawDecode) (processRtp s pkt)
  otherwise : ¬ ValidPcmu pkt → processRtp s pkt = s

-- Whoever receives the packet gets the samples back as their mu-law values.
structure RtpEmission (s : SmSip) (pkt : Bytes) : Prop where
  accepted : ∃ payload plen, DaemonSends s payload plen ∧ ∀ t, Enqueues t
    ((daemonSamples payload plen).map fun x => smUlawDecode (smUlawEncode x)) (processRtp t pkt)

theorem rtp_packets_carry_their_samples :
    (∀ s pkt, RtpReception s pkt) ∧
      (∀ s pcm e dest pkt, .rtp dest pkt ∈ (feedDaemon s pcm e).2 → RtpEmission s pkt) ∧
      ∀ (maxCalls : Int) (s : SipRun) (e : LoopEnv) (es : List LoopEnv),
        s.server.callActive = false → (step maxCalls s e).server.callActive →
          Along (step maxCalls) (fun s _ => s.server.callActive) (step maxCalls s e) es →
            Numbered (e.rand 3).toNat (e.rand 4).toNat
              (rtpSince (step maxCalls s e) (smSipRun maxCalls (step maxCalls s e) es)) := by
  refine ⟨fun s pkt => ?_, fun s pcm e dest pkt hsent => ?_, call_numbered⟩
  · exact ⟨readRtp_eq s pkt, processRtp_enqueues_iff s pkt, processRtp_enqueues s,
      processRtp_invalid⟩
  · have hfed := feedDaemon_fed s pcm e
    generalize feedDaemon s pcm e = result at hfed hsent
    cases hfed with
    | silent => simp at hsent
    | hungUp _ _ hquiet => exact absurd hsent (hquiet dest pkt)
    | packet s' _ payload plen hsends =>
        obtain ⟨-, rfl⟩ : dest = s.rtpPeer ∧ _ := by simpa using hsent
        exact ⟨payload, plen, hsends, fun t => sent_is_accepted s t payload hsends.length⟩

def talkativeDaemon : Peer :=
  { stream := [0x10, 0, 4, 0, 1, 0, 2, 0x10, 0, 6, 0, 3, 0, 4, 0, 5]
    events := [.data 3, .data 4, .data 3, .data 6] }

def talkingInvite : LoopEnv := { ataInvite "1" with daemon := some talkativeDaemon }

def talkingWakes : List LoopEnv :=
  [{ ataPacket with now := ⟨1, 0⟩ }, { quietWake with now := ⟨1, 0⟩ }, quietWake,
    { quietWake with now := ⟨2, 0⟩ }, { quietWake with now := ⟨2, 0⟩ }]

theorem two_packets_are_numbered :
    let call := step (-1) (start ataConfig ataBuffer) talkingInvite
    let packets := rtpSince call (smSipRun (-1) call talkingWakes)
    packets.map sequenceOf = [3, 4] ∧ packets.map timestampOf = [4, 6] ∧ Numbered 3 4 packets := by
  intro call packets
  obtain ⟨hup, hcall, hsequence, htimestamp⟩ : call.server.callActive ∧
      Along (step (-1)) (fun s _ => s.server.callActive) call talkingWakes ∧
      packets.map sequenceOf = [3, 4] ∧ packets.map timestampOf = [4, 6] := by
    decide +kernel
  exact ⟨hsequence, htimestamp, rtp_packets_carry_their_samples.2.2 (-1)
    (start ataConfig ataBuffer) talkingInvite talkingWakes rfl hup hcall⟩

end Softmodem.Sip

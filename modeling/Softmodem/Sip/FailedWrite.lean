import Softmodem.Call.Replies
import Softmodem.Sip.RxQueue

namespace Softmodem.Sip

open AudioSocket CString Transition

def Feeds (s : SipRun) : Prop :=
  match s.stage with
  | .pump now =>
      s.server.callActive ∧ s.server.rtpPeerKnown ∧ tsMsUntil s.server.nextTick now ≤ 0
  | _ => False

instance : (s : SipRun) → Decidable (Feeds s)
  | ⟨_, _, .poll, _, _, _, _⟩ => isFalse id
  | ⟨_, _, .pump _, _, _, _, _⟩ => inferInstanceAs (Decidable (_ ∧ _ ∧ _))
  | ⟨_, _, .returned _, _, _, _, _⟩ => isFalse id

-- No frame is bridged over a connection that did not get its whole UUID message.
def FeedsAfterUuid (s : SipRun) (_e : LoopEnv) : Prop :=
  Feeds s → ∀ uuid ∈ s.server.written.head?, uuid.code = 0

inductive Wrote (s : SmSip) (e : Env) (s' : SmSip) : Prop where
  | nothing (hwritten : s'.written = s.written) (hactive : s'.callActive → s.callActive)
  | uuid (hwritten : s'.written = [writeUuid e])

theorem processRtp_written (s : SmSip) (pkt : Bytes) : (processRtp s pkt).written = s.written := by
  obtain ⟨rxq, head, tail, tickNs, drops, h⟩ := processRtp_queue s pkt
  rw [h]

theorem receiveRtp_wrote (s : SmSip) (r : Received) (now : Timespec) (e : Env) :
    Wrote s e (receiveRtp s r now) := by
  rw [receiveRtp]
  split
  · have hbind : (bindPeer s r.src now).written = s.written ∧
        (bindPeer s r.src now).callActive = s.callActive := by
      rw [bindPeer]
      split
      · exact ⟨rfl, rfl⟩
      · exact ⟨rfl, rfl⟩
    have hsame := processRtp_sameCall (bindPeer s r.src now) (r.bytes.take 2048)
    refine .nothing ((processRtp_written _ _).trans hbind.1) fun hactive => ?_
    rwa [hsame.callActive, hbind.2] at hactive
  · exact .nothing rfl id

theorem handleRequest_wrote {s : SmSip} {m : SipMsg} {src : SockAddr} {e : Env}
    {result : SmSip × List Action} (h : Handled s m src e result) : Wrote s e result.1 := by
  cases h with
  | answered | ignored | media | replayed | busy | noAudio => exact .nothing rfl id
  | bye | cancel | noSocket | noPort | noDaemon =>
      exact .nothing rfl fun hactive => absurd hactive Bool.false_ne_true
  | accepted => exact .uuid rfl

theorem receiveSip_wrote (s : SmSip) (src : SockAddr) (e : Env) (d : Datagram) :
    Wrote s e (receiveSip s src e d).1 := by
  rw [receiveSip]
  split
  · exact .nothing rfl id
  · exact handleRequest_wrote (handleRequest_handled s (parseSip d) src e)

theorem hangUp_wrote (s : SmSip) (e : Env) : Wrote s e (hangUp s e).1 :=
  .nothing (hangUp_frame s e).written fun hactive => absurd hactive Bool.false_ne_true

theorem awake_wrote (s : SipRun) (e : LoopEnv) :
    Wrote s.server e.toEnv (awake s e).server := by
  rw [awake]
  split
  · exact hangUp_wrote s.server e.toEnv
  split
  · next r _ => exact receiveRtp_wrote s.server r e.firstPacket e.toEnv
  split
  · split
    · exact .nothing rfl id
    · rw [heardRequest_server]
      exact receiveSip_wrote ..
  · exact .nothing rfl id

theorem step_wrote (maxCalls : Int) {s : SipRun} (e : LoopEnv) (h : ¬ Feeds s) :
    Wrote s.server e.toEnv (step maxCalls s e).server := by
  unfold Feeds at h
  rw [step]
  split
  · rw [pollTurn]
    split
    · exact .nothing rfl id
    split
    · exact .nothing rfl id
    · exact .nothing rfl id
    · exact awake_wrote s e
  · next now hstage =>
      rw [hstage] at h
      rw [pumpTurn, if_neg h]
      exact .nothing rfl id
  · exact .nothing rfl id

structure Bridged (s : SmSip) (e : Env) (s' : SmSip) : Prop where
  active : s.callActive
  written : s'.written = s.written ++ [frameWrite (tickFrame s) e]
  failed : (frameWrite (tickFrame s) e).code = -1 → s'.callActive = false

theorem audioTick_bridged {s : SmSip} (hactive : s.callActive) (e : Env) :
    Bridged s e (audioTick s e).1 := by
  obtain ⟨t, hpopped, htick⟩ := audioTick_eq s e
  have hsame : t.written = s.written := by cases hpopped <;> rfl
  rw [htick]
  refine ⟨hactive, ?_, fun hcode => ?_⟩
  · rw [(feedDaemon_frame t (tickFrame s) e).written, hsame]
  · have hfailed : (writeCall smAsKindAudio (pcmBytes (tickFrame s)) e.frameSent).code < 0 := by
      rw [frameWrite] at hcode
      omega
    simp only [feedDaemon]
    rw [if_pos hfailed]
    rfl

theorem schedule_written (s : SmSip) (now : Timespec) : (schedule s now).written = s.written := by
  rw [schedule]
  dsimp only
  split
  · rfl
  · rfl

theorem step_bridged {maxCalls : Int} {s : SipRun} (e : LoopEnv) (h : Feeds s) :
    Bridged s.server e.toEnv (step maxCalls s e).server := by
  unfold Feeds at h
  rw [step]
  split at h
  · next now hstage =>
      rw [hstage]
      dsimp only
      rw [pumpTurn, if_pos h]
      have hticked := audioTick_bridged h.1 e.toEnv
      have hsame := schedule_sameCall (audioTick s.server e.toEnv).1 e.now
      exact ⟨hticked.active, (schedule_written _ e.now).trans hticked.written,
        fun hcode => hsame.callActive.trans (hticked.failed hcode)⟩
  · exact absurd h id

-- Behind the UUID message a write that failed has ended the call.
structure Frames (s : SmSip) : Prop where
  made : ∀ w ∈ s.written, Made w
  whole : s.callActive → ∀ w ∈ s.written.tail, w.code = 0

theorem writeUuid_made (e : Env) : Made (writeUuid e) := ⟨_, _, _, rfl⟩

theorem frameWrite_made (pcm : List Int) (e : Env) : Made (frameWrite pcm e) := ⟨_, _, _, rfl⟩

theorem Wrote.frames {s s' : SmSip} {e : Env} (h : Wrote s e s') (hs : Frames s) : Frames s' := by
  cases h with
  | nothing hwritten hactive =>
      exact ⟨hwritten ▸ hs.made, fun hup => hwritten ▸ hs.whole (hactive hup)⟩
  | uuid hwritten =>
      constructor
      · intro w hw
        rw [hwritten] at hw
        exact List.mem_singleton.mp hw ▸ writeUuid_made e
      · intro _ w hw
        rw [hwritten] at hw
        exact absurd hw List.not_mem_nil

theorem Bridged.frames {s s' : SmSip} {e : Env} (h : Bridged s e s') (hs : Frames s) :
    Frames s' := by
  have hframe := frameWrite_made (tickFrame s) e
  constructor
  · intro w hw
    rw [h.written] at hw
    rcases List.mem_append.mp hw with hw | hw
    · exact hs.made w hw
    · exact List.mem_singleton.mp hw ▸ hframe
  · intro hup w hw
    have hcode : (frameWrite (tickFrame s) e).code = 0 :=
      hframe.code.resolve_right fun hfailed => by simp [h.failed hfailed] at hup
    have hframes := hs.whole h.active
    rw [h.written] at hw
    cases hfirst : s.written with
    | nil => simp [hfirst] at hw
    | cons uuid frames =>
        rw [hfirst, List.tail_cons] at hframes
        rw [hfirst, List.cons_append, List.tail_cons] at hw
        rcases List.mem_append.mp hw with hw | hw
        · exact hframes w hw
        · exact List.mem_singleton.mp hw ▸ hcode

theorem Bridged.stops_iff {s s' : SmSip} {e : Env} (h : Bridged s e s') (hs : Frames s) :
    StopsAtFailure s'.written ↔ ∀ uuid ∈ s.written.head?, uuid.code = 0 := by
  rw [h.written, stopsAtFailure_append hs.made]
  have hframes := hs.whole h.active
  cases hfirst : s.written with
  | nil => simp
  | cons uuid frames =>
      rw [hfirst, List.tail_cons] at hframes
      simpa using fun _ => hframes

theorem step_frames {maxCalls : Int} {s : SipRun} (e : LoopEnv) (hs : Frames s.server) :
    Frames (step maxCalls s e).server := by
  by_cases hfeeds : Feeds s
  · exact (step_bridged e hfeeds).frames hs
  · exact (step_wrote maxCalls e hfeeds).frames hs

theorem step_stops_iff {maxCalls : Int} {s : SipRun} (e : LoopEnv) (hs : Frames s.server)
    (hstops : StopsAtFailure s.server.written) :
    StopsAtFailure (step maxCalls s e).server.written ↔ FeedsAfterUuid s e := by
  by_cases hfeeds : Feeds s
  · rw [(step_bridged e hfeeds).stops_iff hs]
    exact ⟨fun h _ => h, fun h => h hfeeds⟩
  · refine iff_of_true ?_ fun h => absurd h hfeeds
    cases step_wrote maxCalls e hfeeds with
    | nothing hwritten => exact hwritten ▸ hstops
    | uuid hwritten =>
        rw [hwritten, ← List.nil_append [writeUuid e.toEnv]]
        exact (stopsAtFailure_append (fun _ hw => absurd hw List.not_mem_nil) _).mpr
          fun _ hw => absurd hw List.not_mem_nil

theorem smSipCreate_frames (cfg : SmSipConfig) : Frames (smSipCreate cfg) where
  made _ hw := absurd hw List.not_mem_nil
  whole hup := absurd hup Bool.false_ne_true

theorem bridge_stops_iff (maxCalls : Int) (cfg : SmSipConfig) (buf : Bytes) (es : List LoopEnv) :
    (∀ fs, fs <+: es → Synchronised (smSipRun maxCalls (start cfg buf) fs).server.written) ↔
      Along (step maxCalls) FeedsAfterUuid (start cfg buf) es := by
  have hframes (fs : List LoopEnv) : Frames (smSipRun maxCalls (start cfg buf) fs).server :=
    run_invariant (P := fun s : SipRun => Frames s.server) (fun _ e hs => step_frames e hs) fs
      (smSipCreate_frames cfg)
  have hstart : Frames (start cfg buf).server ∧ StopsAtFailure (start cfg buf).server.written :=
    ⟨smSipCreate_frames cfg, stopsAtFailure_of_ok fun _ hw => absurd hw List.not_mem_nil⟩
  have hstep (s : SipRun) (e : LoopEnv)
      (hs : Frames s.server ∧ StopsAtFailure s.server.written) :
      Frames (step maxCalls s e).server ∧ StopsAtFailure (step maxCalls s e).server.written ↔
        FeedsAfterUuid s e := by
    rw [and_iff_right (step_frames e hs.1)]
    exact step_stops_iff e hs.1 hs.2
  rw [← forall_reached_iff hstep es hstart]
  constructor
  · intro h fs hfs
    exact ⟨hframes fs, (h fs hfs).stops⟩
  · intro h fs hfs
    exact (h fs hfs).2.synchronised (hframes fs).made

-- Over the modem's connection and over every connection of the bridge, at any time of its life.
theorem failed_write_is_the_last_iff (callCfg : Call.SmCallConfig) (r : Call.InitResults)
    (peer : Peer) (turns : List Call.Turn) (maxCalls : Int) (cfg : SmSipConfig) (buf : Bytes)
    (es : List LoopEnv) :
    Synchronised (Call.smCallRun callCfg r peer turns).written ∧
      ((∀ fs, fs <+: es → Synchronised (smSipRun maxCalls (start cfg buf) fs).server.written) ↔
        Along (step maxCalls) FeedsAfterUuid (start cfg buf) es) := by
  constructor
  · have hreplies := Call.smCallRun_replies callCfg r peer turns
    exact hreplies.stops.synchronised hreplies.made
  · exact bridge_stops_iff maxCalls cfg buf es

-- The daemon stalls after five bytes of the UUID message; the caller's audio comes all the same.
def stalledUuid : List LoopEnv :=
  [{ ataInvite "1" with uuidSent := [.sent 3, .sent 2, .fail] }, ataRequest "ACK" "1" "",
    { ataPacket with now := ⟨1, 0⟩ }, quietWake]

theorem frames_follow_a_failed_uuid :
    ¬ ((∀ cfg r peer turns, Synchronised (Call.smCallRun cfg r peer turns).written) ∧
      ∀ maxCalls cfg buf es, Synchronised (smSipRun maxCalls (start cfg buf) es).server.written) := by
  rintro ⟨-, h⟩
  have hstops := (h (-1) ataConfig ataBuffer stalledUuid).stops
  have hwritten : (smSipRun (-1) (start ataConfig ataBuffer) stalledUuid).server.written.map
      (fun w => w.code) = [-1, 0] := by
    decide +kernel
  generalize (smSipRun (-1) (start ataConfig ataBuffer) stalledUuid).server.written = ws
    at hstops hwritten
  cases ws with
  | nil => simp at hwritten
  | cons uuid frames =>
      rw [List.map_cons, List.cons.injEq] at hwritten
      have hnone : frames = [] := hstops [] uuid frames rfl hwritten.1
      simp [hnone] at hwritten

end Softmodem.Sip

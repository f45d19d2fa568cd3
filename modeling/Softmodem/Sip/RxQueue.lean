import Softmodem.Lib.Circular
import Softmodem.Lib.Expansion
import Softmodem.Lib.Fifo
import Softmodem.Sip.RtpStream

namespace Softmodem.Sip

open AudioSocket CString Transition

instance : NeZero smSipRxq := ⟨by decide⟩

-- The frames that wait for the daemon, the oldest first.
def queued (s : SmSip) : List (List Int) :=
  Circular.window (fun i : Fin smSipRxq => s.rxq i) s.rxqTail
    ((s.rxqHead + smSipRxq - s.rxqTail) % smSipRxq)

structure InRing (s : SmSip) : Prop where
  head : s.rxqHead < smSipRxq
  tail : s.rxqTail < smSipRxq

theorem queued_contents (s : SmSip) :
    queued s = Circular.contents (fun i : Fin smSipRxq => s.rxq i) s.rxqHead s.rxqTail := rfl

theorem Enqueues.queued_eq {s s' : SmSip} {frame : List Int} (h : Enqueues s frame s')
    (hs : InRing s) :
    InRing s' ∧ queued s' =
      if (queued s).length < smSipRxq - 1 then queued s ++ [frame]
      else (queued s ++ [frame]).tail := by
  obtain ⟨hhead, htail⟩ := hs
  obtain ⟨hrxq, hhead', htail'⟩ := h
  have hslots : (fun i : Fin smSipRxq => s'.rxq i) =
      Function.update (fun i : Fin smSipRxq => s.rxq i) ⟨s.rxqHead, hhead⟩ frame := by
    funext i
    rw [hrxq, Function.update_apply, Function.update_apply]
    simp only [Fin.ext_iff]
  rw [queued_contents, queued_contents, hslots, hhead', htail']
  have hnext : s'.rxqHead < smSipRxq := hhead' ▸ Nat.mod_lt _ (by decide)
  rcases eq_or_ne ((s.rxqHead + 1) % smSipRxq) s.rxqTail with hfull | hroom
  · rw [if_pos hfull] at htail' ⊢
    rw [Circular.contents_push_full hhead htail hfull,
      if_neg (Circular.contents_full_length hhead htail hfull).not_lt]
    exact ⟨⟨hnext, htail' ▸ Nat.mod_lt _ (by decide)⟩, rfl⟩
  · rw [if_neg hroom] at htail' ⊢
    rw [Circular.contents_push hhead htail hroom,
      if_pos (Circular.contents_room_length hhead htail hroom)]
    exact ⟨⟨hnext, htail' ▸ htail⟩, rfl⟩

theorem Popped.queued_eq {s t : SmSip} (h : Popped s t) (hs : InRing s) :
    InRing t ∧ queued t = (queued s).tail := by
  cases h with
  | silence hempty =>
      refine ⟨⟨hs.head, hs.tail⟩, ?_⟩
      change queued s = (queued s).tail
      rw [queued_contents, hempty, Circular.contents_self, List.tail_nil]
  | frame hne =>
      refine ⟨⟨hs.head, Nat.mod_lt _ (by decide)⟩, ?_⟩
      rw [queued_contents s, Circular.contents_pop hs.head hs.tail hne]
      rfl

theorem KeepsQueue.queued {s s' : SmSip} (h : KeepsQueue s s') (hs : InRing s) :
    InRing s' ∧ queued s' = queued s := by
  refine ⟨⟨h.rxqHead ▸ hs.head, h.rxqTail ▸ hs.tail⟩, ?_⟩
  rw [Sip.queued, h.rxq, h.rxqHead, h.rxqTail, Sip.queued]

theorem inRing_over (s : SmSip) : InRing (endCall s) :=
  ⟨Nat.mod_lt 0 (by decide), Nat.mod_lt 0 (by decide)⟩

theorem queued_over (s : SmSip) : queued (endCall s) = [] := by
  simp [queued, endCall]

theorem Handled.keepsQueue {s : SmSip} {m : SipMsg} {src : SockAddr} {e : Env}
    {result : SmSip × List Action} (h : Handled s m src e result) (hactive : s.callActive) :
    KeepsQueue s result.1 ∨ ∃ t, result.1 = endCall t := by
  cases h with
  | answered | ignored | replayed | busy | noAudio => exact .inl (.refl s)
  | media => exact .inl ⟨rfl, rfl, rfl, rfl, rfl, rfl⟩
  | bye | cancel | noSocket | noPort | noDaemon => exact .inr ⟨s, rfl⟩
  | accepted _ hidle => simp [hactive] at hidle

-- What waiting for the daemon's reply leaves alone, also when it ends the call.
structure ReplyFrame (s s' : SmSip) : Prop where
  written : s'.written = s.written
  nextTick : s'.nextTick = s.nextTick

theorem ReplyFrame.trans {s t u : SmSip} (h : ReplyFrame s t) (h' : ReplyFrame t u) :
    ReplyFrame s u := ⟨h'.written.trans h.written, h'.nextTick.trans h.nextTick⟩

theorem hangUp_frame (s : SmSip) (e : Env) : ReplyFrame s (hangUp s e).1 := by
  simp only [hangUp, sendBye]
  split
  · split
    · exact ⟨rfl, rfl⟩
    · exact ⟨rfl, rfl⟩
  · exact ⟨rfl, rfl⟩

theorem daemonReplies_frame (e : Env) (left : Nat) (s : SmSip) :
    ReplyFrame s (daemonReplies e left s).1 := by
  induction left generalizing s with
  | zero => exact ⟨rfl, rfl⟩
  | succ left ih =>
      have hread : ReplyFrame s (readDaemon s).2 := ⟨rfl, rfl⟩
      rw [daemonReplies]
      rcases hr : readDaemon s with ⟨⟨kind, payload, plen⟩ | ⟨why⟩, s'⟩
      · rw [hr] at hread
        dsimp only at hread ⊢
        split
        · exact hread.trans ⟨rfl, rfl⟩
        split
        · exact hread.trans (hangUp_frame s' e)
        · exact hread.trans (ih s')
      · rw [hr] at hread
        cases why with
        | timeout => exact hread
        | fail => exact hread.trans (hangUp_frame s' e)

def frameWrite (pcm : List Int) (e : Env) : WriteCall :=
  writeCall smAsKindAudio (pcmBytes pcm) e.frameSent

theorem feedDaemon_frame (s : SmSip) (pcm : List Int) (e : Env) :
    ReplyFrame { s with written := s.written ++ [frameWrite pcm e] } (feedDaemon s pcm e).1 := by
  simp only [feedDaemon]
  split
  · exact hangUp_frame _ e
  · exact daemonReplies_frame e _ _

-- What audio_tick hands to feed_daemon.
def tickFrame (s : SmSip) : List Int :=
  if s.rxqHead ≠ s.rxqTail then s.rxq s.rxqTail else List.replicate s.tickNs 0

theorem audioTick_eq (s : SmSip) (e : Env) :
    ∃ t, Popped s t ∧ audioTick s e = feedDaemon t (tickFrame s) e := by
  rw [audioTick, tickFrame]
  split
  · next h => exact ⟨_, .frame h, rfl⟩
  · next h => exact ⟨_, .silence (not_not.mp h), rfl⟩

theorem tickFrame_queued {s : SmSip} (hs : InRing s) :
    tickFrame s = ((queued s).head?.getD (List.replicate s.tickNs 0)) := by
  rw [tickFrame]
  split
  · next hne =>
      rw [queued_contents, Circular.contents_pop hs.head hs.tail hne]
      rfl
  · next heq =>
      rw [queued_contents, not_not.mp heq, Circular.contents_self]
      rfl

inductive QueueOp where
  | enqueue (pcm : Nat → Int) (nsamples : Int)
  | tick (e : Env)

def frameArg (pcm : Nat → Int) (nsamples : Int) : List Int := (List.range nsamples.toNat).map pcm

def queueStep (s : SmSip) : QueueOp → SmSip
  | .enqueue pcm nsamples => enqueueRx s (frameArg pcm nsamples)
  | .tick e => (audioTick s e).1

inductive Given where
  | frame (pcm : List Int)
  | silence (nsamples : Nat)
  deriving DecidableEq, Repr

def Given.pcm : Given → List Int
  | .frame pcm => pcm
  | .silence nsamples => List.replicate nsamples 0

def Given.frame? : Given → Option (List Int)
  | .frame pcm => some pcm
  | .silence _ => none

def taken? : Fifo.Departure (List Int) → Option (List Int)
  | .taken pcm => some pcm
  | .discarded _ => none

-- What the queue is for: the frames in order, the oldest given up for the newest.
structure Playout where
  frames : Fifo.Queue (List Int)
  given : List Given
  deriving DecidableEq, Repr

def silenceLength (frames : Fifo.Queue (List Int)) : Nat :=
  (frames.arrived.getLast?.map List.length).getD 160

def Playout.step (p : Playout) : QueueOp → Playout
  | .enqueue pcm nsamples =>
      let frame := (frameArg pcm nsamples).take 1024
      if frame = [] then p else { p with frames := Fifo.put 31 p.frames frame }
  | .tick _ =>
      { frames := Fifo.take p.frames
        given := p.given ++
          [match p.frames.waiting with
            | [] => .silence (silenceLength p.frames)
            | frame :: _ => .frame frame] }

def Playout.empty : Playout := ⟨Fifo.empty, []⟩

def arrival : QueueOp → Option (List Int)
  | .enqueue pcm nsamples =>
      let frame := (frameArg pcm nsamples).take 1024
      if frame = [] then none else some frame
  | .tick _ => none

theorem enqueueRx_take (s : SmSip) (pcm : List Int) :
    enqueueRx s pcm = enqueueRx s (pcm.take smSipRtpMaxpay) := by
  rw [enqueueRx, enqueueRx, List.take_take, min_self]

theorem enqueueRx_nil (s : SmSip) : enqueueRx s [] = s := rfl

structure Lengthened (s : SmSip) (frame : List Int) (s' : SmSip) : Prop where
  callActive : s'.callActive = s.callActive
  written : s'.written = s.written
  tickNs : s'.tickNs = frame.length

theorem enqueueRx_lengthened (s : SmSip) {frame : List Int} (hne : frame ≠ [])
    (hlen : frame.length ≤ smSipRtpMaxpay) : Lengthened s frame (enqueueRx s frame) := by
  rw [enqueueRx, List.take_of_length_le hlen]
  dsimp only
  rw [if_neg hne]
  split
  · exact ⟨rfl, rfl, rfl⟩
  · exact ⟨rfl, rfl, rfl⟩

def FrameSized (pcm : List Int) : Prop := 1 ≤ pcm.length ∧ pcm.length ≤ 1024

structure Plays (wrote : List Bytes) (p : Playout) (s : SmSip) : Prop where
  sound : Fifo.Sound 31 p.frames
  taken : p.frames.departed.filterMap taken? = p.given.filterMap Given.frame?
  arrivedSize : ∀ frame ∈ p.frames.arrived, FrameSized frame
  givenSize : ∀ g ∈ p.given, FrameSized g.pcm
  ring : InRing s
  written : s.written.map WriteCall.payload = wrote ++ p.given.map fun g => pcmBytes g.pcm
  queue : s.callActive → queued s = p.frames.waiting ∧ s.tickNs = silenceLength p.frames

theorem put_arrived (q : Fifo.Queue (List Int)) (frame : List Int) :
    (Fifo.put 31 q frame).arrived = q.arrived ++ [frame] := by
  rw [Fifo.put]
  split
  · rfl
  · rfl

theorem put_taken (q : Fifo.Queue (List Int)) (frame : List Int) :
    (Fifo.put 31 q frame).departed.filterMap taken? = q.departed.filterMap taken? := by
  rw [Fifo.put]
  split
  · rfl
  · have hnone (frames : List (List Int)) :
        (frames.map Fifo.Departure.discarded).filterMap taken? = [] := by
      rw [List.filterMap_map, List.filterMap_eq_nil_iff]
      exact fun _ _ => rfl
    rw [List.filterMap_append, hnone, List.append_nil]

theorem Plays.enqueue {wrote : List Bytes} {p : Playout} {s : SmSip} (h : Plays wrote p s)
    (pcm : Nat → Int) (nsamples : Int) :
    Plays wrote (p.step (.enqueue pcm nsamples)) (queueStep s (.enqueue pcm nsamples)) := by
  rw [queueStep, enqueueRx_take, Playout.step]
  have hlen : ((frameArg pcm nsamples).take smSipRtpMaxpay).length ≤ smSipRtpMaxpay :=
    List.length_take_le _ _
  change Plays wrote
    (if (frameArg pcm nsamples).take smSipRtpMaxpay = [] then p
      else { p with
        frames := Fifo.put 31 p.frames ((frameArg pcm nsamples).take smSipRtpMaxpay) }) _
  generalize (frameArg pcm nsamples).take smSipRtpMaxpay = frame at hlen
  rcases eq_or_ne frame [] with rfl | hne
  · rw [if_pos rfl, enqueueRx_nil]
    exact h
  · rw [if_neg hne]
    obtain ⟨hactive, hwritten, htickNs⟩ := enqueueRx_lengthened s hne hlen
    obtain ⟨hring, hqueued⟩ := (enqueueRx_enqueues s hne hlen).queued_eq h.ring
    refine ⟨h.sound.put frame, ?_, ?_, h.givenSize, hring, ?_, ?_⟩
    · exact (put_taken p.frames frame).trans h.taken
    · intro f hf
      rw [put_arrived] at hf
      rcases List.mem_append.mp hf with hf | hf
      · exact h.arrivedSize f hf
      · rw [List.mem_singleton.mp hf]
        exact ⟨List.length_pos_iff.mpr hne, hlen⟩
    · rw [hwritten]
      exact h.written
    · intro hup
      obtain ⟨hqueue, -⟩ := h.queue (hactive ▸ hup)
      rw [hqueued, hqueue, htickNs, silenceLength, put_arrived, List.getLast?_concat, Fifo.put]
      refine ⟨?_, rfl⟩
      change (if p.frames.waiting.length < 31 then _ else _) = _
      split
      · rfl
      · rfl

theorem silenceLength_sized {frames : Fifo.Queue (List Int)}
    (h : ∀ frame ∈ frames.arrived, FrameSized frame) :
    1 ≤ silenceLength frames ∧ silenceLength frames ≤ 1024 := by
  rw [silenceLength]
  rcases hlast : frames.arrived.getLast? with _ | frame
  · decide
  · exact h frame (List.mem_of_getLast? hlast)

theorem tick_taken (p : Playout) (e : Env)
    (h : p.frames.departed.filterMap taken? = p.given.filterMap Given.frame?) :
    (p.step (.tick e)).frames.departed.filterMap taken? =
      (p.step (.tick e)).given.filterMap Given.frame? := by
  simp only [Playout.step, Fifo.take, List.filterMap_append, h]
  rcases p.frames.waiting with _ | ⟨frame, rest⟩
  · rfl
  · rfl

theorem tick_sized {wrote : List Bytes} {p : Playout} {s : SmSip} (h : Plays wrote p s) (e : Env) :
    ∀ g ∈ (p.step (.tick e)).given, FrameSized g.pcm := by
  intro g hg
  rcases List.mem_append.mp hg with hg | hg
  · exact h.givenSize g hg
  · rw [List.mem_singleton.mp hg]
    rcases hw : p.frames.waiting with _ | ⟨frame, rest⟩
    · obtain ⟨hpos, hle⟩ := silenceLength_sized h.arrivedSize
      rw [FrameSized, Given.pcm, List.length_replicate]
      exact ⟨hpos, hle⟩
    · exact h.arrivedSize frame (h.sound.mem_arrived (hw ▸ List.mem_cons_self))

theorem tick_given {wrote : List Bytes} {p : Playout} {s : SmSip} (h : Plays wrote p s)
    (hactive : s.callActive) (e : Env) :
    (p.step (.tick e)).given.map Given.pcm = p.given.map Given.pcm ++ [tickFrame s] := by
  obtain ⟨hqueue, htickNs⟩ := h.queue hactive
  rw [tickFrame_queued h.ring, hqueue, htickNs, Playout.step, List.map_append]
  rcases p.frames.waiting with _ | ⟨frame, rest⟩
  · rfl
  · rfl

theorem Plays.tick {wrote : List Bytes} {p : Playout} {s : SmSip} (h : Plays wrote p s)
    (hactive : s.callActive) (e : Env) :
    Plays wrote (p.step (.tick e)) (queueStep s (.tick e)) := by
  obtain ⟨t, hpopped, htick⟩ := audioTick_eq s e
  obtain ⟨hring, hqueued⟩ := hpopped.queued_eq h.ring
  obtain ⟨hqueue, htickNs⟩ := h.queue hactive
  have hgiven := tick_given h hactive e
  have hsame : t.written = s.written ∧ t.tickNs = s.tickNs := by
    cases hpopped with
    | frame => exact ⟨rfl, rfl⟩
    | silence => exact ⟨rfl, rfl⟩
  have hwritten := (feedDaemon_frame t (tickFrame s) e).written
  have hfed := feedDaemon_fed t (tickFrame s) e
  rw [queueStep, htick]
  generalize feedDaemon t (tickFrame s) e = result at hwritten hfed
  refine ⟨h.sound.take, tick_taken p e h.taken, h.arrivedSize, tick_sized h e, ?_, ?_, ?_⟩
  · cases hfed with
    | silent s' hkeeps => exact (hkeeps.queued hring).1
    | packet s' hkeeps => exact (hkeeps.queued hring).1
    | hungUp t' => exact inRing_over t'
  · have hpayloads := congrArg (List.map pcmBytes) hgiven
    rw [List.map_append, List.map_map, List.map_map] at hpayloads
    rw [hwritten, hsame.1, List.map_append, h.written, List.append_assoc]
    exact congrArg (wrote ++ ·) hpayloads.symm
  · intro hup
    have hkept {s' : SmSip} (hkeeps : KeepsQueue t s') :
        queued s' = p.frames.waiting.tail ∧ s'.tickNs = silenceLength p.frames := by
      rw [(hkeeps.queued hring).2, hqueued, hqueue, hkeeps.tickNs, hsame.2, htickNs]
      exact ⟨rfl, rfl⟩
    cases hfed with
    | silent s' hkeeps => exact hkept hkeeps
    | packet s' hkeeps => exact hkept hkeeps
    | hungUp t' => exact absurd hup Bool.false_ne_true

def handedFrames (s : SmSip) (ops : List QueueOp) : List (List Int) :=
  expand queueStep
    (fun s op => match op with
      | .tick _ => [tickFrame s]
      | .enqueue _ _ => []) s ops

theorem plays_run (ops : List QueueOp) {wrote : List Bytes} {p : Playout} {s : SmSip}
    (h : Plays wrote p s) (hcall : Along queueStep (fun s _ => s.callActive) s ops) :
    Plays wrote (run Playout.step p ops) (run queueStep s ops) ∧
      p.given.map Given.pcm ++ handedFrames s ops =
        (run Playout.step p ops).given.map Given.pcm := by
  induction ops generalizing p s with
  | nil => exact ⟨h, List.append_nil _⟩
  | cons op ops ih =>
      obtain ⟨hactive, hrest⟩ := hcall
      cases op with
      | enqueue pcm nsamples =>
          obtain ⟨hplays, hhanded⟩ := ih (h.enqueue pcm nsamples) hrest
          refine ⟨hplays, ?_⟩
          have hgiven : (p.step (.enqueue pcm nsamples)).given = p.given := by
            rw [Playout.step]
            split
            · rfl
            · rfl
          rwa [hgiven] at hhanded
      | tick e =>
          obtain ⟨hplays, hhanded⟩ := ih (h.tick hactive e) hrest
          refine ⟨hplays, ?_⟩
          rwa [tick_given h hactive e, List.append_assoc] at hhanded

theorem playout_arrived (ops : List QueueOp) (p : Playout) :
    (run Playout.step p ops).frames.arrived = p.frames.arrived ++ ops.filterMap arrival := by
  induction ops generalizing p with
  | nil => exact (List.append_nil _).symm
  | cons op ops ih =>
      rw [run_cons, ih]
      cases op with
      | enqueue pcm nsamples =>
          rw [Playout.step, List.filterMap_cons, arrival]
          split
          · rfl
          · rw [put_arrived, List.append_assoc]
            rfl
      | tick e => rfl

structure PlaysOut (s : SmSip) (ops : List QueueOp) (s' : SmSip) (p : Playout) : Prop where
  bounded : p.frames.waiting.length ≤ 31
  arrived : p.frames.arrived = ops.filterMap arrival
  inOrder : p.frames.departed.map Fifo.Departure.item ++ p.frames.waiting = p.frames.arrived
  taken : p.frames.departed.filterMap taken? = p.given.filterMap Given.frame?
  handed : handedFrames s ops = p.given.map Given.pcm
  written : s'.written.map WriteCall.payload =
    s.written.map WriteCall.payload ++ (handedFrames s ops).map pcmBytes
  sizes : ∀ frame ∈ handedFrames s ops, FrameSized frame
  ring : InRing s'
  queue : s'.callActive → queued s' = p.frames.waiting

theorem rx_queue_is_a_fifo (t : SmSip) (m : SipMsg) (e : Env) (daemon : Peer)
    (ops : List QueueOp)
    (hcall : Along queueStep (fun s _ => s.callActive) (recordCall t m e daemon) ops) :
    PlaysOut (recordCall t m e daemon) ops (run queueStep (recordCall t m e daemon) ops)
      (run Playout.step .empty ops) := by
  have hstart : Plays ((recordCall t m e daemon).written.map WriteCall.payload) .empty
      (recordCall t m e daemon) := by
    refine ⟨Fifo.sound_empty 31, rfl, by simp [Playout.empty, Fifo.empty],
      by simp [Playout.empty], ⟨Nat.two_pow_pos 5, Nat.two_pow_pos 5⟩, (List.append_nil _).symm,
      fun _ => ⟨?_, rfl⟩⟩
    exact Circular.contents_self _ 0
  obtain ⟨hplays, hhanded⟩ := plays_run ops hstart hcall
  change handedFrames (recordCall t m e daemon) ops = _ at hhanded
  refine
    { bounded := hplays.sound.bounded
      arrived := playout_arrived ops .empty
      inOrder := hplays.sound.inOrder
      taken := hplays.taken
      handed := hhanded
      written := ?_
      sizes := ?_
      ring := hplays.ring
      queue := fun hup => (hplays.queue hup).1 }
  · rw [hplays.written, hhanded, List.map_map]
    rfl
  · intro frame hframe
    rw [hhanded] at hframe
    obtain ⟨g, hg, rfl⟩ := List.mem_map.mp hframe
    exact hplays.givenSize g hg

def threeSamples : QueueOp := .enqueue (fun k => k) 3

def idleTick : QueueOp := .tick quietWake.toEnv

def queueCall : SmSip :=
  recordCall (smSipCreate ataConfig) (parseSip ⟨[], 0, []⟩) quietWake.toEnv ⟨[], []⟩

theorem full_queue_gives_up_its_oldest :
    let ops := threeSamples :: .enqueue (fun _ => 7) (-5) ::
      (List.replicate 31 (.enqueue (fun _ => 1) 2) ++ List.replicate 32 idleTick)
    handedFrames queueCall ops = List.replicate 31 [1, 1] ++ [[0, 0]] ∧
      PlaysOut queueCall ops (run queueStep queueCall ops) (run Playout.step .empty ops) := by
  intro ops
  obtain ⟨hhanded, hcall⟩ : handedFrames queueCall ops = List.replicate 31 [1, 1] ++ [[0, 0]] ∧
      Along queueStep (fun s _ => s.callActive) queueCall ops := by
    decide
  exact ⟨hhanded, rx_queue_is_a_fifo _ _ _ _ ops hcall⟩

end Softmodem.Sip

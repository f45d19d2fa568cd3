import Softmodem.AudioSocket.Prompt
import Softmodem.Sip.RxQueue

namespace Softmodem.Sip

open AudioSocket CString Transition

-- The daemon's reply to one frame, and how many waits of feed_daemon expire before it is there.
structure Answer where
  late : Nat
  payload : Bytes
  sized : 2 ≤ payload.length ∧ payload.length ≤ smAsMaxPayload

def Answer.message (a : Answer) : Message := ⟨smAsKindAudio, a.payload⟩

def Answer.arrival (a : Answer) : List RecvEvent :=
  List.replicate a.late .timeout ++ [.data 3, .data a.payload.length]

def answeringPeer (answers : List Answer) : Peer :=
  ⟨encode (answers.map Answer.message), answers.flatMap Answer.arrival⟩

-- The packet's payload when the reply is forwarded.
def Answer.audio (a : Answer) : Bytes :=
  (daemonSamples a.payload a.payload.length).map smUlawEncode

def due? : List Answer → Option Answer
  | [] => none
  | a :: _ => if a.late = 0 then some a else none

def afterWait : List Answer → List Answer
  | [] => []
  | a :: rest => if a.late = 0 then rest else { a with late := a.late - 1 } :: rest

structure Waiting (answers : List Answer) (s : SmSip) : Prop where
  fresh : Fresh s.daemonAs
  daemon : s.daemon = answeringPeer answers

theorem Answer.payload_ne_nil (a : Answer) : a.payload ≠ [] := by
  intro h
  have hlen := a.sized.1
  rw [h] at hlen
  simp at hlen

theorem readDaemon_waiting {answers : List Answer} {s : SmSip} (h : Waiting answers s) :
    ∃ as, Fresh as ∧ readDaemon s =
      ((match due? answers with
        | some a => .message smAsKindAudio a.payload a.payload.length
        | none => .interrupted .timeout),
        { s with daemonAs := as, daemon := answeringPeer (afterWait answers) }) := by
  obtain ⟨hfresh, hdaemon⟩ := h
  rw [readDaemon, hdaemon]
  cases answers with
  | nil =>
      have hread := smAstRead_silent hfresh []
      exact ⟨_, hfresh, by rw [answeringPeer, List.map_nil, encode_nil, List.flatMap_nil, hread]; rfl⟩
  | cons a rest =>
      rcases ha : a.late with _ | late
      · obtain ⟨as, hread, hfresh'⟩ := smAstRead_arrived hfresh a.message a.payload_ne_nil a.sized.2
          (encode (rest.map Answer.message)) (rest.flatMap Answer.arrival)
        have hpeer : answeringPeer (a :: rest) =
            ⟨a.message.wire ++ encode (rest.map Answer.message),
              .data 3 :: .data a.message.payload.length :: rest.flatMap Answer.arrival⟩ := by
          rw [answeringPeer, List.flatMap_cons, Answer.arrival, ha]
          rfl
        refine ⟨as, hfresh', ?_⟩
        rw [hpeer, hread, due?, if_pos ha, afterWait, if_pos ha]
        rfl
      · have hpeer : answeringPeer (a :: rest) =
            ⟨encode ((a :: rest).map Answer.message),
              .timeout :: ({ a with late := late } :: rest).flatMap Answer.arrival⟩ := by
          rw [answeringPeer, List.flatMap_cons, Answer.arrival, ha, List.replicate_succ]
          rfl
        have hlate : ¬ a.late = 0 := by omega
        refine ⟨_, hfresh, ?_⟩
        rw [hpeer, smAstRead_timeout hfresh, due?, if_neg hlate, afterWait, if_neg hlate, ha]
        rfl

theorem sendRtp_payload (s : SmSip) (a : Answer) :
    ((sendRtp s a.payload a.payload.length).2.findSome? rtpOf).map rtpPayload = some a.audio := by
  have hsent : a.audio = (List.range (min (a.payload.length / 2) smSipRtpMaxpay)).map fun j =>
      smUlawEncode (pcmSample a.payload j) := List.map_map
  have hpayload := rtpHeader_payload s a.audio
  rw [hsent] at hpayload ⊢
  exact congrArg some hpayload

structure Fulfilled (answers : List Answer) (result : SmSip × List Action) : Prop where
  waiting : Waiting (afterWait answers) result.1
  forwarded : (result.2.findSome? rtpOf).map rtpPayload = (due? answers).map Answer.audio

theorem daemonReplies_fulfilled {answers : List Answer} {s : SmSip} (h : Waiting answers s)
    (e : Env) (left : Nat) : Fulfilled answers (daemonReplies e (left + 1) s) := by
  obtain ⟨as, hfresh, hread⟩ := readDaemon_waiting h
  rw [daemonReplies, hread]
  rcases hdue : due? answers with _ | a
  · exact ⟨⟨hfresh, rfl⟩, by rw [hdue]; rfl⟩
  · dsimp only
    rw [if_pos ⟨rfl, a.sized.1⟩]
    exact ⟨⟨hfresh, rfl⟩, by rw [hdue]; exact sendRtp_payload _ a⟩

theorem feedDaemon_fulfilled {answers : List Answer} {s : SmSip} (h : Waiting answers s)
    (pcm : List Int) (e : Env) (hup : (feedDaemon s pcm e).1.callActive) :
    Fulfilled answers (feedDaemon s pcm e) := by
  simp only [feedDaemon] at hup ⊢
  split at hup
  · exact absurd hup Bool.false_ne_true
  · next hwritten =>
      rw [if_neg hwritten]
      have hwaiting : Waiting answers
          { s with written := s.written ++ [frameWrite pcm e] } := ⟨h.fresh, h.daemon⟩
      exact daemonReplies_fulfilled hwaiting e _

theorem audioTick_fulfilled {answers : List Answer} {s : SmSip} (h : Waiting answers s) (e : Env)
    (hup : (audioTick s e).1.callActive) : Fulfilled answers (audioTick s e) := by
  obtain ⟨t, hpopped, htick⟩ := audioTick_eq s e
  rw [htick] at hup ⊢
  have ht : Waiting answers t := by
    cases hpopped with
    | frame => exact ⟨h.fresh, h.daemon⟩
    | silence => exact ⟨h.fresh, h.daemon⟩
  exact feedDaemon_fulfilled ht (tickFrame s) e hup

theorem enqueueRx_waiting {answers : List Answer} {s : SmSip} (h : Waiting answers s)
    (pcm : List Int) : Waiting answers (enqueueRx s pcm) := by
  rw [enqueueRx]
  dsimp only
  split
  · exact h
  · split
    · exact ⟨h.fresh, h.daemon⟩
    · exact ⟨h.fresh, h.daemon⟩

theorem queueStep_up {s : SmSip} {op : QueueOp} (h : (queueStep s op).callActive) :
    s.callActive := by
  cases op with
  | enqueue pcm nsamples =>
      rwa [queueStep, (enqueueRx_sameCall s (frameArg pcm nsamples)).callActive] at h
  | tick e =>
      rw [queueStep] at h
      have hticked := audioTick_ticked s e
      generalize audioTick s e = result at h hticked
      cases hticked with
      | silent s' hsame => exact hsame.callActive ▸ h
      | sent s' hsame => exact hsame.callActive ▸ h
      | hungUp s' => exact absurd h Bool.false_ne_true

theorem run_up {s : SmSip} (ops : List QueueOp) (h : (run queueStep s ops).callActive) :
    s.callActive := by
  induction ops generalizing s with
  | nil => exact h
  | cons op ops ih => exact queueStep_up (ih h)

-- The packet that each audio_tick forwards, if any.
def tickPackets (s : SmSip) (ops : List QueueOp) : List (Option Bytes) :=
  expand queueStep
    (fun s op => match op with
      | .tick e => [(audioTick s e).2.findSome? rtpOf]
      | .enqueue _ _ => []) s ops

def deliveries : List Answer → Nat → List (Option Answer)
  | _, 0 => []
  | answers, n + 1 => due? answers :: deliveries (afterWait answers) n

theorem tickPackets_deliveries {answers : List Answer} {s : SmSip} (ops : List QueueOp)
    (h : Waiting answers s) (hup : (run queueStep s ops).callActive) :
    (tickPackets s ops).map (Option.map rtpPayload) =
      (deliveries answers (tickPackets s ops).length).map (Option.map Answer.audio) := by
  induction ops generalizing s answers with
  | nil => rfl
  | cons op ops ih =>
      cases op with
      | enqueue pcm nsamples => exact ih (enqueueRx_waiting h (frameArg pcm nsamples)) hup
      | tick e =>
          obtain ⟨hwaiting, hforwarded⟩ := audioTick_fulfilled h e (run_up ops hup)
          exact congrArg₂ List.cons hforwarded (ih hwaiting hup)

section Pairing

variable {α β : Type*}

-- A tick forwards the next reply of the daemon, so it is known by the number of those before.
def repliesBefore (packets : List (Option α)) (k : Nat) : Nat :=
  (packets.take k).countP Option.isSome

def Paired (packets : List (Option α)) : Prop :=
  ∀ (k : Nat) (pkt : α), packets[k]? = some (some pkt) → repliesBefore packets k = k

def Silent (packets : List (Option α)) : Prop :=
  ∀ (k : Nat) (pkt : α), packets[k]? ≠ some (some pkt)

theorem repliesBefore_map (f : α → β) (packets : List (Option α)) (k : Nat) :
    repliesBefore (packets.map (Option.map f)) k = repliesBefore packets k := by
  rw [repliesBefore, ← List.map_take, List.countP_map, repliesBefore]
  congr 1
  funext pkt
  cases pkt with
  | none => rfl
  | some => rfl

theorem repliesBefore_some (x : α) (packets : List (Option α)) (k : Nat) :
    repliesBefore (some x :: packets) (k + 1) = repliesBefore packets k + 1 :=
  List.countP_cons_of_pos rfl

theorem repliesBefore_none (packets : List (Option α)) (k : Nat) :
    repliesBefore (none :: packets) (k + 1) = repliesBefore packets k :=
  List.countP_cons_of_neg Bool.false_ne_true

theorem getElem?_map_some {f : α → β} {packets : List (Option α)} {k : Nat} {y : β} :
    (packets.map (Option.map f))[k]? = some (some y) ↔
      ∃ x, packets[k]? = some (some x) ∧ f x = y := by
  simp

theorem paired_map (f : α → β) (packets : List (Option α)) :
    Paired (packets.map (Option.map f)) ↔ Paired packets := by
  constructor
  · intro h k pkt hpkt
    rw [← repliesBefore_map f]
    exact h k (f pkt) (getElem?_map_some.mpr ⟨pkt, hpkt, rfl⟩)
  · intro h k pkt hpkt
    obtain ⟨x, hx, -⟩ := getElem?_map_some.mp hpkt
    rw [repliesBefore_map]
    exact h k x hx

theorem paired_cons_some (x : α) (packets : List (Option α)) :
    Paired (some x :: packets) ↔ Paired packets := by
  constructor
  · intro h k pkt hpkt
    have hk := h (k + 1) pkt hpkt
    rw [repliesBefore_some] at hk
    exact Nat.succ.inj hk
  · intro h k pkt hpkt
    cases k with
    | zero => rfl
    | succ k => rw [repliesBefore_some, h k pkt hpkt]

theorem paired_cons_none (packets : List (Option α)) :
    Paired (none :: packets) ↔ Silent packets := by
  constructor
  · intro h k pkt hpkt
    have hk := h (k + 1) pkt hpkt
    rw [repliesBefore_none] at hk
    have hle : repliesBefore packets k ≤ (packets.take k).length := List.countP_le_length
    have htake := List.length_take_le k packets
    omega
  · intro h k pkt hpkt
    cases k with
    | zero => cases hpkt
    | succ k => exact absurd hpkt (h k pkt)

theorem silent_cons (x : Option α) (packets : List (Option α)) :
    Silent (x :: packets) ↔ x = none ∧ Silent packets := by
  constructor
  · intro h
    refine ⟨?_, fun k pkt => h (k + 1) pkt⟩
    cases x with
    | none => rfl
    | some y => exact absurd rfl (h 0 y)
  · rintro ⟨rfl, h⟩ k pkt
    cases k with
    | zero => exact fun hpkt => nomatch hpkt
    | succ k => exact h k pkt

end Pairing

def arrivalTick (answers : List Answer) (i : Nat) : Nat :=
  i + ((answers.take (i + 1)).map Answer.late).sum

-- No reply that the ticks get to read comes after the wait of its own tick.
def NoneReadLate (answers : List Answer) (ticks : Nat) : Prop :=
  ∀ i a, answers[i]? = some a → 0 < a.late → ticks ≤ arrivalTick answers i

theorem arrivalTick_succ (a : Answer) (answers : List Answer) (i : Nat) :
    arrivalTick (a :: answers) (i + 1) = arrivalTick answers i + a.late + 1 := by
  rw [arrivalTick, List.take_succ_cons, List.map_cons, List.sum_cons, arrivalTick]
  omega

theorem deliveries_nil (n : Nat) : Silent (deliveries [] n) := by
  induction n with
  | zero => exact fun k pkt h => nomatch h
  | succ n ih => exact (silent_cons _ _).mpr ⟨rfl, ih⟩

theorem deliveries_silent (a : Answer) (rest : List Answer) (n : Nat) :
    Silent (deliveries (a :: rest) n) ↔ n ≤ a.late := by
  induction n generalizing a with
  | zero => exact ⟨fun _ => Nat.zero_le _, fun _ k pkt h => nomatch h⟩
  | succ n ih =>
      rw [deliveries, silent_cons, due?, afterWait]
      rcases ha : a.late with _ | late
      · simp
      · have hlate : ¬ late + 1 = 0 := Nat.succ_ne_zero late
        rw [if_neg hlate, if_neg hlate, ih]
        simp

theorem deliveries_paired (answers : List Answer) (n : Nat) :
    Paired (deliveries answers n) ↔ NoneReadLate answers n := by
  induction n generalizing answers with
  | zero => exact ⟨fun _ _ _ _ _ => Nat.zero_le _, fun _ _ _ h => nomatch h⟩
  | succ n ih =>
      cases answers with
      | nil =>
          refine ⟨fun _ i a ha => absurd ha (by simp), fun _ => ?_⟩
          exact (paired_cons_none _).mpr (deliveries_nil n)
      | cons a rest =>
          rcases ha : a.late with _ | late
          · rw [deliveries, due?, if_pos ha, afterWait, if_pos ha, paired_cons_some, ih]
            constructor
            · intro h i b hb hlate
              cases i with
              | zero =>
                  obtain rfl := Option.some.inj hb
                  omega
              | succ i =>
                  have hi := h i b hb hlate
                  rw [arrivalTick_succ]
                  omega
            · intro h i b hb hlate
              have hi := h (i + 1) b hb hlate
              rw [arrivalTick_succ, ha] at hi
              omega
          · have hlate : ¬ a.late = 0 := by omega
            rw [deliveries, due?, if_neg hlate, afterWait, if_neg hlate, paired_cons_none,
              deliveries_silent, ha]
            constructor
            · intro hn i b hb _
              have hsum : a.late ≤ arrivalTick (a :: rest) i := by
                rw [arrivalTick, List.take_succ_cons, List.map_cons, List.sum_cons]
                omega
              simp only at hn
              omega
            · intro h
              have hfirst := h 0 a rfl (by omega)
              rw [arrivalTick, List.take_succ_cons, List.take_zero, List.map_singleton,
                List.sum_singleton] at hfirst
              simp only
              omega

theorem deliveries_getElem? (answers : List Answer) (n k : Nat) {a : Answer}
    (h : (deliveries answers n)[k]? = some (some a)) :
    (answers[repliesBefore (deliveries answers n) k]?).map Answer.audio = some a.audio := by
  induction n generalizing answers k with
  | zero => cases h
  | succ n ih =>
      cases answers with
      | nil => exact absurd h (deliveries_nil (n + 1) k a)
      | cons b rest =>
          rcases Decidable.em (b.late = 0) with hb | hb
          · rw [deliveries, due?, if_pos hb, afterWait, if_pos hb] at h ⊢
            cases k with
            | zero =>
                obtain rfl := Option.some.inj (Option.some.inj h)
                rfl
            | succ k =>
                rw [repliesBefore_some]
                exact ih rest k h
          · rw [deliveries, due?, if_neg hb, afterWait, if_neg hb] at h ⊢
            cases k with
            | zero => cases h
            | succ k =>
                have hrest := ih _ k h
                rw [repliesBefore_none]
                generalize repliesBefore _ k = j at hrest ⊢
                cases j with
                | zero => exact hrest
                | succ j => exact hrest

-- Each packet carries the audio of the reply that it stands for.
def InOrder (answers : List Answer) (packets : List (Option Bytes)) : Prop :=
  ∀ k pkt, packets[k]? = some (some pkt) →
    (answers[repliesBefore packets k]?).map Answer.audio = some (rtpPayload pkt)

theorem replies_paired_iff (t : SmSip) (m : SipMsg) (e : Env) (answers : List Answer)
    (ops : List QueueOp)
    (hup : (run queueStep (recordCall t m e (answeringPeer answers)) ops).callActive) :
    let packets := tickPackets (recordCall t m e (answeringPeer answers)) ops
    InOrder answers packets ∧ (Paired packets ↔ NoneReadLate answers packets.length) := by
  intro packets
  have hwaiting : Waiting answers (recordCall t m e (answeringPeer answers)) := ⟨fresh_init, rfl⟩
  have hpackets := tickPackets_deliveries ops hwaiting hup
  change packets.map _ = (deliveries answers packets.length).map _ at hpackets
  refine ⟨fun k pkt hpkt => ?_, ?_⟩
  · have hk := (getElem?_map_some (f := rtpPayload)).mpr ⟨pkt, hpkt, rfl⟩
    rw [hpackets] at hk
    obtain ⟨a, ha, haudio⟩ := getElem?_map_some.mp hk
    rw [← haudio, ← deliveries_getElem? answers packets.length k ha,
      ← repliesBefore_map rtpPayload packets, hpackets, repliesBefore_map]
  · rw [← paired_map rtpPayload packets, hpackets, paired_map, deliveries_paired]

def samples (late : Nat) (low : UInt8) : Answer := ⟨late, [low, 0, low, 0], by simp [smAsMaxPayload]⟩

def threeTicks : List QueueOp := [idleTick, idleTick, idleTick]

def answeredCall (answers : List Answer) : SmSip :=
  recordCall (smSipCreate ataConfig) (parseSip ⟨[], 0, []⟩) quietWake.toEnv (answeringPeer answers)

theorem prompt_replies_are_paired :
    Paired (tickPackets (answeredCall [samples 0 1, samples 0 2, samples 4 3]) threeTicks) := by
  obtain ⟨hup, hlength⟩ : (run queueStep
        (answeredCall [samples 0 1, samples 0 2, samples 4 3]) threeTicks).callActive ∧
      (tickPackets (answeredCall [samples 0 1, samples 0 2, samples 4 3]) threeTicks).length = 3 := by
    decide +kernel
  refine (replies_paired_iff _ _ _ _ threeTicks hup).2.mpr ?_
  change NoneReadLate _
    (tickPackets (answeredCall [samples 0 1, samples 0 2, samples 4 3]) threeTicks).length
  rw [hlength]
  rintro (_ | _ | _ | i) a ha hlate
  · obtain rfl := Option.some.inj ha
    exact absurd hlate (lt_irrefl 0)
  · obtain rfl := Option.some.inj ha
    exact absurd hlate (lt_irrefl 0)
  · decide
  · cases ha

theorem late_reply_delays_the_audio :
    ¬ ∀ (t : SmSip) (m : SipMsg) (e : Env) (answers : List Answer) (ops : List QueueOp),
      (run queueStep (recordCall t m e (answeringPeer answers)) ops).callActive →
        Paired (tickPackets (recordCall t m e (answeringPeer answers)) ops) := by
  intro h
  obtain ⟨hup, hpackets⟩ : (run queueStep
        (answeredCall [samples 1 1, samples 0 2, samples 0 3]) threeTicks).callActive ∧
      (tickPackets (answeredCall [samples 1 1, samples 0 2, samples 0 3]) threeTicks).map
        (Option.map rtpPayload) = [none, some (samples 1 1).audio, some (samples 0 2).audio] := by
    decide +kernel
  have hpaired := (paired_map rtpPayload _).mpr (h _ _ _ _ _ hup)
  change Paired ((tickPackets (answeredCall [samples 1 1, samples 0 2, samples 0 3]) threeTicks).map
    (Option.map rtpPayload)) at hpaired
  rw [hpackets] at hpaired
  exact absurd (hpaired 1 _ rfl) (by decide)

end Softmodem.Sip

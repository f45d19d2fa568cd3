import Softmodem.Lib.Pacer
import Softmodem.Sip.RxQueue

namespace Softmodem.Sip

open CString Transition

def Timespec.ns (t : Timespec) : Int := t.sec * 1000000000 + t.nsec

structure Normalised (t : Timespec) : Prop where
  low : 0 ≤ t.nsec
  high : t.nsec < 1000000000

def millisecond : Int := 1000000

theorem tsAddMs_ns (t : Timespec) (ms : Int) : (tsAddMs t ms).ns = t.ns + ms * millisecond := by
  simp only [tsAddMs, millisecond]
  split
  · simp only [Timespec.ns]
    omega
  · simp only [Timespec.ns]
    omega

theorem tsAddMs_normalised {t : Timespec} (h : Normalised t) {ms : Int} (hms : 0 ≤ ms) :
    Normalised (tsAddMs t ms) := by
  obtain ⟨hlow, hhigh⟩ := h
  simp only [tsAddMs]
  split
  · exact ⟨by simp only; omega, by simp only; omega⟩
  · exact ⟨by simp only; omega, by simp only; omega⟩

-- The division truncates towards zero, so the milliseconds are off by less than one either way.
theorem tsMsUntil_near (t now : Timespec) :
    t.ns - now.ns - millisecond < tsMsUntil t now * millisecond ∧
      tsMsUntil t now * millisecond < t.ns - now.ns + millisecond := by
  simp only [tsMsUntil, Timespec.ns, millisecond]
  generalize hd : t.nsec - now.nsec = d
  have hq : d - 1000000 < d.tdiv 1000000 * 1000000 ∧ d.tdiv 1000000 * 1000000 < d + 1000000 := by
    rcases Int.le_total 0 d with h | h
    · rw [Int.tdiv_eq_ediv_of_nonneg h]
      omega
    · obtain ⟨a, rfl⟩ : ∃ a, d = -a := ⟨-d, (Int.neg_neg d).symm⟩
      rw [Int.neg_tdiv, Int.tdiv_eq_ediv_of_nonneg (by omega)]
      omega
  omega

def Resyncs (s : SmSip) (now : Timespec) : Prop := tsMsUntil (tsAddMs s.nextTick 20) now ≤ -100

instance (s : SmSip) (now : Timespec) : Decidable (Resyncs s now) :=
  inferInstanceAs (Decidable (_ ≤ _))

theorem schedule_nextTick (s : SmSip) (now : Timespec) :
    (schedule s now).nextTick =
      if Resyncs s now then tsAddMs now 20 else tsAddMs s.nextTick 20 := by
  rw [schedule]
  dsimp only
  split
  · next h => exact (if_pos h).symm
  · next h => exact (if_neg h).symm

theorem schedule_turned {s : SmSip} {now now' : Timespec} (hdue : tsMsUntil s.nextTick now ≤ 0)
    (hclock : now.ns ≤ now'.ns) :
    Pacer.Turned (20 * millisecond) millisecond (100 * millisecond) s.nextTick.ns now.ns
      (schedule s now').nextTick.ns now'.ns := by
  have hnear := tsMsUntil_near s.nextTick now
  have hnear' := tsMsUntil_near (tsAddMs s.nextTick 20) now'
  have hns := tsAddMs_ns s.nextTick 20
  have hns' := tsAddMs_ns now' 20
  rw [schedule_nextTick]
  rcases Decidable.em (Resyncs s now') with h | h
  · rw [if_pos h]
    rw [Resyncs] at h
    simp only [millisecond] at *
    exact ⟨by omega, hclock, .inr ⟨by omega, by omega⟩⟩
  · rw [if_neg h]
    rw [Resyncs] at h
    simp only [millisecond] at *
    exact ⟨by omega, hclock, .inl ⟨by omega, by omega⟩⟩

inductive ClockEvent where
  | bound (t : Timespec)
  | woke (t : Timespec)
  | ticked (t : Timespec) (resync : Bool)
  deriving DecidableEq, Repr

def ClockEvent.time : ClockEvent → Timespec
  | .bound t => t
  | .woke t => t
  | .ticked t _ => t

def ClockEvent.isTick : ClockEvent → Bool
  | .ticked _ _ => true
  | _ => false

def ClockEvent.bound? : ClockEvent → Option Timespec
  | .bound t => some t
  | _ => none

def Due (s : SmSip) (now : Timespec) : Prop :=
  s.callActive ∧ s.rtpPeerKnown ∧ tsMsUntil s.nextTick now ≤ 0

instance (s : SmSip) (now : Timespec) : Decidable (Due s now) := inferInstanceAs (Decidable (_ ∧ _))

-- The calls of clock_gettime in one step, in their order.
def clockEvents (maxCalls : Int) (s : SipRun) (e : LoopEnv) : List ClockEvent :=
  match s.stage with
  | .poll =>
      (if s.server.rtpPeerKnown = false ∧ (step maxCalls s e).server.rtpPeerKnown then
        [.bound e.firstPacket]
      else []) ++
        match (step maxCalls s e).stage with
        | .pump now => [.woke now]
        | _ => []
  | .pump now => if Due s.server now then [.ticked e.now (decide (Resyncs s.server e.now))] else []
  | .returned _ => []

structure Clock (events : List ClockEvent) : Prop where
  normalised : ∀ x ∈ events, Normalised x.time
  monotone : (events.map fun x => x.time.ns).Pairwise (· ≤ ·)

inductive Woken (s : SipRun) (e : LoopEnv) (s' : SipRun) : Prop
  | same (hknown : s'.server.rtpPeerKnown = s.server.rtpPeerKnown)
      (hnext : s'.server.nextTick = s.server.nextTick)
  | ended (hactive : s'.server.callActive = false) (hknown : s'.server.rtpPeerKnown = false)
  | bound (hbefore : s.server.rtpPeerKnown = false) (hknown : s'.server.rtpPeerKnown)
      (hnext : s'.server.nextTick = tsAddMs e.firstPacket 40)

def PumpsAt (s' : SipRun) (now : Timespec) : Prop :=
  ∀ t, s'.stage = .pump t → t = now ∧ s'.server.callActive ∧ s'.server.rtpPeerKnown

theorem pumpStage_pumps (s : SmSip) (now : Timespec) (t : Timespec)
    (h : pumpStage s now = .pump t) : t = now ∧ s.callActive ∧ s.rtpPeerKnown := by
  rw [pumpStage] at h
  split at h
  · next hup => exact ⟨(Stage.pump.inj h).symm, hup⟩
  · cases h

theorem receiveRtp_woken (s : SmSip) (r : Received) (first : Timespec) :
    ((receiveRtp s r first).rtpPeerKnown = s.rtpPeerKnown ∧
        (receiveRtp s r first).nextTick = s.nextTick) ∨
      (s.rtpPeerKnown = false ∧ (receiveRtp s r first).rtpPeerKnown ∧
        (receiveRtp s r first).nextTick = tsAddMs first 40) := by
  have hprocess (t : SmSip) (pkt : Bytes) : (processRtp t pkt).nextTick = t.nextTick := by
    obtain ⟨rxq, head, tail, tickNs, drops, h⟩ := processRtp_queue t pkt
    rw [h]
  rw [receiveRtp]
  split
  · have hknown := (processRtp_sameCall (bindPeer s r.src first) (r.bytes.take 2048)).rtpPeerKnown
    have hnext := hprocess (bindPeer s r.src first) (r.bytes.take 2048)
    rw [hknown, hnext, bindPeer]
    split
    · next hbound => exact .inl ⟨rfl, rfl⟩
    · next hunbound => exact .inr ⟨Bool.eq_false_iff.mpr hunbound, rfl, rfl⟩
  · exact .inl ⟨rfl, rfl⟩

theorem Handled.nextTick {s : SmSip} {m : SipMsg} {src : SockAddr} {e : Env}
    {result : SmSip × List Action} (h : Handled s m src e result) :
    result.1.nextTick = s.nextTick := by
  cases h <;> rfl

theorem heardRequest_woken {s : SipRun} (hactive : s.server.callActive) (r : Received)
    (e : LoopEnv) : Woken s e (heardRequest s r e) := by
  have hserver := heardRequest_server s r e
  rcases receiveSip_cases s.server r.src e.toEnv (recvInto s.buf r e.line) with
    ⟨-, hr⟩ | ⟨-, hhandled⟩
  · rw [hr] at hserver
    exact .same (by rw [hserver]) (by rw [hserver])
  · have hnext := hhandled.nextTick
    rw [← hserver] at hnext
    rcases hhandled.keepsQueue hactive with hkeeps | ⟨t, hover⟩
    · rw [← hserver] at hkeeps
      exact .same hkeeps.rtpPeerKnown hnext
    · rw [← hserver] at hover
      exact .ended (by rw [hover]; rfl) (by rw [hover]; rfl)

theorem heardRequest_pumps (s : SipRun) (r : Received) (e : LoopEnv) :
    PumpsAt (heardRequest s r e) e.now := by
  intro t ht
  have hstage : (heardRequest s r e).stage =
      if (parseSip (recvInto s.buf r e.line)).isResponse then .poll
      else pumpStage (heardRequest s r e).server e.now := rfl
  rw [hstage] at ht
  split at ht
  · cases ht
  · exact pumpStage_pumps _ _ t ht

theorem awake_pumps (s : SipRun) (e : LoopEnv) : PumpsAt (awake s e) e.now := by
  rw [awake]
  split
  · intro t ht
    cases ht
  split
  · exact fun t ht => pumpStage_pumps _ _ t ht
  split
  · split
    · exact fun t ht => pumpStage_pumps _ _ t ht
    · exact heardRequest_pumps s _ e
  · exact fun t ht => pumpStage_pumps _ _ t ht

theorem awake_woken {s : SipRun} (hactive : s.server.callActive) (e : LoopEnv) :
    Woken s e (awake s e) := by
  rw [awake]
  split
  · exact .ended rfl rfl
  split
  · next r _ =>
      rcases receiveRtp_woken s.server r e.firstPacket with
        ⟨hknown, hnext⟩ | ⟨hbefore, hknown, hnext⟩
      · exact .same hknown hnext
      · exact .bound hbefore hknown hnext
  split
  · split
    · exact .same rfl rfl
    · exact heardRequest_woken hactive _ e
  · exact .same rfl rfl

theorem poll_pumps (maxCalls : Int) {s : SipRun} (hstage : s.stage = .poll) (e : LoopEnv) :
    PumpsAt (step maxCalls s e) e.now := by
  rw [step, hstage]
  dsimp only
  rw [pollTurn]
  split
  · intro t ht
    cases ht
  split
  · intro t ht
    cases hstage.symm.trans ht
  · intro t ht
    cases ht
  · exact awake_pumps s e

theorem poll_woken (maxCalls : Int) {s : SipRun} (hstage : s.stage = .poll)
    (hactive : s.server.callActive) (e : LoopEnv) : Woken s e (step maxCalls s e) := by
  rw [step, hstage]
  dsimp only
  rw [pollTurn]
  split
  · exact .same rfl rfl
  split
  · exact .same rfl rfl
  · exact .same rfl rfl
  · exact awake_woken hactive e

def tickCount (events : List ClockEvent) : Nat := events.countP ClockEvent.isTick

def AllTicks (ticks : List ClockEvent) : Prop := ∀ x ∈ ticks, x.isTick = true

def lastReading (woken : Timespec) (ticks : List ClockEvent) : Timespec :=
  (ticks.getLast?.map ClockEvent.time).getD woken

abbrev PumpLoop (woken : Timespec) (turns : Nat) (next now : Timespec) : Prop :=
  Pacer.Loop (20 * millisecond) millisecond (100 * millisecond) woken.ns turns next.ns now.ns

structure Burst (woken : Timespec) (ticks : List ClockEvent) : Prop where
  bound : ∀ W : Nat, (lastReading woken ticks).ns - woken.ns ≤ W * millisecond →
    ticks.length ≤ 7 + W / 20

structure Pumping (events : List ClockEvent) (s : SipRun) (now : Timespec) : Prop where
  known : s.server.callActive → s.server.rtpPeerKnown
  read : ∃ x ∈ events, x.time = now
  loop : ∀ pre woken ticks, events = pre ++ .woke woken :: ticks → AllTicks ticks →
    lastReading woken ticks = now ∧ PumpLoop woken ticks.length s.server.nextTick now
  ahead : ∀ t resync, events.getLast? = some (.ticked t resync) →
    s.server.nextTick.ns - now.ns < 21 * millisecond

structure Paced (events : List ClockEvent) (s : SipRun) : Prop where
  fresh : s.server.callActive → s.server.rtpPeerKnown = false → events = []
  normalised : s.server.rtpPeerKnown → Normalised s.server.nextTick
  drift : s.server.rtpPeerKnown → ∃ first, events.filterMap ClockEvent.bound? = [first] ∧
    ((∀ t, .ticked t true ∉ events) → s.server.nextTick.ns =
      first.ns + 40 * millisecond + 20 * millisecond * tickCount events)
  pumping : ∀ now, s.stage = .pump now → Pumping events s now
  bursts : ∀ pre woken ticks post, events = pre ++ .woke woken :: (ticks ++ post) →
    AllTicks ticks → Burst woken ticks

theorem burst_nil (woken : Timespec) : Burst woken [] := ⟨fun _ _ => Nat.zero_le _⟩

theorem PumpLoop.burst {woken next now : Timespec} {ticks : List ClockEvent}
    (h : PumpLoop woken ticks.length next now) (hlast : lastReading woken ticks = now) :
    Burst woken ticks := by
  refine ⟨fun W hspan => ?_⟩
  rw [hlast] at hspan
  have hbound := h.turns_bound (by decide) (by decide) (by decide) hspan
  rw [millisecond] at hbound
  omega

theorem split_last {events pre ticks : List ClockEvent} {x : ClockEvent} {woken : Timespec}
    (heq : events ++ [x] = pre ++ .woke woken :: ticks) :
    (events = pre ∧ x = .woke woken ∧ ticks = []) ∨
      ∃ ticks', ticks = ticks' ++ [x] ∧ events = pre ++ .woke woken :: ticks' := by
  rcases List.eq_nil_or_concat ticks with rfl | ⟨ticks', y, rfl⟩
  · obtain ⟨hevents, hx⟩ := List.append_inj' heq rfl
    exact .inl ⟨hevents, List.singleton_inj.mp hx, rfl⟩
  · rw [List.concat_eq_append, ← List.cons_append, ← List.append_assoc] at heq
    obtain ⟨hevents, hx⟩ := List.append_inj' heq rfl
    obtain rfl := List.singleton_inj.mp hx
    exact .inr ⟨ticks', List.concat_eq_append, hevents⟩

-- One more reading either ends the pump loop it is in or belongs to no burst that was there.
theorem bursts_append {events : List ClockEvent} {x : ClockEvent}
    (h : ∀ pre woken ticks post, events = pre ++ .woke woken :: (ticks ++ post) →
      AllTicks ticks → Burst woken ticks)
    (hx : ∀ pre woken ticks, events = pre ++ .woke woken :: ticks → AllTicks ticks →
      x.isTick = true → Burst woken (ticks ++ [x])) (pre : List ClockEvent) (woken : Timespec)
    (ticks post : List ClockEvent) (heq : events ++ [x] = pre ++ .woke woken :: (ticks ++ post))
    (hticks : AllTicks ticks) : Burst woken ticks := by
  rcases List.eq_nil_or_concat post with rfl | ⟨post', y, rfl⟩
  · rw [List.append_nil] at heq
    rcases split_last heq with ⟨-, -, rfl⟩ | ⟨ticks', rfl, hevents⟩
    · exact burst_nil woken
    · exact hx pre woken ticks' hevents
        (fun z hz => hticks z (List.mem_append_left _ hz))
        (hticks x (List.mem_append_right _ (List.mem_singleton_self x)))
  · rw [List.concat_eq_append, ← List.append_assoc, ← List.cons_append, ← List.append_assoc] at heq
    obtain ⟨hevents, -⟩ := List.append_inj' heq rfl
    exact h pre woken ticks post' hevents hticks

theorem audioTick_nextTick (s : SmSip) (e : Env) : (audioTick s e).1.nextTick = s.nextTick := by
  obtain ⟨t, hpopped, htick⟩ := audioTick_eq s e
  have hnext := (feedDaemon_frame t (tickFrame s) e).nextTick
  rw [htick]
  cases hpopped with
  | frame => exact hnext
  | silence => exact hnext

theorem tick_nextTick (s : SmSip) (e : Env) (now : Timespec) :
    (schedule (audioTick s e).1 now).nextTick =
      if Resyncs s now then tsAddMs now 20 else tsAddMs s.nextTick 20 := by
  have hresync : Resyncs (audioTick s e).1 now ↔ Resyncs s now := by
    rw [Resyncs, Resyncs, audioTick_nextTick]
  rw [schedule_nextTick, audioTick_nextTick, if_congr hresync rfl rfl]

theorem audioTick_known {s : SmSip} (hknown : s.rtpPeerKnown) (e : Env) :
    (audioTick s e).1.rtpPeerKnown ∨ (audioTick s e).1.callActive = false ∧
      (audioTick s e).1.rtpPeerKnown = false := by
  obtain ⟨t, hpopped, hfed⟩ := audioTick_fed s e
  have ht : t.rtpPeerKnown = s.rtpPeerKnown := by
    cases hpopped with
    | frame => rfl
    | silence => rfl
  generalize audioTick s e = result at hfed
  cases hfed with
  | silent s' hkeeps => exact .inl ((hkeeps.rtpPeerKnown.trans ht).trans hknown)
  | packet s' hkeeps => exact .inl ((hkeeps.rtpPeerKnown.trans ht).trans hknown)
  | hungUp t' => exact .inr ⟨rfl, rfl⟩

theorem bursts_quiet {xs events : List ClockEvent} (hxs : ∀ x ∈ xs, x.isTick = false)
    (h : ∀ pre woken ticks post, events = pre ++ .woke woken :: (ticks ++ post) →
      AllTicks ticks → Burst woken ticks) :
    ∀ pre woken ticks post, events ++ xs = pre ++ .woke woken :: (ticks ++ post) →
      AllTicks ticks → Burst woken ticks := by
  induction xs generalizing events with
  | nil => rwa [List.append_nil]
  | cons x xs ih =>
      rw [← List.singleton_append, ← List.append_assoc]
      refine ih (fun y hy => hxs y (List.mem_cons_of_mem _ hy)) (bursts_append h ?_)
      intro _ _ _ _ _ hx
      exact absurd ((hxs x List.mem_cons_self).symm.trans hx) Bool.false_ne_true

theorem tickCount_quiet {xs : List ClockEvent} (hxs : ∀ x ∈ xs, x.isTick = false)
    (events : List ClockEvent) : tickCount (events ++ xs) = tickCount events := by
  have hnone : xs.countP ClockEvent.isTick = 0 :=
    List.countP_eq_zero.mpr fun x hx => by rw [hxs x hx]; exact Bool.false_ne_true
  rw [tickCount, List.countP_append, hnone, Nat.add_zero, tickCount]

theorem tickCount_tick (events : List ClockEvent) (t : Timespec) (resync : Bool) :
    tickCount (events ++ [.ticked t resync]) = tickCount events + 1 := by
  rw [tickCount, List.countP_append]
  rfl

theorem clockEvents_poll (maxCalls : Int) {s : SipRun} (hstage : s.stage = .poll) (e : LoopEnv) :
    ∀ x ∈ clockEvents maxCalls s e, x.isTick = false := by
  intro x hx
  rw [clockEvents, hstage] at hx
  rcases List.mem_append.mp hx with hx | hx
  · split at hx
    · rw [List.mem_singleton.mp hx]
      rfl
    · cases hx
  · split at hx
    · rw [List.mem_singleton.mp hx]
      rfl
    · cases hx

theorem clockEvents_bound {maxCalls : Int} {s : SipRun} (hstage : s.stage = .poll) (e : LoopEnv) :
    (clockEvents maxCalls s e).filterMap ClockEvent.bound? =
      if s.server.rtpPeerKnown = false ∧ (step maxCalls s e).server.rtpPeerKnown then
        [e.firstPacket]
      else [] := by
  have hwoke : (match (step maxCalls s e).stage with
      | .pump now => [ClockEvent.woke now]
      | _ => []).filterMap ClockEvent.bound? = [] := by
    split
    · rfl
    · rfl
  rw [clockEvents, hstage]
  dsimp only
  rw [List.filterMap_append, hwoke, List.append_nil]
  split
  · rfl
  · rfl

theorem clockEvents_woke {maxCalls : Int} {s : SipRun} (hstage : s.stage = .poll) {e : LoopEnv}
    {now : Timespec} (hnow : (step maxCalls s e).stage = .pump now) :
    ∃ xs, clockEvents maxCalls s e = xs ++ [.woke now] := by
  rw [clockEvents, hstage, hnow]
  exact ⟨_, rfl⟩

theorem paced_poll {maxCalls : Int} {events : List ClockEvent} {s : SipRun} {e : LoopEnv}
    (h : Paced events s) (hstage : s.stage = .poll) (hactive : s.server.callActive)
    (hclock : Clock (events ++ clockEvents maxCalls s e)) :
    Paced (events ++ clockEvents maxCalls s e) (step maxCalls s e) := by
  have hquiet := clockEvents_poll maxCalls hstage e
  have hpumps := poll_pumps maxCalls hstage e
  have hwoken := poll_woken maxCalls hstage hactive e
  have hpumping (now : Timespec) (hnow : (step maxCalls s e).stage = .pump now) :
      Pumping (events ++ clockEvents maxCalls s e) (step maxCalls s e) now := by
    obtain ⟨xs, hxs⟩ := clockEvents_woke hstage hnow
    rw [hxs, ← List.append_assoc]
    refine ⟨fun _ => (hpumps now hnow).2.2, ⟨.woke now, by simp, rfl⟩,
      fun pre woken ticks heq hticks => ?_, fun t resync hlast => ?_⟩
    · rcases split_last heq with ⟨-, hlast, rfl⟩ | ⟨ticks', rfl, -⟩
      · obtain rfl := ClockEvent.woke.inj hlast
        exact ⟨rfl, .start _⟩
      · have htick := hticks (.woke now) (List.mem_append_right _ List.mem_cons_self)
        exact absurd htick Bool.false_ne_true
    · rw [List.getLast?_concat] at hlast
      cases hlast
  have hbursts := bursts_quiet hquiet h.bursts
  cases hwoken with
  | same hknown hnext =>
      refine ⟨fun _ hunknown => ?_, ?_, ?_, hpumping, hbursts⟩
      · have hnone : ∀ now, (step maxCalls s e).stage ≠ .pump now := fun now hnow =>
          absurd ((hpumps now hnow).2.2.symm.trans hunknown) Bool.false_ne_true.symm
        rw [h.fresh hactive (hknown ▸ hunknown), clockEvents, hstage]
        dsimp only
        rw [if_neg fun hbound => Bool.false_ne_true (hunknown.symm.trans hbound.2)]
        split
        · next now hnow => exact absurd hnow (hnone now)
        · rfl
      · intro hbound
        rw [hnext]
        exact h.normalised (hknown ▸ hbound)
      · intro hbound
        obtain ⟨first, hfirst, hdrift⟩ := h.drift (hknown ▸ hbound)
        have hnone : ¬ (s.server.rtpPeerKnown = false ∧ (step maxCalls s e).server.rtpPeerKnown) :=
          fun hbinds => Bool.false_ne_true (hbinds.1.symm.trans (hknown.symm.trans hbinds.2))
        refine ⟨first, ?_, fun hnone => ?_⟩
        · rw [List.filterMap_append, clockEvents_bound hstage, if_neg hnone, hfirst]
          rfl
        rw [hnext, tickCount_quiet hquiet]
        exact hdrift fun t ht => hnone t (List.mem_append_left _ ht)
  | ended hdown hunknown =>
      refine ⟨fun hup => ?_, fun hbound => ?_, fun hbound => ?_, hpumping, hbursts⟩
      · exact absurd (hdown.symm.trans hup) Bool.false_ne_true
      · exact absurd (hunknown.symm.trans hbound) Bool.false_ne_true
      · exact absurd (hunknown.symm.trans hbound) Bool.false_ne_true
  | bound hbefore hknown hnext =>
      have hnil : events = [] := h.fresh hactive hbefore
      have hmem : .bound e.firstPacket ∈ clockEvents maxCalls s e := by
        rw [clockEvents, hstage]
        dsimp only
        rw [if_pos ⟨hbefore, hknown⟩]
        exact List.mem_append_left _ List.mem_cons_self
      have hfirst := hclock.normalised _ (List.mem_append_right _ hmem)
      refine ⟨fun _ hunknown => ?_, fun _ => ?_, fun _ => ?_, hpumping, hbursts⟩
      · exact absurd (hunknown.symm.trans hknown) Bool.false_ne_true
      · rw [hnext]
        exact tsAddMs_normalised hfirst (by decide)
      · refine ⟨e.firstPacket, ?_, fun _ => ?_⟩
        · rw [hnil, List.nil_append, clockEvents_bound hstage, if_pos ⟨hbefore, hknown⟩]
        rw [hnext, tsAddMs_ns, tickCount_quiet hquiet, hnil]
        exact (Int.add_zero _).symm

theorem Clock.earlier {events later : List ClockEvent} (h : Clock (events ++ later)) :
    Clock events := by
  refine ⟨fun x hx => h.normalised x (List.mem_append_left _ hx), ?_⟩
  have hmonotone := h.monotone
  rw [List.map_append, List.pairwise_append] at hmonotone
  exact hmonotone.1

theorem Clock.last_le {events : List ClockEvent} {x y : ClockEvent} (h : Clock (events ++ [y]))
    (hx : x ∈ events) : x.time.ns ≤ y.time.ns := by
  have hmonotone := h.monotone
  rw [List.map_append, List.pairwise_append] at hmonotone
  exact hmonotone.2.2 _ (List.mem_map_of_mem hx) _ List.mem_cons_self

theorem lastReading_concat (woken : Timespec) (ticks : List ClockEvent) (x : ClockEvent) :
    lastReading woken (ticks ++ [x]) = x.time := by
  rw [lastReading, List.getLast?_concat]
  rfl

theorem step_due (maxCalls : Int) {s : SipRun} {now : Timespec} (hstage : s.stage = .pump now)
    (hdue : Due s.server now) (e : LoopEnv) :
    (step maxCalls s e).server = schedule (audioTick s.server e.toEnv).1 e.now ∧
      (step maxCalls s e).stage = .pump e.now := by
  rw [step, hstage]
  dsimp only
  obtain ⟨hactive, hknown, huntil⟩ := hdue
  rw [pumpTurn, if_pos ⟨hactive, hknown, huntil⟩]
  exact ⟨rfl, rfl⟩

theorem step_idle {maxCalls : Int} {s : SipRun} {now : Timespec} (hstage : s.stage = .pump now)
    (hidle : ¬ Due s.server now) (e : LoopEnv) :
    step maxCalls s e = { s with stage := .poll } := by
  rw [step, hstage]
  dsimp only
  rw [pumpTurn]
  split
  · next hdue => exact absurd hdue hidle
  · rfl

theorem tick_turned {events : List ClockEvent} {s : SipRun} {now now' : Timespec} {resync : Bool}
    (h : Pumping events s now) (hdue : Due s.server now)
    (hclock : Clock (events ++ [.ticked now' resync])) (e : Env) :
    Pacer.Turned (20 * millisecond) millisecond (100 * millisecond) s.server.nextTick.ns now.ns
      (schedule (audioTick s.server e).1 now').nextTick.ns now'.ns := by
  obtain ⟨x, hx, rfl⟩ := h.read
  have hnow := hclock.last_le hx
  have hnext := audioTick_nextTick s.server e
  rw [← hnext]
  exact schedule_turned (hnext ▸ hdue.2.2) hnow

theorem paced_tick {maxCalls : Int} {events : List ClockEvent} {s : SipRun} {e : LoopEnv}
    {now : Timespec} (h : Paced events s) (hstage : s.stage = .pump now) (hdue : Due s.server now)
    (hclock : Clock (events ++ [.ticked e.now (decide (Resyncs s.server e.now))])) :
    Paced (events ++ [.ticked e.now (decide (Resyncs s.server e.now))]) (step maxCalls s e) := by
  obtain ⟨hserver, hstage'⟩ := step_due maxCalls hstage hdue e
  have hpumping := h.pumping now hstage
  have hturned := tick_turned hpumping hdue hclock e.toEnv
  have hsame := schedule_sameCall (audioTick s.server e.toEnv).1 e.now
  have hsched := tick_nextTick s.server e.toEnv e.now
  have hknown (hup : (step maxCalls s e).server.callActive) :
      (step maxCalls s e).server.rtpPeerKnown := by
    rw [hserver, hsame.callActive] at hup
    rw [hserver, hsame.rtpPeerKnown]
    rcases audioTick_known hdue.2.1 e.toEnv with hknown | ⟨hdown, -⟩
    · exact hknown
    · exact absurd (hdown.symm.trans hup) Bool.false_ne_true
  have hloop (pre : List ClockEvent) (woken : Timespec) (ticks : List ClockEvent)
      (heq : events = pre ++ .woke woken :: ticks) (hticks : AllTicks ticks) :
      PumpLoop woken (ticks ++ [ClockEvent.ticked e.now (decide (Resyncs s.server e.now))]).length
        (step maxCalls s e).server.nextTick e.now := by
    obtain ⟨-, hbefore⟩ := hpumping.loop pre woken ticks heq hticks
    rw [List.length_append, hserver]
    exact .turn hbefore hturned
  constructor
  · intro hup hunknown
    exact absurd (hunknown.symm.trans (hknown hup)) Bool.false_ne_true
  · intro _
    rw [hserver, hsched]
    split
    · exact tsAddMs_normalised (hclock.normalised _ (List.mem_append_right _ List.mem_cons_self))
        (by decide)
    · exact tsAddMs_normalised (h.normalised hdue.2.1) (by decide)
  · intro _
    obtain ⟨first, hfirst, hdrift⟩ := h.drift hdue.2.1
    refine ⟨first, ?_, fun hnone => ?_⟩
    · rw [List.filterMap_append, hfirst]
      rfl
    have hbefore := hdrift fun t ht => hnone t (List.mem_append_left _ ht)
    have hkept : ¬ Resyncs s.server e.now := fun hresync =>
      hnone e.now (List.mem_append_right _ (by simp [hresync]))
    rw [hserver, hsched, if_neg hkept, tsAddMs_ns, hbefore, tickCount_tick]
    push_cast
    ring
  · intro t ht
    obtain rfl := Stage.pump.inj (hstage'.symm.trans ht)
    refine ⟨hknown, ⟨_, List.mem_append_right _ List.mem_cons_self, rfl⟩, ?_, fun _ _ _ => ?_⟩
    · intro pre woken ticks heq hticks
      rcases split_last heq with ⟨-, hlast, -⟩ | ⟨ticks', rfl, hevents⟩
      · cases hlast
      · refine ⟨lastReading_concat woken ticks' _, ?_⟩
        exact hloop pre woken ticks' hevents fun z hz => hticks z (List.mem_append_left _ hz)
    · have hahead := hturned.ahead (by decide)
      rw [hserver]
      simp only [millisecond] at hahead ⊢
      omega
  · refine bursts_append h.bursts fun pre woken ticks heq hticks _ => ?_
    exact PumpLoop.burst (hloop pre woken ticks heq hticks) (lastReading_concat woken ticks _)

theorem paced_step {maxCalls : Int} {events : List ClockEvent} {s : SipRun} {e : LoopEnv}
    (h : Paced events s) (hactive : s.server.callActive)
    (hclock : Clock (events ++ clockEvents maxCalls s e)) :
    Paced (events ++ clockEvents maxCalls s e) (step maxCalls s e) := by
  rcases hstage : s.stage with _ | now | rc
  · exact paced_poll h hstage hactive hclock
  · have hevents : clockEvents maxCalls s e =
        if Due s.server now then [.ticked e.now (decide (Resyncs s.server e.now))] else [] := by
      rw [clockEvents, hstage]
    rw [hevents] at hclock ⊢
    rcases Decidable.em (Due s.server now) with hdue | hidle
    · rw [if_pos hdue] at hclock ⊢
      exact paced_tick h hstage hdue hclock
    · rw [if_neg hidle, List.append_nil, step_idle hstage hidle]
      exact ⟨h.fresh, h.normalised, h.drift, (fun t ht => nomatch ht), h.bursts⟩
  · have hstep : step maxCalls s e = s := by rw [step, hstage]
    have hevents : clockEvents maxCalls s e = [] := by rw [clockEvents, hstage]
    rwa [hevents, List.append_nil, hstep]

def callReadings (maxCalls : Int) (s : SipRun) (es : List LoopEnv) : List ClockEvent :=
  expand (step maxCalls) (clockEvents maxCalls) s es

theorem setUp_waits {maxCalls : Int} {s : SipRun} {e : LoopEnv}
    (hidle : s.server.callActive = false) (hup : (step maxCalls s e).server.callActive)
    (now : Timespec) : (step maxCalls s e).stage ≠ .pump now := by
  intro hnow
  obtain ⟨t, m, daemon, hserver⟩ := (step_turn maxCalls s e).setsUp hidle hup
  rcases hstage : s.stage with _ | before | rc
  · have hknown := (poll_pumps maxCalls hstage e now hnow).2.2
    rw [hserver] at hknown
    exact Bool.false_ne_true hknown
  · have hnotdue : ¬ Due s.server before := fun hdue =>
      Bool.false_ne_true (hidle.symm.trans hdue.1)
    rw [step_idle hstage hnotdue] at hnow
    cases hnow
  · have hstep : step maxCalls s e = s := by rw [step, hstage]
    rw [hstep, hidle] at hup
    exact Bool.false_ne_true hup

theorem call_paced {maxCalls : Int} {s : SipRun} {e : LoopEnv} {es : List LoopEnv}
    (hidle : s.server.callActive = false) (hup : (step maxCalls s e).server.callActive)
    (hcall : Along (step maxCalls) (fun s _ => s.server.callActive) (step maxCalls s e) es)
    (hclock : Clock (callReadings maxCalls (step maxCalls s e) es)) :
    Paced (callReadings maxCalls (step maxCalls s e) es)
      (smSipRun maxCalls (step maxCalls s e) es) := by
  obtain ⟨t, m, daemon, hserver⟩ := (step_turn maxCalls s e).setsUp hidle hup
  have hunknown : (step maxCalls s e).server.rtpPeerKnown = false := by
    rw [hserver]
    rfl
  have hunbound (hknown : (step maxCalls s e).server.rtpPeerKnown) : False :=
    Bool.false_ne_true (hunknown.symm.trans hknown)
  have hstart : Paced [] (step maxCalls s e) := by
    refine ⟨fun _ _ => rfl, fun hknown => (hunbound hknown).elim,
      fun hknown => (hunbound hknown).elim, fun now hnow => absurd hnow (setUp_waits hidle hup now),
      fun pre woken ticks post heq => ?_⟩
    exact absurd heq.symm (by simp)
  have hstep (events : List ClockEvent) (s : SipRun) (e : LoopEnv)
      (h : Clock events → Paced events s) (hactive : s.server.callActive)
      (hclock : Clock (events ++ clockEvents maxCalls s e)) :
      Paced (events ++ clockEvents maxCalls s e) (step maxCalls s e) :=
    paced_step (h hclock.earlier) hactive hclock
  exact expand_invariant (P := fun events s => Clock events → Paced events s) hstep
    (fun _ => hstart) hcall hclock

-- A wake-up's loop that has ticked ends with the call up, and the next tick lies ahead.
def LeavesAhead (maxCalls : Int) (s : SipRun) (events : List ClockEvent) : Prop :=
  ∀ now t resync e, s.stage = .pump now → events.getLast? = some (.ticked t resync) →
    (step maxCalls s e).stage = .poll → (step maxCalls s e).server.callActive →
      0 < (step maxCalls s e).server.nextTick.ns - now.ns ∧
        (step maxCalls s e).server.nextTick.ns - now.ns ≤ 21 * millisecond

structure AudioPaced (maxCalls : Int) (events : List ClockEvent) (s : SipRun) : Prop where
  normalised : s.server.rtpPeerKnown → Normalised s.server.nextTick
  drift : s.server.rtpPeerKnown → ∃ first, events.filterMap ClockEvent.bound? = [first] ∧
    ((∀ t, .ticked t true ∉ events) → s.server.nextTick.ns =
      first.ns + 40 * millisecond + 20 * millisecond * tickCount events)
  ahead : LeavesAhead maxCalls s events
  burst : ∀ pre woken ticks post, events = pre ++ .woke woken :: (ticks ++ post) →
    AllTicks ticks → ∀ W : Nat, (lastReading woken ticks).ns - woken.ns ≤ W * millisecond →
      ticks.length ≤ 7 + W / 20

theorem audio_is_paced (maxCalls : Int) (s : SipRun) (e : LoopEnv) (es : List LoopEnv)
    (hidle : s.server.callActive = false) (hup : (step maxCalls s e).server.callActive)
    (hcall : Along (step maxCalls) (fun s _ => s.server.callActive) (step maxCalls s e) es)
    (hclock : Clock (callReadings maxCalls (step maxCalls s e) es)) :
    AudioPaced maxCalls (callReadings maxCalls (step maxCalls s e) es)
      (smSipRun maxCalls (step maxCalls s e) es) := by
  have hpaced := call_paced hidle hup hcall hclock
  refine ⟨hpaced.normalised, hpaced.drift, fun now t resync e' hstage hlast hleft hactive => ?_,
    fun pre woken ticks post heq hticks => (hpaced.bursts pre woken ticks post heq hticks).bound⟩
  have hpumping := hpaced.pumping now hstage
  have hidle : ¬ Due (smSipRun maxCalls (step maxCalls s e) es).server now := by
    intro hdue
    rw [(step_due maxCalls hstage hdue e').2] at hleft
    cases hleft
  rw [step_idle hstage hidle] at hactive ⊢
  have huntil : 1 ≤ tsMsUntil (smSipRun maxCalls (step maxCalls s e) es).server.nextTick now := by
    by_contra hle
    exact hidle ⟨hactive, hpumping.known hactive, by omega⟩
  have hnear := tsMsUntil_near (smSipRun maxCalls (step maxCalls s e) es).server.nextTick now
  have hahead := hpumping.ahead t resync hlast
  dsimp only
  simp only [millisecond] at *
  exact ⟨by omega, by omega⟩

def lateWakes : List LoopEnv :=
  [{ ataPacket with firstPacket := ⟨1, 990000000⟩, now := ⟨2, 30000000⟩ },
    { quietWake with now := ⟨2, 35000000⟩ }, quietWake, { quietWake with now := ⟨2, 300000000⟩ },
    { quietWake with now := ⟨2, 300000000⟩ }]

theorem late_wake_is_resynchronised :
    let call := step (-1) (start ataConfig ataBuffer) (ataInvite "1")
    let s := smSipRun (-1) call lateWakes
    s.server.nextTick = ⟨2, 320000000⟩ ∧ AudioPaced (-1) (callReadings (-1) call lateWakes) s := by
  intro call s
  obtain ⟨hnext, hup, hcall, hreadings⟩ : s.server.nextTick = ⟨2, 320000000⟩ ∧
      call.server.callActive ∧ Along (step (-1)) (fun s _ => s.server.callActive) call lateWakes ∧
      callReadings (-1) call lateWakes =
        [.bound ⟨1, 990000000⟩, .woke ⟨2, 30000000⟩, .ticked ⟨2, 35000000⟩ false,
          .woke ⟨2, 300000000⟩, .ticked ⟨2, 300000000⟩ true] := by
    decide +kernel
  have hclock : Clock (callReadings (-1) call lateWakes) := by
    rw [hreadings]
    refine ⟨fun x hx => ?_, by decide⟩
    simp only [List.mem_cons, List.not_mem_nil, or_false] at hx
    rcases hx with rfl | rfl | rfl | rfl | rfl
    all_goals exact ⟨by decide, by decide⟩
  exact ⟨hnext, audio_is_paced (-1) (start ataConfig ataBuffer) (ataInvite "1") lateWakes rfl hup
    hcall hclock⟩

end Softmodem.Sip

import Softmodem.Sip.Lifecycle

namespace Softmodem.Sip

open CString

inductive Touches (s : SmSip) (m : SipMsg) : SmSip → Prop where
  | untouched : Touches s m s
  | invited (s' : SmSip) (hm : m.isResponse = false) (hmethod : m.method = ascii "INVITE")
      (hactive : s.callActive = false) : Touches s m s'
  | acknowledged (hm : m.isResponse = false) (hmethod : m.method = ascii "ACK")
      (hmine : Mine s m) : Touches s m { s with mediaActive := true }
  | ended (s' : SmSip) (hm : m.isResponse = false)
      (hmethod : m.method = ascii "BYE" ∨ m.method = ascii "CANCEL") (hmine : Mine s m) :
      Touches s m s'

theorem Handled.touches {s : SmSip} {m : SipMsg} {src : SockAddr} {e : Env}
    {r : SmSip × List Action} (h : Handled s m src e r) (hm : m.isResponse = false) :
    Touches s m r.1 := by
  cases h with
  | answered | ignored | replayed | busy | noAudio => exact .untouched
  | media hmethod hmine => exact .acknowledged hm hmethod hmine
  | bye hmethod hmine => exact .ended _ hm (.inl hmethod) hmine
  | cancel hmethod hmine => exact .ended _ hm (.inr hmethod) hmine
  | noSocket hmethod hactive => exact .invited _ hm hmethod hactive
  | noPort hmethod hactive => exact .invited _ hm hmethod hactive
  | noDaemon hmethod hactive => exact .invited _ hm hmethod hactive
  | accepted hmethod hactive => exact .invited _ hm hmethod hactive

theorem receiveSip_touches (s : SmSip) (src : SockAddr) (e : Env) (d : Datagram) :
    Touches s (parseSip d) (receiveSip s src e d).1 := by
  rcases receiveSip_cases s src e d with ⟨_, h⟩ | ⟨hm, h⟩
  · rw [h]
    exact .untouched
  · exact h.touches hm

-- The daemon has not ended the call and no RTP is waiting: only a datagram can be handled.
structure SipWake (s : SipRun) (e : LoopEnv) : Prop where
  stage : s.stage = .poll
  daemon : ¬ (s.server.daemonFd ∧ (e.daemonHup ∨ e.daemonEof))
  rtp : s.server.rtpFd → e.rtp = none

theorem step_touches {maxCalls : Int} {s : SipRun} {e : LoopEnv} {r : Received}
    (hwake : SipWake s e) (hsip : e.sip = some r) :
    Touches s.server (parseSip (recvInto s.buf r e.line)) (step maxCalls s e).server := by
  have hrtp : (if s.server.rtpFd then e.rtp else none) = none := by
    split
    · exact hwake.rtp ‹_›
    · rfl
  have hawake : Touches s.server (parseSip (recvInto s.buf r e.line)) (awake s e).server := by
    unfold awake
    rw [if_neg hwake.daemon, hrtp, hsip]
    dsimp only
    split
    · exact .untouched
    · exact receiveSip_touches ..
  simp only [step, hwake.stage, pollTurn]
  split
  · exact .untouched
  split
  · exact .untouched
  · exact .untouched
  · exact hawake

structure Delivery where
  datagram : Datagram
  src : SockAddr
  env : Env

def receive (s : SmSip) (d : Delivery) : SmSip := (receiveSip s d.src d.env d.datagram).1

def Foreign (s : SmSip) (m : SipMsg) : Prop :=
  m.isResponse ∨ m.callId ≠ s.callId ∨
    m.method ≠ ascii "ACK" ∧ m.method ≠ ascii "BYE" ∧ m.method ≠ ascii "CANCEL"

theorem Touches.foreign {s s' : SmSip} {m : SipMsg} (h : Touches s m s')
    (hactive : s.callActive) (hf : Foreign s m) : s' = s := by
  have hmine (hm : m.isResponse = false) (hmine : Mine s m) :
      m.method ≠ ascii "ACK" ∧ m.method ≠ ascii "BYE" ∧ m.method ≠ ascii "CANCEL" := by
    rcases hf with h | h | h
    · simp [h] at hm
    · exact absurd hmine.2.symm h
    · exact h
  cases h with
  | untouched => rfl
  | invited _ _ _ h => simp [hactive] at h
  | acknowledged hm hmethod h => exact absurd hmethod (hmine hm h).1
  | ended _ hm hmethod h =>
      rcases hmethod with hmethod | hmethod
      · exact absurd hmethod (hmine hm h).2.1
      · exact absurd hmethod (hmine hm h).2.2

theorem receive_foreign {s : SmSip} {ds : List Delivery} (hactive : s.callActive)
    (hf : ∀ d ∈ ds, Foreign s (parseSip d.datagram)) : Transition.run receive s ds = s := by
  induction ds with
  | nil => rfl
  | cons d ds ih =>
      have hd : receive s d = s :=
        (receiveSip_touches ..).foreign hactive (hf d (by simp))
      rw [Transition.run_cons, hd]
      exact ih fun d' h => hf d' (by simp [h])

theorem other_datagrams_leave_the_call_alone (maxCalls : Int) (cfg : SmSipConfig) (buf : Bytes)
    (es : List LoopEnv) :
    let s := smSipRun maxCalls (start cfg buf) es
    (∀ e r, SipWake s e → e.sip = some r →
      Touches s.server (parseSip (recvInto s.buf r e.line)) (step maxCalls s e).server) ∧
      ∀ ds, s.server.callActive → (∀ d ∈ ds, Foreign s.server (parseSip d.datagram)) →
        Transition.run receive s.server ds = s.server := by
  intro s
  constructor
  · intro e r hwake hsip
    exact step_touches hwake hsip
  · intro ds hactive hf
    exact receive_foreign hactive hf

end Softmodem.Sip

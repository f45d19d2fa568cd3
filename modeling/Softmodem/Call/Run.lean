import Softmodem.Lib.Transition
import Softmodem.AudioSocket.Prompt
import Softmodem.Call.Ppp
import Softmodem.Call.Audio

namespace Softmodem.Call

open AudioSocket Serial V22bis

inductive Stage where
  | firstMessage
  | message
  | pump (checkPppd : Bool)
  | finished (rc : Int)
  deriving DecidableEq, Repr

structure CallRun where
  call : SmCall
  peer : Peer
  written : List WriteCall
  timeoutCount : Nat
  stage : Stage

structure Turn where
  audio : AudioEnv
  value : Pcm → UInt8 × UInt8
  sent : List SendEvent
  pump : PumpEnv
  pppdExited : Bool

def stopPppd (c : SmCall) : SmCall := { c with pppFd := false, pppdPid := false }

def closeCall (c : SmCall) : SmCall :=
  stopPppd { c with capIn := none, capOut := none, v8 := false, bm := false, v34 := false }

def finish (s : CallRun) : CallRun := { s with call := closeCall s.call, stage := .finished 0 }

def readMessage (s : CallRun) : SmAstRead × CallRun :=
  let (r, as, peer) := smAstRead s.call.as s.peer smAsMaxPayload
  (r, { s with call := { s.call with as := as }, peer := peer })

def firstMessage (s : CallRun) (t : Turn) : CallRun :=
  match readMessage s with
  | (.interrupted _, s) => { s with stage := .finished (-1) }
  | (.message kind payload plen, s) =>
      if kind = smAsKindUuid ∧ plen ≥ 16 then { s with stage := .message }
      else if kind = smAsKindAudio then
        { s with call := processAudio s.call payload (plen / 2) t.audio, stage := .message }
      else s

def audioLength (plen : Nat) : Nat :=
  let plen := if plen % 2 = 1 then plen - 1 else plen
  if plen > txbufSize * 2 then txbufSize * 2 else plen

def audioBytes (c : SmCall) (count : Nat) (value : Pcm → UInt8 × UInt8) : List UInt8 :=
  (List.range count).flatMap fun k => [(value (c.txbuf k)).1, (value (c.txbuf k)).2]

theorem audioBytes_length (c : SmCall) (count : Nat) (value : Pcm → UInt8 × UInt8) :
    (audioBytes c count value).length = 2 * count := by
  simp [audioBytes, List.length_flatMap, Nat.mul_comm]

def audioMessage (s : CallRun) (payload : List UInt8) (plen : Nat) (t : Turn) : CallRun :=
  let count := audioLength plen / 2
  let s := { s with call := processAudio s.call payload count t.audio }
  let reply := writeCall smAsKindAudio (audioBytes s.call count t.value) t.sent
  let s := { s with written := s.written ++ [reply] }
  if reply.code < 0 then finish s else { s with stage := .pump true }

def message (s : CallRun) (t : Turn) : CallRun :=
  if s.call.phase = .hangup then finish s
  else
    match readMessage s with
    | (.interrupted .fail, s) => finish s
    | (.interrupted .timeout, s) =>
        let s := { s with timeoutCount := s.timeoutCount + 1 }
        if s.timeoutCount ≥ 5 then finish s else { s with stage := .pump false }
    | (.message kind payload plen, s) =>
        let s := { s with timeoutCount := 0 }
        if kind = smAsKindAudio then audioMessage s payload plen t
        else if kind = smAsKindHangup then finish s
        else if kind = smAsKindError then finish s
        else { s with stage := .pump true }

def pump (s : CallRun) (checkPppd : Bool) (t : Turn) : CallRun :=
  let s := { s with call := pumpPpp s.call t.pump, stage := .message }
  if checkPppd ∧ s.call.pppStarted ∧ s.call.pppdPid ∧ t.pppdExited then
    finish { s with call := { s.call with pppdPid := false } }
  else s

def smCallTurn (s : CallRun) (t : Turn) : CallRun :=
  match s.stage with
  | .firstMessage => firstMessage s t
  | .message => message s t
  | .pump checkPppd => pump s checkPppd t
  | .finished _ => s

def smCallStart (c : SmCall) (peer : Peer) : CallRun :=
  { call := { c with as := smAstInit }, peer := peer, written := [], timeoutCount := 0
    stage := .firstMessage }

def smCallRun (cfg : SmCallConfig) (r : InitResults) (peer : Peer) (turns : List Turn) : CallRun :=
  Transition.run smCallTurn (smCallStart (smCallInit cfg r) peer) turns

def Running (s : CallRun) : Prop := ∀ rc, s.stage ≠ .finished rc

theorem Running.before {s : CallRun} {t : Turn} (h : Running (smCallTurn s t)) : Running s := by
  intro rc hstage
  simp only [smCallTurn, hstage] at h
  exact h rc hstage

def v22Config : SmCallConfig :=
  { rate := 2400, answerToneMs := 0, preToneSilenceMs := 0, enablePpp := true, echoData := false
    useV8 := false, useV34 := false, useBinmodem := false, useV90 := false, v34Baud := 0
    v34Rate := 0 }

def bmConfig : SmCallConfig := { v22Config with useBinmodem := true }

def uuidMessage : Message := ⟨smAsKindUuid, List.replicate 16 0⟩

def oneSample : Message := ⟨smAsKindAudio, [0, 0]⟩

def plainInit : InitResults :=
  { bmCreated := true, v8Created := true, capInOpened := false, capOutOpened := false }

def idlePump : PumpEnv := { spawned := true, writes := [], read := none }

def idleTurn (rx : Nat → RxObservation) : Turn :=
  { audio :=
      { bm := ⟨.running, 0, false⟩, engine := [], v8Sent := 0, v8Reports := []
        v34Created := false, rx := rx }
    value := fun _ => (0, 0)
    sent := [.sent 3, .sent 4096]
    pump := idlePump
    pppdExited := false }

inductive TurnEffect (s : CallRun) (t : Turn) : SmCall → Prop where
  | read (as : SmAstSocket) (h : ∀ checkPppd, s.stage ≠ .pump checkPppd) :
      TurnEffect s t { s.call with as := as }
  | firstAudio {payload : List UInt8} {plen : Nat} (as : SmAstSocket) (h : s.stage = .firstMessage)
      (hread : (smAstRead s.call.as s.peer smAsMaxPayload).1 =
        .message smAsKindAudio payload plen) :
      TurnEffect s t (processAudio { s.call with as := as } payload (plen / 2) t.audio)
  | audio {payload : List UInt8} {plen : Nat} (as : SmAstSocket) (h : s.stage = .message)
      (hup : s.call.phase ≠ .hangup)
      (hread : (smAstRead s.call.as s.peer smAsMaxPayload).1 =
        .message smAsKindAudio payload plen) :
      TurnEffect s t (processAudio { s.call with as := as } payload (audioLength plen / 2) t.audio)
  | pumped {checkPppd : Bool} (h : s.stage = .pump checkPppd) :
      TurnEffect s t (pumpPpp s.call t.pump)

structure Turned (s : CallRun) (t : Turn) (s' : CallRun) (stages : List Stage) : Prop where
  effect : ∃ c, TurnEffect s t c ∧
    (s'.call = c ∧ s'.stage ∈ .finished (-1) :: stages ∨
      s'.call = closeCall c ∧ s'.stage = .finished 0)

theorem readMessage_call (s : CallRun) :
    ∃ as, (readMessage s).2.call = { s.call with as := as } ∧
      (readMessage s).1 = (smAstRead s.call.as s.peer smAsMaxPayload).1 :=
  ⟨_, rfl, rfl⟩

theorem firstMessage_turned {s : CallRun} (t : Turn) (h : s.stage = .firstMessage) :
    Turned s t (firstMessage s t) [.firstMessage, .message] := by
  have hpump : ∀ checkPppd, s.stage ≠ .pump checkPppd := by simp [h]
  obtain ⟨as, hcall, hread⟩ := readMessage_call s
  unfold firstMessage
  rcases hr : readMessage s with ⟨⟨kind, payload, plen⟩ | why, s'⟩
  · simp only [hr] at hcall hread ⊢
    have hstage : s'.stage = s.stage := by
      rw [show s' = (readMessage s).2 by rw [hr]]
      rfl
    split_ifs with huuid haudio
    · exact ⟨_, .read as hpump, .inl ⟨hcall, by simp⟩⟩
    · subst haudio
      refine ⟨_, .firstAudio as h hread.symm, .inl ⟨?_, by simp⟩⟩
      rw [hcall]
    · exact ⟨_, .read as hpump, .inl ⟨hcall, by simp [hstage, h]⟩⟩
  · simp only [hr] at hcall ⊢
    exact ⟨_, .read as hpump, .inl ⟨hcall, by simp⟩⟩

theorem message_turned {s : CallRun} (t : Turn) (h : s.stage = .message) :
    Turned s t (message s t) [.pump true, .pump false] := by
  have hpump : ∀ checkPppd, s.stage ≠ .pump checkPppd := by simp [h]
  obtain ⟨as, hcall, hread⟩ := readMessage_call s
  unfold message
  split
  · exact ⟨_, .read s.call.as hpump, .inr ⟨rfl, rfl⟩⟩
  · rcases hr : readMessage s with ⟨⟨kind, payload, plen⟩ | why, s'⟩
    · simp only [hr] at hcall hread ⊢
      split_ifs with haudio
      · subst haudio
        have heffect := TurnEffect.audio (t := t) as h ‹_› hread.symm
        rw [← hcall] at heffect
        simp only [audioMessage]
        split
        · exact ⟨_, heffect, .inr ⟨rfl, rfl⟩⟩
        · exact ⟨_, heffect, .inl ⟨rfl, by simp⟩⟩
      · exact ⟨_, .read as hpump, .inr ⟨by simp [finish, hcall], rfl⟩⟩
      · exact ⟨_, .read as hpump, .inr ⟨by simp [finish, hcall], rfl⟩⟩
      · exact ⟨_, .read as hpump, .inl ⟨hcall, by simp⟩⟩
    · simp only [hr] at hcall ⊢
      cases why with
      | fail => exact ⟨_, .read as hpump, .inr ⟨by simp [finish, hcall], rfl⟩⟩
      | timeout =>
          simp only
          split
          · exact ⟨_, .read as hpump, .inr ⟨by simp [finish, hcall], rfl⟩⟩
          · exact ⟨_, .read as hpump, .inl ⟨hcall, by simp⟩⟩

theorem pump_turned {s : CallRun} {checkPppd : Bool} (t : Turn) (h : s.stage = .pump checkPppd) :
    Turned s t (pump s checkPppd t) [.message] := by
  simp only [pump]
  split
  · exact ⟨_, .pumped h, .inr ⟨rfl, rfl⟩⟩
  · exact ⟨_, .pumped h, .inl ⟨rfl, by simp⟩⟩

theorem smCallTurn_turned (s : CallRun) (t : Turn) :
    ∃ stages, Turned s t (smCallTurn s t) stages := by
  unfold smCallTurn
  split
  · exact ⟨_, firstMessage_turned t ‹_›⟩
  · exact ⟨_, message_turned t ‹_›⟩
  · exact ⟨_, pump_turned t ‹_›⟩
  · exact ⟨[s.stage], _, .read s.call.as (by simp [*]), .inl ⟨rfl, by simp⟩⟩

theorem turn_waiting {s : CallRun} {t : Turn} (h : (smCallTurn s t).stage = .firstMessage) :
    s.stage = .firstMessage ∧ ∃ as, (smCallTurn s t).call = { s.call with as := as } := by
  cases hstage : s.stage with
  | firstMessage =>
      refine ⟨rfl, ?_⟩
      obtain ⟨as, hcall, -⟩ := readMessage_call s
      simp only [smCallTurn, hstage, firstMessage] at h ⊢
      rcases hr : readMessage s with ⟨⟨kind, payload, plen⟩ | why, s'⟩
      · simp only [hr] at h hcall ⊢
        split_ifs at h ⊢
        exact ⟨as, hcall⟩
      · simp [hr] at h
  | message =>
      obtain ⟨c, -, ⟨-, hnext⟩ | ⟨-, hnext⟩⟩ := (message_turned t hstage).effect
      · simp only [smCallTurn, hstage] at h
        simp [h] at hnext
      · simp only [smCallTurn, hstage] at h
        simp [h] at hnext
  | pump checkPppd =>
      obtain ⟨c, -, ⟨-, hnext⟩ | ⟨-, hnext⟩⟩ := (pump_turned t hstage).effect
      · simp only [smCallTurn, hstage] at h
        simp [h] at hnext
      · simp only [smCallTurn, hstage] at h
        simp [h] at hnext
  | finished rc =>
      simp only [smCallTurn, hstage] at h
      cases h

theorem turn_to_message {s : CallRun} {t : Turn} (h : (smCallTurn s t).stage = .message) :
    s.stage = .firstMessage ∨ ∃ checkPppd, s.stage = .pump checkPppd := by
  cases hstage : s.stage with
  | firstMessage => exact .inl rfl
  | message =>
      obtain ⟨c, -, ⟨-, hnext⟩ | ⟨-, hnext⟩⟩ := (message_turned t hstage).effect
      · simp only [smCallTurn, hstage] at h
        simp [h] at hnext
      · simp only [smCallTurn, hstage] at h
        simp [h] at hnext
  | pump checkPppd => exact .inr ⟨checkPppd, rfl⟩
  | finished rc =>
      simp only [smCallTurn, hstage] at h
      cases h

theorem readMessage_prompt {s : CallRun} {m : Message} {ms : List Message}
    (hfresh : Fresh s.call.as) (hpeer : s.peer = promptPeer (m :: ms)) (hne : m.payload ≠ [])
    (hlen : m.payload.length ≤ smAsMaxPayload) :
    ∃ as, readMessage s = (.message m.kind m.payload m.payload.length,
      { s with call := { s.call with as := as }, peer := promptPeer ms }) ∧ Fresh as := by
  obtain ⟨as, hread, hfresh'⟩ := smAstRead_prompt hfresh m ms hne hlen
  refine ⟨as, ?_, hfresh'⟩
  rw [readMessage, hpeer, hread]

end Softmodem.Call

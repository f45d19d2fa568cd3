import Softmodem.AudioSocket.Stream
import Softmodem.Call.Run

namespace Softmodem.Call

open AudioSocket

inductive Replied (s s' : CallRun) : Prop where
  | silent (hwritten : s'.written = s.written) (hstage : Running s' → Running s)
  | replied (reply : WriteCall) (hreply : Made reply) (hup : Running s)
      (hwritten : s'.written = s.written ++ [reply]) (hstage : Running s' → reply.code = 0)

theorem audioMessage_replied {s s' : CallRun} (hup : Running s)
    (hwritten : s'.written = s.written) (payload : List UInt8) (plen : Nat) (t : Turn) :
    Replied s (audioMessage s' payload plen t) := by
  refine .replied
    (writeCall smAsKindAudio
      (audioBytes (processAudio s'.call payload (audioLength plen / 2) t.audio)
        (audioLength plen / 2) t.value) t.sent)
    ⟨_, _, _, rfl⟩ hup ?_ ?_
  · simp only [audioMessage]
    split
    · rw [← hwritten]
      rfl
    · rw [← hwritten]
  · simp only [audioMessage]
    split
    · intro hfinished
      exact absurd rfl (hfinished 0)
    · next hcode =>
        intro _
        rcases writeCall_code_cases smAsKindAudio _ t.sent with h | h
        · exact h
        · omega

theorem firstMessage_replied {s : CallRun} (t : Turn) (hup : Running s) :
    Replied s (firstMessage s t) := by
  have hread : (readMessage s).2.written = s.written := rfl
  rw [firstMessage]
  rcases hr : readMessage s with ⟨⟨kind, payload, plen⟩ | why, s'⟩
  · rw [hr] at hread
    dsimp only at hread ⊢
    split
    · exact .silent hread fun _ => hup
    split
    · exact .silent hread fun _ => hup
    · exact .silent hread fun _ => hup
  · rw [hr] at hread
    exact .silent hread fun _ => hup

theorem message_replied {s : CallRun} (t : Turn) (hup : Running s) :
    Replied s (message s t) := by
  have hread : (readMessage s).2.written = s.written := rfl
  rw [message]
  split
  · exact .silent rfl fun _ => hup
  rcases hr : readMessage s with ⟨⟨kind, payload, plen⟩ | why, s'⟩
  · rw [hr] at hread
    dsimp only at hread ⊢
    split
    · have hreset : ({ s' with timeoutCount := 0 } : CallRun).written = s.written := hread
      exact audioMessage_replied hup hreset payload plen t
    split
    · exact .silent hread fun _ => hup
    split
    · exact .silent hread fun _ => hup
    · exact .silent hread fun _ => hup
  · rw [hr] at hread
    cases why with
    | fail => exact .silent hread fun _ => hup
    | timeout =>
        dsimp only at hread ⊢
        split
        · exact .silent hread fun _ => hup
        · exact .silent hread fun _ => hup

theorem pump_replied {s : CallRun} (checkPppd : Bool) (t : Turn) (hup : Running s) :
    Replied s (pump s checkPppd t) := by
  rw [pump]
  dsimp only
  split
  · exact .silent rfl fun _ => hup
  · exact .silent rfl fun _ => hup

theorem smCallTurn_replied (s : CallRun) (t : Turn) : Replied s (smCallTurn s t) := by
  unfold smCallTurn
  split
  · next h => exact firstMessage_replied t (by simp [Running, h])
  · next h => exact message_replied t (by simp [Running, h])
  · next checkPppd h => exact pump_replied checkPppd t (by simp [Running, h])
  · exact .silent rfl fun h => h

-- A reply that failed is the last one: the call is over.
structure Replies (s : CallRun) : Prop where
  made : ∀ w ∈ s.written, Made w
  stops : StopsAtFailure s.written
  whole : Running s → ∀ w ∈ s.written, w.code = 0

theorem Replies.turn {s : CallRun} (h : Replies s) (t : Turn) : Replies (smCallTurn s t) := by
  rcases smCallTurn_replied s t with ⟨hwritten, hstage⟩ | ⟨reply, hreply, hup, hwritten, hstage⟩
  · exact ⟨hwritten ▸ h.made, hwritten ▸ h.stops, fun hup => hwritten ▸ h.whole (hstage hup)⟩
  · have hmade : ∀ w ∈ s.written ++ [reply], Made w := by
      intro w hw
      rcases List.mem_append.mp hw with hw | hw
      · exact h.made w hw
      · exact List.mem_singleton.mp hw ▸ hreply
    refine ⟨hwritten ▸ hmade, ?_, ?_⟩
    · rw [hwritten, stopsAtFailure_append h.made]
      exact h.whole hup
    · intro hnext w hw
      rw [hwritten] at hw
      rcases List.mem_append.mp hw with hw | hw
      · exact h.whole hup w hw
      · exact List.mem_singleton.mp hw ▸ hstage hnext

theorem smCallStart_replies (c : SmCall) (peer : Peer) : Replies (smCallStart c peer) where
  made _ hw := absurd hw List.not_mem_nil
  stops := stopsAtFailure_of_ok fun _ hw => absurd hw List.not_mem_nil
  whole _ _ hw := absurd hw List.not_mem_nil

theorem smCallRun_replies (cfg : SmCallConfig) (r : InitResults) (peer : Peer)
    (turns : List Turn) : Replies (smCallRun cfg r peer turns) :=
  Transition.run_invariant (fun _ t h => h.turn t) turns (smCallStart_replies _ peer)

end Softmodem.Call

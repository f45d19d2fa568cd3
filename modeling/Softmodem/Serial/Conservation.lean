import Softmodem.Serial.Channel

namespace Softmodem.Serial

open Transition

def Channel.received (c : Channel) : List UInt8 := c.taken ++ c.deframer.out

-- What `start` still had on the line, and all it has accepted since, has come out or is coming.
structure Carries (start : Channel) (before : List UInt8) (c : Channel) : Prop where
  wellFormed : c.txbits.WellFormed
  books : ∃ new done pending, c.accepted = start.accepted ++ new ∧
    c.received = start.received ++ done ∧ before ++ new = done ++ pending ∧
    Aligned c.deframer c.txbits.contents pending
  framingErrors : c.deframer.framingErrors = start.deframer.framingErrors

namespace Carries

variable {start c : Channel} {before : List UInt8}

theorem refl (hwf : c.txbits.WellFormed) (h : Aligned c.deframer c.txbits.contents before) :
    Carries c before c :=
  ⟨hwf, ⟨[], [], before, by simp, by simp, by simp, h⟩, rfl⟩

theorem push (h : Carries start before c) (byte : UInt8) :
    Carries start before (channelStep c (.push byte)) := by
  obtain ⟨hwf, ⟨new, done, pending, haccepted, hreceived, hbooks, haligned⟩, herrors⟩ := h
  refine ⟨smBitqPushByte_wellFormed byte hwf, ?_, herrors⟩
  rcases Nat.lt_or_ge smBitqSize (smBitqCount c.txbits + 10) with hfull | hroom
  · have hsame := smBitqPushByte_full byte hwf (not_le.mpr hfull)
    refine ⟨new, done, pending, ?_, hreceived, hbooks, ?_⟩
    · simp [channelStep, hsame, haccepted]
    · simpa [channelStep, hsame] using haligned
  · obtain ⟨hcontents, hcode⟩ := smBitqPushByte_contents byte hwf hroom
    refine ⟨new ++ [byte], done, pending ++ [byte], ?_, hreceived, ?_, ?_⟩
    · simp [channelStep, hcode, haccepted]
    · rw [← List.append_assoc, hbooks, List.append_assoc]
    · simpa [channelStep, hcontents] using aligned_push byte haligned

theorem pull (h : Carries start before c) (hroom : c.deframer.out.length < smDeframerOut) :
    Carries start before (channelStep c .pull) := by
  obtain ⟨hwf, ⟨new, done, pending, haccepted, hreceived, hbooks, haligned⟩, herrors⟩ := h
  have hout (bit : Bool) : c.taken ++ (smDeframerBit c.deframer bit).out =
      start.received ++ (done ++ completed c.deframer bit) := by
    rw [smDeframerBit_out bit hroom, ← List.append_assoc, ← List.append_assoc, ← hreceived]
    rfl
  cases hc : c.txbits.contents with
  | nil =>
      rw [hc] at haligned
      obtain ⟨rfl, hdone, hnext, hframing⟩ := aligned_idle_one haligned
      refine ⟨callGetBit_wellFormed hwf, ⟨new, done, [], haccepted, ?_, hbooks, ?_⟩, ?_⟩
      · simpa [channelStep, Channel.received, callGetBit_empty hc, hdone] using hout true
      · simpa [channelStep, callGetBit_empty hc, hc] using hnext
      · simpa [channelStep, callGetBit_empty hc, hframing] using herrors
  | cons bit bits =>
      rw [hc] at haligned
      obtain ⟨hrest, hbit⟩ := callGetBit_contents hc
      obtain ⟨rest, rfl, hnext, hframing⟩ := aligned_bit haligned
      refine ⟨callGetBit_wellFormed hwf,
        ⟨new, done ++ completed c.deframer bit, rest, haccepted, ?_, ?_, ?_⟩, ?_⟩
      · simpa [channelStep, Channel.received, hbit] using hout bit
      · rw [hbooks, List.append_assoc]
      · simpa [channelStep, hrest, hbit] using hnext
      · simpa [channelStep, hbit, hframing] using herrors

theorem take (h : Carries start before c) (len : Int) :
    Carries start before (channelStep c (.take len)) := by
  obtain ⟨hwf, ⟨new, done, pending, haccepted, hreceived, hbooks, haligned⟩, herrors⟩ := h
  refine ⟨hwf, ⟨new, done, pending, haccepted, ?_, hbooks, aligned_take len haligned⟩, ?_⟩
  · rw [← hreceived]
    simp only [channelStep, Channel.received, List.append_assoc, smDeframerTake_split]
  · simpa [channelStep, smDeframerTake_eq] using herrors

theorem step (h : Carries start before c) {op : ChannelOp} (hroom : RoomForBit c op) :
    Carries start before (channelStep c op) := by
  cases op with
  | push byte => exact h.push byte
  | pull => exact h.pull hroom
  | take len => exact h.take len

theorem run (h : Carries start before c) {ops : List ChannelOp}
    (hroom : Along channelStep RoomForBit c ops) :
    Carries start before (Transition.run channelStep c ops) :=
  along_invariant (fun _ _ hc => hc.step) ops h hroom

theorem conserved (h : Carries start before c) :
    ∃ new done, c.accepted = start.accepted ++ new ∧ c.received = start.received ++ done ∧
      before ++ new = done ++ toComplete c := by
  obtain ⟨-, ⟨new, done, pending, haccepted, hreceived, hbooks, haligned⟩, -⟩ := h
  refine ⟨new, done, haccepted, hreceived, ?_⟩
  rw [hbooks, toComplete, completions_of_aligned haligned]

end Carries

end Softmodem.Serial

import Softmodem.Lib.Transition
import Softmodem.Serial.Deframer

namespace Softmodem.Serial

def callGetBit (txbits : SmBitq) : SmBitq × Bool :=
  let (q, b) := smBitqPop txbits
  if b < 0 then (q, true) else (q, b != 0)

theorem callGetBit_empty {q : SmBitq} (h : q.contents = []) : callGetBit q = (q, true) := by
  simp [callGetBit, smBitqPop_empty h]

theorem callGetBit_contents {q : SmBitq} {bit : Bool} {rest : List Bool}
    (h : q.contents = bit :: rest) :
    (callGetBit q).1.contents = rest ∧ (callGetBit q).2 = bit := by
  obtain ⟨hrest, hbit, _⟩ := smBitqPop_contents h
  cases bit <;> simp [callGetBit, hrest, hbit]

theorem callGetBit_wellFormed {q : SmBitq} (hq : q.WellFormed) :
    (callGetBit q).1.WellFormed := by
  have h : (callGetBit q).1 = (smBitqPop q).1 := by
    simp only [callGetBit]
    split <;> rfl
  rw [h]
  exact smBitqPop_wellFormed hq

inductive ChannelOp where
  | push (byte : UInt8)
  | pull
  | take (len : Int)
  deriving DecidableEq, Repr

structure Channel where
  txbits : SmBitq
  deframer : SmDeframer
  accepted : List UInt8
  taken : List UInt8

def channelInit : Channel :=
  { txbits := smBitqInit, deframer := smDeframerInit, accepted := [], taken := [] }

def channelStep (c : Channel) : ChannelOp → Channel
  | .push byte =>
      let (q, r) := smBitqPushByte c.txbits byte
      { c with txbits := q, accepted := if r = 0 then c.accepted ++ [byte] else c.accepted }
  | .pull =>
      let (q, bit) := callGetBit c.txbits
      { c with txbits := q, deframer := smDeframerBit c.deframer bit }
  | .take len =>
      let (d, bytes, _) := smDeframerTake c.deframer len
      { c with deframer := d, taken := c.taken ++ bytes }

def channelRun (ops : List ChannelOp) : Channel := Transition.run channelStep channelInit ops

def RoomForBit (c : Channel) : ChannelOp → Prop
  | .pull => c.deframer.out.length < smDeframerOut
  | _ => True

instance (c : Channel) : (op : ChannelOp) → Decidable (RoomForBit c op)
  | .pull => inferInstanceAs (Decidable (c.deframer.out.length < smDeframerOut))
  | .push _ => isTrue trivial
  | .take _ => isTrue trivial

def toComplete (c : Channel) : List UInt8 := completions c.deframer c.txbits.contents

def dataBits (byte : UInt8) (k : Nat) : List Bool :=
  ((List.range 8).map byte.toNat.testBit).drop k

inductive Aligned : SmDeframer → List Bool → List UInt8 → Prop
  | idle {d} (bytes : List UInt8) (hs : d.state = .idle) (hp : d.prev = true) :
      Aligned d (bytes.flatMap frame) bytes
  | data {d} (byte : UInt8) (bytes : List UInt8) (hs : d.state = .data) (hk : d.nbits < 8)
      (hb : d.byte = byte.toNat % 2 ^ d.nbits) :
      Aligned d (dataBits byte d.nbits ++ true :: bytes.flatMap frame) (byte :: bytes)
  | stop {d} (byte : UInt8) (bytes : List UInt8) (hs : d.state = .stop)
      (hb : d.byte = byte.toNat) :
      Aligned d (true :: bytes.flatMap frame) (byte :: bytes)

theorem dataBits_cons (byte : UInt8) {k : Nat} (hk : k < 8) :
    dataBits byte k = byte.toNat.testBit k :: dataBits byte (k + 1) := by
  rw [dataBits, List.drop_eq_getElem_cons (by simpa using hk)]
  simp [dataBits]

theorem dataBits_eight (byte : UInt8) : dataBits byte 8 = [] := by simp [dataBits]

theorem low_bits_succ (byte k : Nat) :
    byte % 2 ^ k ||| ((byte.testBit k).toNat <<< k) = byte % 2 ^ (k + 1) := by
  apply Nat.eq_of_testBit_eq
  intro i
  rw [Nat.testBit_or, Nat.testBit_mod_two_pow, Nat.testBit_shiftLeft, Nat.testBit_mod_two_pow]
  rcases Nat.lt_trichotomy i k with hlt | rfl | hgt
  · simp [hlt, Nat.lt_succ_of_lt hlt, not_le.mpr hlt]
  · cases byte.testBit i <;> simp
  · have hbit : (byte.testBit k).toNat.testBit (i - k) = false := by
      obtain ⟨j, hj⟩ := Nat.exists_eq_succ_of_ne_zero (Nat.sub_ne_zero_of_lt hgt)
      cases byte.testBit k <;> simp [hj, Nat.testBit_succ]
    simp [hbit, not_lt.mpr hgt.le, not_lt.mpr (Nat.succ_le_of_lt hgt)]

theorem aligned_push {d : SmDeframer} {bits : List Bool} {bytes : List UInt8} (byte : UInt8)
    (h : Aligned d bits bytes) : Aligned d (bits ++ frame byte) (bytes ++ [byte]) := by
  have hflat (bs : List UInt8) : bs.flatMap frame ++ frame byte = (bs ++ [byte]).flatMap frame := by
    simp
  cases h with
  | idle bytes hs hp => rw [hflat]; exact .idle _ hs hp
  | data b rest hs hk hb =>
      rw [List.append_assoc, List.cons_append, hflat]
      exact .data b _ hs hk hb
  | stop b rest hs hb =>
      rw [List.cons_append, hflat]
      exact .stop b _ hs hb

theorem aligned_empty {d : SmDeframer} {bytes : List UInt8} (h : Aligned d [] bytes) :
    bytes = [] ∧ d.state = .idle ∧ d.prev = true := by
  generalize hbits : ([] : List Bool) = bits at h
  cases h with
  | idle bytes hs hp =>
      cases bytes with
      | nil => exact ⟨rfl, hs, hp⟩
      | cons b rest => simp [frame] at hbits
  | data b rest hs hk hb => simp at hbits
  | stop b rest hs hb => simp at hbits

theorem aligned_bit {d : SmDeframer} {bit : Bool} {bits : List Bool} {bytes : List UInt8}
    (h : Aligned d (bit :: bits) bytes) :
    ∃ rest, bytes = completed d bit ++ rest ∧ Aligned (smDeframerBit d bit) bits rest ∧
      (smDeframerBit d bit).framingErrors = d.framingErrors := by
  generalize hbits : bit :: bits = all at h
  cases h with
  | idle bytes hs hp =>
      cases bytes with
      | nil => simp at hbits
      | cons b rest =>
          have hb : bit = false ∧ bits = dataBits b 0 ++ true :: rest.flatMap frame := by
            simpa [frame, dataBits] using hbits
          obtain ⟨rfl, rfl⟩ := hb
          refine ⟨b :: rest, by simp [completed, hs], ?_, by simp [smDeframerBit, hs, hp]⟩
          have hnbits : (smDeframerBit d false).nbits = 0 := by simp [smDeframerBit, hs, hp]
          rw [← hnbits]
          exact .data b rest (by simp [smDeframerBit, hs, hp]) (by omega)
            (by simp [smDeframerBit, hs, hp, Nat.mod_one])
  | data b rest hs hk hb =>
      rw [dataBits_cons b hk, List.cons_append, List.cons.injEq] at hbits
      obtain ⟨rfl, rfl⟩ := hbits
      refine ⟨b :: rest, by simp [completed, hs], ?_, by simp [smDeframerBit, hs]⟩
      have hnbits : (smDeframerBit d (b.toNat.testBit d.nbits)).nbits = d.nbits + 1 := by
        simp [smDeframerBit, hs]
      have hbyte : (smDeframerBit d (b.toNat.testBit d.nbits)).byte =
          b.toNat % 2 ^ (d.nbits + 1) := by
        simp only [smDeframerBit, smDeframerFlush_state, hs, smDeframerFlush_byte,
          smDeframerFlush_nbits, hb, low_bits_succ]
      by_cases hlast : d.nbits + 1 ≥ 8
      · have hk8 : d.nbits + 1 = 8 := by omega
        rw [hk8, dataBits_eight]
        rw [hk8] at hbyte
        exact .stop b rest (by simp [smDeframerBit, hs, hlast])
          (hbyte.trans (Nat.mod_eq_of_lt b.toNat_lt))
      · rw [← hnbits]
        exact .data b rest (by simp [smDeframerBit, hs, hlast]) (by omega)
          (by rw [hbyte, hnbits])
  | stop b rest hs hb =>
      rw [List.cons.injEq] at hbits
      obtain ⟨rfl, rfl⟩ := hbits
      have hbyte : d.byte.toUInt8 = b := by rw [hb]; exact UInt8.ofNat_toNat
      refine ⟨rest, by simp [completed, hs, hbyte], ?_, by simp [smDeframerBit, hs]⟩
      exact .idle rest (by simp [smDeframerBit, hs]) (by simp [smDeframerBit, hs])

theorem aligned_idle_one {d : SmDeframer} {bytes : List UInt8} (h : Aligned d [] bytes) :
    bytes = [] ∧ completed d true = [] ∧ Aligned (smDeframerBit d true) [] [] ∧
      (smDeframerBit d true).framingErrors = d.framingErrors := by
  obtain ⟨rfl, hs, hp⟩ := aligned_empty h
  refine ⟨rfl, by simp [completed, hs], ?_, by simp [smDeframerBit, hs]⟩
  exact .idle [] (by simp [smDeframerBit, hs]) (by simp [smDeframerBit, hs])

theorem completions_of_aligned {d : SmDeframer} {bits : List Bool} {bytes : List UInt8}
    (h : Aligned d bits bytes) : completions d bits = bytes := by
  induction bits generalizing d bytes with
  | nil => exact (aligned_empty h).1.symm
  | cons bit bits ih =>
      obtain ⟨rest, rfl, hnext, _⟩ := aligned_bit h
      rw [completions, ih hnext]

theorem aligned_take {d : SmDeframer} {bits : List Bool} {bytes : List UInt8} (len : Int)
    (h : Aligned d bits bytes) : Aligned (smDeframerTake d len).1 bits bytes := by
  rw [smDeframerTake_eq]
  cases h with
  | idle bytes hs hp => exact .idle bytes hs hp
  | data b rest hs hk hb =>
      exact .data (d := { d with out := d.out.drop (min len d.out.length).toNat })
        b rest hs hk hb
  | stop b rest hs hb => exact .stop b rest hs hb

structure ChannelInv (c : Channel) : Prop where
  wellFormed : c.txbits.WellFormed
  aligned : ∃ pending, Aligned c.deframer c.txbits.contents pending ∧
    c.accepted = c.taken ++ c.deframer.out ++ pending
  framingErrors : c.deframer.framingErrors = 0

theorem channelInv_init : ChannelInv channelInit where
  wellFormed := smBitqInit_wellFormed
  aligned := ⟨[], .idle [] rfl rfl, rfl⟩
  framingErrors := rfl

theorem channelInv_push {c : Channel} (byte : UInt8) (h : ChannelInv c) :
    ChannelInv (channelStep c (.push byte)) := by
  obtain ⟨hwf, ⟨pending, haligned, hacc⟩, herr⟩ := h
  refine ⟨smBitqPushByte_wellFormed byte hwf, ?_, herr⟩
  by_cases hroom : smBitqCount c.txbits + 10 ≤ smBitqSize
  · obtain ⟨hcontents, hcode⟩ := smBitqPushByte_contents byte hwf hroom
    refine ⟨pending ++ [byte], ?_, by simp [channelStep, hcode, hacc]⟩
    simpa [channelStep, hcontents] using aligned_push byte haligned
  · have hfull := smBitqPushByte_full byte hwf hroom
    exact ⟨pending, by simpa [channelStep, hfull] using haligned,
      by simp [channelStep, hfull, hacc]⟩

theorem channelInv_pull {c : Channel} (hroom : c.deframer.out.length < smDeframerOut)
    (h : ChannelInv c) : ChannelInv (channelStep c .pull) := by
  obtain ⟨hwf, ⟨pending, haligned, hacc⟩, herr⟩ := h
  cases hc : c.txbits.contents with
  | nil =>
      rw [hc] at haligned
      obtain ⟨rfl, hdone, hnext, hframing⟩ := aligned_idle_one haligned
      refine ⟨callGetBit_wellFormed hwf, ⟨[], ?_, ?_⟩, ?_⟩
      · simpa [channelStep, callGetBit_empty hc, hc] using hnext
      · simp [channelStep, callGetBit_empty hc, smDeframerBit_out _ hroom, hdone, hacc]
      · simp [channelStep, callGetBit_empty hc, hframing, herr]
  | cons bit bits =>
      rw [hc] at haligned
      obtain ⟨hrest, hbit⟩ := callGetBit_contents hc
      obtain ⟨rest, rfl, hnext, hframing⟩ := aligned_bit haligned
      refine ⟨callGetBit_wellFormed hwf, ⟨rest, ?_, ?_⟩, ?_⟩
      · simpa [channelStep, hrest, hbit] using hnext
      · simp [channelStep, hbit, smDeframerBit_out _ hroom, hacc]
      · simp [channelStep, hbit, hframing, herr]

theorem channelInv_take {c : Channel} (len : Int) (h : ChannelInv c) :
    ChannelInv (channelStep c (.take len)) := by
  obtain ⟨hwf, ⟨pending, haligned, hacc⟩, herr⟩ := h
  refine ⟨hwf, ⟨pending, aligned_take len haligned, ?_⟩, ?_⟩
  · simp only [channelStep, List.append_assoc]
    rw [← List.append_assoc _ _ pending, smDeframerTake_split, hacc, List.append_assoc]
  · simp [channelStep, smDeframerTake_eq, herr]

theorem channelInv_step (c : Channel) (op : ChannelOp) (h : ChannelInv c)
    (hroom : RoomForBit c op) : ChannelInv (channelStep c op) := by
  cases op with
  | push byte => exact channelInv_push byte h
  | pull => exact channelInv_pull hroom h
  | take len => exact channelInv_take len h

theorem async_channel_lossless (ops : List ChannelOp)
    (hroom : Transition.Along channelStep RoomForBit channelInit ops) :
    (channelRun ops).accepted = (channelRun ops).taken ++ (channelRun ops).deframer.out ++
        toComplete (channelRun ops) ∧
      (channelRun ops).deframer.framingErrors = 0 ∧
      ∀ byte, (smBitqPushByte (channelRun ops).txbits byte).2 = -1 →
        (smBitqPushByte (channelRun ops).txbits byte).1 = (channelRun ops).txbits := by
  have hinv : ChannelInv (channelRun ops) :=
    Transition.along_invariant channelInv_step ops channelInv_init hroom
  obtain ⟨_, ⟨pending, haligned, hacc⟩, herr⟩ := hinv
  refine ⟨?_, herr, fun byte => smBitqPushByte_rejected byte⟩
  rw [toComplete, completions_of_aligned haligned, hacc]

theorem async_channel_lossless_idle_then_letter :
    let ops : List ChannelOp := .pull :: .push 65 :: List.replicate 11 .pull ++ [.push 66, .take 4]
    Transition.Along channelStep RoomForBit channelInit ops ∧
      (channelRun ops).accepted = (channelRun ops).taken ++ (channelRun ops).deframer.out ++
        toComplete (channelRun ops) ∧
      (channelRun ops).deframer.framingErrors = 0 ∧
      ∀ byte, (smBitqPushByte (channelRun ops).txbits byte).2 = -1 →
        (smBitqPushByte (channelRun ops).txbits byte).1 = (channelRun ops).txbits :=
  ⟨by decide, async_channel_lossless _ (by decide)⟩

end Softmodem.Serial

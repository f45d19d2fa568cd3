import Softmodem.Serial.Channel

namespace Softmodem.Serial

def FromFrame (bits : List Bool) (byte : UInt8) : Prop :=
  ∃ before after, bits = before ++ frame byte ++ after

theorem FromFrame.append {bits : List Bool} {byte : UInt8} (h : FromFrame bits byte)
    (more : List Bool) : FromFrame (bits ++ more) byte := by
  obtain ⟨before, after, rfl⟩ := h
  exact ⟨before, after ++ more, by simp⟩

def lowBits (byte k : Nat) : List Bool := (List.range k).map byte.testBit

inductive Assembling (d : SmDeframer) (bits : List Bool) : Prop where
  | idle (hs : d.state = .idle)
  | data (before : List Bool) (hs : d.state = .data) (hk : d.nbits < 8)
      (hbyte : d.byte < 2 ^ d.nbits) (hbits : bits = before ++ false :: lowBits d.byte d.nbits)
  | stop (before : List Bool) (hs : d.state = .stop) (hbyte : d.byte < 2 ^ 8)
      (hbits : bits = before ++ false :: lowBits d.byte 8)

theorem testBit_next {byte k : Nat} (h : byte < 2 ^ k) (bit : Bool) (i : Nat) :
    (byte ||| (bit.toNat <<< k)).testBit i = if i = k then bit else byte.testBit i := by
  rw [Nat.testBit_or, Nat.testBit_shiftLeft]
  rcases Nat.lt_trichotomy i k with hlt | rfl | hgt
  · simp [hlt.ne, not_le.mpr hlt]
  · rw [Nat.testBit_lt_two_pow h]
    cases bit <;> simp
  · obtain ⟨j, hj⟩ := Nat.exists_eq_succ_of_ne_zero (Nat.sub_ne_zero_of_lt hgt)
    have hbit : bit.toNat.testBit (i - k) = false := by
      cases bit <;> simp [hj, Nat.testBit_succ]
    simp [hbit, hgt.ne']

theorem next_lt {byte k : Nat} (h : byte < 2 ^ k) (bit : Bool) :
    byte ||| (bit.toNat <<< k) < 2 ^ (k + 1) := by
  apply Nat.or_lt_two_pow
  · exact h.trans (Nat.pow_lt_pow_right (by omega) (by omega))
  · have hbit := bit.toNat_lt
    rw [Nat.shiftLeft_eq, Nat.pow_succ, Nat.mul_comm]
    exact Nat.mul_lt_mul_of_pos_left hbit (Nat.two_pow_pos k)

theorem lowBits_next {byte k : Nat} (h : byte < 2 ^ k) (bit : Bool) :
    lowBits (byte ||| (bit.toNat <<< k)) (k + 1) = lowBits byte k ++ [bit] := by
  unfold lowBits
  rw [List.range_succ, List.map_append]
  congr 1
  · apply List.map_congr_left
    intro i hi
    have hlt := List.mem_range.mp hi
    rw [testBit_next h, if_neg hlt.ne]
  · simp [testBit_next h]

theorem lowBits_frame {byte : Nat} (h : byte < 2 ^ 8) :
    false :: lowBits byte 8 ++ [true] = frame byte.toUInt8 := by
  have hbyte : byte.toUInt8.toNat = byte := UInt8.toNat_ofNat_of_lt h
  simp [frame, lowBits, hbyte]

theorem assembling_bit {d : SmDeframer} {bits : List Bool} (h : Assembling d bits) (bit : Bool) :
    Assembling (smDeframerBit d bit) (bits ++ [bit]) ∧
      ∀ byte ∈ completed d bit, FromFrame (bits ++ [bit]) byte := by
  cases h with
  | idle hs =>
      refine ⟨?_, by simp [completed, hs]⟩
      rcases hstart : decide (d.prev = true ∧ bit = false) with _ | _
      · have hno : ¬ (d.prev = true ∧ bit = false) := of_decide_eq_false hstart
        exact .idle (by simp [smDeframerBit, hs, hno])
      · obtain ⟨hp, rfl⟩ := of_decide_eq_true hstart
        exact .data bits (by simp [smDeframerBit, hs, hp]) (by simp [smDeframerBit, hs, hp])
          (by simp [smDeframerBit, hs, hp]) (by simp [smDeframerBit, hs, hp, lowBits])
  | data before hs hk hbyte hbits =>
      refine ⟨?_, by simp [completed, hs]⟩
      have hnbits : (smDeframerBit d bit).nbits = d.nbits + 1 := by simp [smDeframerBit, hs]
      have hnext : (smDeframerBit d bit).byte = d.byte ||| (bit.toNat <<< d.nbits) := by
        simp [smDeframerBit, hs]
      have hmore : bits ++ [bit] =
          before ++ false :: lowBits (smDeframerBit d bit).byte (smDeframerBit d bit).nbits := by
        rw [hnext, hnbits, lowBits_next hbyte, hbits]
        simp
      have hlt := next_lt hbyte bit
      rw [← hnext, ← hnbits] at hlt
      rcases Nat.lt_or_ge (d.nbits + 1) 8 with hmid | hlast
      · exact .data before (by simp [smDeframerBit, hs]; omega) (by omega) hlt hmore
      · have hk8 : (smDeframerBit d bit).nbits = 8 := by omega
        rw [hk8] at hlt hmore
        exact .stop before (by simp [smDeframerBit, hs, hlast]) hlt hmore
  | stop before hs hbyte hbits =>
      have hidle : (smDeframerBit d bit).state = .idle := by
        cases bit <;> simp [smDeframerBit, hs]
      refine ⟨.idle hidle, ?_⟩
      cases bit with
      | false => simp [completed, hs]
      | true =>
          intro byte hmem
          have heq : byte = d.byte.toUInt8 := by simpa [completed, hs] using hmem
          refine ⟨before, [], ?_⟩
          rw [heq, ← lowBits_frame hbyte, hbits]
          simp

theorem smDeframerBit_mem {d : SmDeframer} {bit : Bool} {byte : UInt8}
    (h : byte ∈ (smDeframerBit d bit).out) : byte ∈ d.out ∨ byte ∈ completed d bit := by
  have hflush {byte : UInt8} (hmem : byte ∈ (smDeframerFlush d).out) : byte ∈ d.out := by
    unfold smDeframerFlush at hmem
    split at hmem
    · cases hmem
    · exact hmem
  simp only [smDeframerBit, smDeframerFlush_state, smDeframerFlush_byte] at h
  cases hs : d.state with
  | idle =>
      simp only [hs] at h
      split at h <;> exact .inl (hflush h)
  | data =>
      simp only [hs] at h
      exact .inl (hflush h)
  | stop =>
      simp only [hs] at h
      cases bit with
      | false => exact .inl (hflush h)
      | true =>
          simp only [if_true] at h
          split at h
          · rcases List.mem_append.mp h with hmem | hmem
            · exact .inl (hflush hmem)
            · exact .inr (by simpa [completed, hs] using hmem)
          · exact .inl (hflush h)

structure PeriodInv (d : SmDeframer) (bits : List Bool) : Prop where
  assembling : Assembling d bits
  out : ∀ byte ∈ d.out, FromFrame bits byte

theorem periodInv_init : PeriodInv smDeframerInit [] := ⟨.idle rfl, by simp [smDeframerInit]⟩

theorem periodInv_bit {d : SmDeframer} {bits : List Bool} (h : PeriodInv d bits) (bit : Bool) :
    PeriodInv (smDeframerBit d bit) (bits ++ [bit]) := by
  obtain ⟨hassembling, hcompleted⟩ := assembling_bit h.assembling bit
  refine ⟨hassembling, ?_⟩
  intro byte hmem
  rcases smDeframerBit_mem hmem with hout | hdone
  · exact (h.out byte hout).append [bit]
  · exact hcompleted byte hdone

theorem periodInv_take {d : SmDeframer} {bits : List Bool} (h : PeriodInv d bits) (len : Int) :
    PeriodInv (smDeframerTake d len).1 bits ∧
      ∀ byte ∈ (smDeframerTake d len).2.1, FromFrame bits byte := by
  have hsplit := smDeframerTake_split d len
  have hmem {byte : UInt8}
      (hin : byte ∈ (smDeframerTake d len).2.1 ++ (smDeframerTake d len).1.out) :
      FromFrame bits byte := by
    rw [hsplit] at hin
    exact h.out byte hin
  refine ⟨⟨?_, fun byte hin => hmem (List.mem_append_right _ hin)⟩,
    fun byte hin => hmem (List.mem_append_left _ hin)⟩
  rw [smDeframerTake_eq]
  cases h.assembling with
  | idle hs => exact .idle hs
  | data before hs hk hbyte hbits => exact .data before hs hk hbyte hbits
  | stop before hs hbyte hbits => exact .stop before hs hbyte hbits

end Softmodem.Serial

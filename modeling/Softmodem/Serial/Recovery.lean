import Softmodem.Serial.Assembly

namespace Softmodem.Serial

open Transition

inductive DeframerOp where
  | bit (b : Bool)
  | take (len : Int)
  deriving DecidableEq, Repr

structure Decoder where
  deframer : SmDeframer
  taken : List UInt8
  deriving DecidableEq, Repr

def decoderInit : Decoder := { deframer := smDeframerInit, taken := [] }

def decoderStep (c : Decoder) : DeframerOp → Decoder
  | .bit b => { c with deframer := smDeframerBit c.deframer b }
  | .take len =>
      let (d, bytes, _) := smDeframerTake c.deframer len
      { deframer := d, taken := c.taken ++ bytes }

abbrev decoderRun (c : Decoder) (ops : List DeframerOp) : Decoder := run decoderStep c ops

def DeframerOp.bit? : DeframerOp → Option Bool
  | .bit b => some b
  | .take _ => none

def bitsOf (ops : List DeframerOp) : List Bool := ops.filterMap DeframerOp.bit?

def Decoder.received (c : Decoder) : List UInt8 := c.taken ++ c.deframer.out

def OutputDrained (c : Decoder) : DeframerOp → Prop
  | .bit _ => c.deframer.out.length < smDeframerOut
  | .take _ => True

instance (c : Decoder) : (op : DeframerOp) → Decidable (OutputDrained c op)
  | .bit _ => inferInstanceAs (Decidable (_ < _))
  | .take _ => isTrue trivial

-- Each character with the idle ones in front of it, and the idle ones behind the last.
def characters (cs : List (Nat × UInt8)) (after : Nat) : List Bool :=
  (cs.flatMap fun c => List.replicate c.1 true ++ frame c.2) ++ List.replicate after true

section Take

variable (d : SmDeframer) (len : Int)

@[simp] theorem smDeframerFlush_bytesOut (d : SmDeframer) :
    (smDeframerFlush d).bytesOut = d.bytesOut := by
  unfold smDeframerFlush; split <;> rfl

@[simp] theorem smDeframerTake_state : (smDeframerTake d len).1.state = d.state := by
  rw [smDeframerTake_eq]

@[simp] theorem smDeframerTake_nbits : (smDeframerTake d len).1.nbits = d.nbits := by
  rw [smDeframerTake_eq]

@[simp] theorem smDeframerTake_prev : (smDeframerTake d len).1.prev = d.prev := by
  rw [smDeframerTake_eq]

@[simp] theorem smDeframerTake_bytesOut : (smDeframerTake d len).1.bytesOut = d.bytesOut := by
  rw [smDeframerTake_eq]

@[simp] theorem smDeframerTake_framingErrors :
    (smDeframerTake d len).1.framingErrors = d.framingErrors := by
  rw [smDeframerTake_eq]

end Take

section Hunting

def toStop (d : SmDeframer) : Nat :=
  match d.state with
  | .idle => 0
  | .data => 9 - d.nbits
  | .stop => 1

def InCharacter (d : SmDeframer) : Prop := d.state = .data → d.nbits < 8

def settled (n : Nat) (d : SmDeframer) : UInt64 := if 0 < toStop d ∧ toStop d ≤ n then 1 else 0

theorem toStop_eq_zero_iff {d : SmDeframer} (h : InCharacter d) :
    toStop d = 0 ↔ d.state = .idle := by
  unfold toStop
  cases hs : d.state with
  | idle => simp
  | data =>
      have hk := h hs
      simp
      omega
  | stop => simp

theorem toStop_le {d : SmDeframer} : toStop d ≤ 9 := by
  unfold toStop
  cases d.state with
  | idle => exact Nat.zero_le 9
  | data => exact Nat.sub_le 9 d.nbits
  | stop => exact Nat.le_of_ble_eq_true rfl

theorem Assembling.inCharacter {d : SmDeframer} {bits : List Bool} (h : Assembling d bits) :
    InCharacter d := by
  intro hdata
  cases h with
  | idle hs => simp [hdata] at hs
  | data before hs hk hbyte hbits => exact hk
  | stop before hs hbyte hbits => simp [hdata] at hs

theorem smDeframerBit_inCharacter {d : SmDeframer} (h : InCharacter d) (bit : Bool) :
    InCharacter (smDeframerBit d bit) := by
  unfold InCharacter
  cases hs : d.state with
  | idle =>
      simp only [smDeframerBit, smDeframerFlush_state, hs]
      split <;> simp
  | data =>
      have hk := h hs
      simp only [smDeframerBit, smDeframerFlush_state, hs, smDeframerFlush_nbits]
      split
      · simp
      · intro
        omega
  | stop => cases bit <;> simp [smDeframerBit, hs]

-- What a run of n ones does: the character in progress ends, by its stop bit, within nine.
structure OnesTaken (n : Nat) (d d' : SmDeframer) : Prop where
  inCharacter : InCharacter d'
  remaining : toStop d' = toStop d - n
  prev : d'.prev = (decide (0 < n) || d.prev)
  framingErrors : d'.framingErrors = d.framingErrors
  bytesOut : d'.bytesOut = d.bytesOut + settled n d

theorem OnesTaken.trans {m n : Nat} {d d' d'' : SmDeframer} (h : OnesTaken m d d')
    (h' : OnesTaken n d' d'') : OnesTaken (m + n) d d'' where
  inCharacter := h'.inCharacter
  remaining := by rw [h'.remaining, h.remaining, Nat.sub_sub]
  prev := by
    rw [h'.prev, h.prev, ← Bool.or_assoc]
    congr 1
    rw [← Bool.decide_or, decide_eq_decide]
    omega
  framingErrors := h'.framingErrors.trans h.framingErrors
  bytesOut := by
    rw [h'.bytesOut, h.bytesOut, UInt64.add_assoc]
    congr 1
    have hremaining := h.remaining
    unfold settled
    rw [hremaining]
    split <;> split <;> split <;> first | rfl | omega

theorem onesTaken_one {d : SmDeframer} (h : InCharacter d) :
    OnesTaken 1 d (smDeframerBit d true) where
  inCharacter := smDeframerBit_inCharacter h true
  remaining := by
    unfold toStop
    cases hs : d.state with
    | idle => simp [smDeframerBit, hs]
    | data =>
        have hk := h hs
        simp only [smDeframerBit, smDeframerFlush_state, hs, smDeframerFlush_nbits]
        rcases Nat.lt_or_ge (d.nbits + 1) 8 with hmore | hlast
        · rw [if_neg (by omega)]
          exact (Nat.sub_sub 9 d.nbits 1).symm
        · rw [if_pos hlast]
          show 1 = 9 - d.nbits - 1
          omega
    | stop => simp [smDeframerBit, hs]
  prev := by cases hs : d.state <;> simp [smDeframerBit, hs]
  framingErrors := by cases hs : d.state <;> simp [smDeframerBit, hs]
  bytesOut := by
    unfold settled toStop
    cases hs : d.state with
    | idle => simp [smDeframerBit, hs]
    | data =>
        have hk := h hs
        simp only [smDeframerBit, smDeframerFlush_state, hs, smDeframerFlush_bytesOut]
        rw [if_neg (by omega), UInt64.add_zero]
    | stop => simp [smDeframerBit, hs]

theorem onesTaken_take {d : SmDeframer} (h : InCharacter d) (len : Int) :
    OnesTaken 0 d (smDeframerTake d len).1 where
  inCharacter hdata := by
    rw [smDeframerTake_state] at hdata
    rw [smDeframerTake_nbits]
    exact h hdata
  remaining := by simp only [toStop, smDeframerTake_state, smDeframerTake_nbits, Nat.sub_zero]
  prev := by simp
  framingErrors := by simp
  bytesOut := by
    rw [smDeframerTake_bytesOut, settled, if_neg (by omega), UInt64.add_zero]

theorem onesTaken_run {ops : List DeframerOp} (hones : ∀ b ∈ bitsOf ops, b = true) {c : Decoder}
    (h : InCharacter c.deframer) :
    OnesTaken (bitsOf ops).length c.deframer (decoderRun c ops).deframer := by
  induction ops generalizing c with
  | nil =>
      refine ⟨h, rfl, by simp [bitsOf], rfl, ?_⟩
      have hnone : (bitsOf []).length = 0 := rfl
      rw [settled, hnone, if_neg (by omega), UInt64.add_zero, decoderRun, run_nil]
  | cons op ops ih =>
      cases op with
      | bit b =>
          obtain ⟨rfl, hrest⟩ : b = true ∧ ∀ b ∈ bitsOf ops, b = true := by
            simpa [bitsOf, DeframerOp.bit?] using hones
          have hfirst := onesTaken_one h
          have hmore := hfirst.trans (ih (c := decoderStep c (.bit true)) hrest hfirst.inCharacter)
          rwa [Nat.add_comm] at hmore
      | take len =>
          have hfirst := onesTaken_take h len
          have hmore := hfirst.trans (ih (c := decoderStep c (.take len)) hones hfirst.inCharacter)
          rwa [Nat.zero_add] at hmore

theorem nine_ones_settle {ops : List DeframerOp} (hones : ∀ b ∈ bitsOf ops, b = true)
    (hnine : 9 ≤ (bitsOf ops).length) {c : Decoder} (h : InCharacter c.deframer) :
    (decoderRun c ops).deframer.state = .idle ∧ (decoderRun c ops).deframer.prev = true ∧
      ((decoderRun c ops).deframer.bytesOut = c.deframer.bytesOut ∨
        (decoderRun c ops).deframer.bytesOut = c.deframer.bytesOut + 1) := by
  have hrun := onesTaken_run hones h
  refine ⟨?_, ?_, ?_⟩
  · rw [← toStop_eq_zero_iff hrun.inCharacter, hrun.remaining]
    have hfar : toStop c.deframer ≤ 9 := toStop_le
    omega
  · rw [hrun.prev, decide_eq_true (by omega), Bool.true_or]
  · rw [hrun.bytesOut, settled]
    split
    · exact .inr rfl
    · exact .inl (UInt64.add_zero _)

end Hunting

section Reading

-- Between two characters, or inside one of which the bits are still to come.
inductive OnLine (d : SmDeframer) : List Bool → List UInt8 → Prop
  | between (cs : List (Nat × UInt8)) (after : Nat) (hs : d.state = .idle) (hp : d.prev = true) :
      OnLine d (characters cs after) (cs.map Prod.snd)
  | inside (bits : List Bool) (byte : UInt8) (cs : List (Nat × UInt8)) (after : Nat)
      (hmore : bits ≠ []) (h : Aligned d bits [byte]) :
      OnLine d (bits ++ characters cs after) (byte :: cs.map Prod.snd)

theorem onLine_empty {d : SmDeframer} {bytes : List UInt8} (h : OnLine d [] bytes) :
    bytes = [] := by
  generalize hbits : ([] : List Bool) = bits at h
  cases h with
  | between cs after hs hp =>
      cases cs with
      | nil => rfl
      | cons c cs => simp [characters, frame] at hbits
  | inside bits byte cs after hmore h => simp [hmore] at hbits

theorem onLine_character {d : SmDeframer} {bit : Bool} {bits : List Bool} {byte : UInt8}
    (h : Aligned d (bit :: bits) [byte]) (cs : List (Nat × UInt8)) (after : Nat) :
    ∃ rest, byte :: cs.map Prod.snd = completed d bit ++ rest ∧
      OnLine (smDeframerBit d bit) (bits ++ characters cs after) rest ∧
      (smDeframerBit d bit).framingErrors = d.framingErrors := by
  obtain ⟨pending, hbytes, hnext, herrors⟩ := aligned_bit h
  rcases eq_or_ne bits [] with rfl | hmore
  · obtain ⟨rfl, hs, hp⟩ := aligned_empty hnext
    rw [List.append_nil] at hbytes
    exact ⟨cs.map Prod.snd, by rw [← hbytes]; rfl, .between cs after hs hp, herrors⟩
  · have hpending : pending ≠ [] := by
      rintro rfl
      exact hmore (by cases hnext; rfl)
    have hlen := congrArg List.length hbytes
    have hpos := List.length_pos_iff.mpr hpending
    rw [List.length_singleton, List.length_append] at hlen
    have hnone : completed d bit = [] := List.length_eq_zero_iff.mp (by omega)
    rw [hnone, List.nil_append] at hbytes
    refine ⟨byte :: cs.map Prod.snd, by rw [hnone]; rfl, ?_, herrors⟩
    exact .inside bits byte cs after hmore (hbytes ▸ hnext)

theorem onLine_bit {d : SmDeframer} {bit : Bool} {bits : List Bool} {bytes : List UInt8}
    (h : OnLine d (bit :: bits) bytes) :
    ∃ rest, bytes = completed d bit ++ rest ∧ OnLine (smDeframerBit d bit) bits rest ∧
      (smDeframerBit d bit).framingErrors = d.framingErrors := by
  generalize hbits : bit :: bits = all at h
  cases h with
  | inside now byte cs after hmore h =>
      cases now with
      | nil => exact absurd rfl hmore
      | cons b now =>
          rw [List.cons_append, List.cons.injEq] at hbits
          obtain ⟨rfl, rfl⟩ := hbits
          exact onLine_character h cs after
  | between cs after hs hp =>
      have hone : (smDeframerBit d true).state = .idle ∧ (smDeframerBit d true).prev = true ∧
          (smDeframerBit d true).framingErrors = d.framingErrors := by
        simp [smDeframerBit, hs]
      have hnone (b : Bool) : completed d b = [] := by simp [completed, hs]
      cases cs with
      | nil =>
          cases after with
          | zero => simp [characters] at hbits
          | succ after =>
              rw [characters, List.flatMap_nil, List.nil_append, List.replicate_succ,
                List.cons.injEq] at hbits
              obtain ⟨rfl, rfl⟩ := hbits
              exact ⟨[], by rw [hnone]; rfl, .between [] after hone.1 hone.2.1, hone.2.2⟩
      | cons c cs =>
          obtain ⟨gap, byte⟩ := c
          cases gap with
          | succ gap =>
              have hline : characters ((gap + 1, byte) :: cs) after =
                  true :: characters ((gap, byte) :: cs) after := by
                simp [characters, List.replicate_succ]
              rw [hline, List.cons.injEq] at hbits
              obtain ⟨rfl, rfl⟩ := hbits
              exact ⟨byte :: cs.map Prod.snd, by rw [hnone]; rfl,
                .between ((gap, byte) :: cs) after hone.1 hone.2.1, hone.2.2⟩
          | zero =>
              have hline : characters ((0, byte) :: cs) after =
                  false :: (dataBits byte 0 ++ [true] ++ characters cs after) := by
                simp [characters, frame, dataBits]
              rw [hline, List.cons.injEq] at hbits
              obtain ⟨rfl, rfl⟩ := hbits
              have hstart : Aligned d (false :: (dataBits byte 0 ++ [true])) [byte] := by
                have h := Aligned.idle (d := d) [byte] hs hp
                simpa [frame, dataBits] using h
              exact onLine_character hstart cs after

theorem onLine_take {d : SmDeframer} {bits : List Bool} {bytes : List UInt8} (len : Int)
    (h : OnLine d bits bytes) : OnLine (smDeframerTake d len).1 bits bytes := by
  cases h with
  | between cs after hs hp => exact .between cs after (by simpa using hs) (by simpa using hp)
  | inside bits byte cs after hmore h =>
      exact .inside bits byte cs after hmore (aligned_take len h)

theorem received_take (c : Decoder) (len : Int) :
    (decoderStep c (.take len)).received = c.received := by
  simp only [decoderStep, Decoder.received, List.append_assoc, smDeframerTake_split]

theorem received_bit {c : Decoder} {b : Bool} (hroom : OutputDrained c (.bit b)) :
    (decoderStep c (.bit b)).received = c.received ++ completed c.deframer b := by
  simp only [decoderStep, Decoder.received, smDeframerBit_out b hroom, List.append_assoc]

theorem onLine_run {ops : List DeframerOp} {bytes : List UInt8} {c : Decoder}
    (h : OnLine c.deframer (bitsOf ops) bytes) (hdrained : Along decoderStep OutputDrained c ops) :
    (decoderRun c ops).received = c.received ++ bytes ∧
      (decoderRun c ops).deframer.framingErrors = c.deframer.framingErrors := by
  induction ops generalizing c bytes with
  | nil => exact ⟨by rw [onLine_empty h, List.append_nil]; rfl, rfl⟩
  | cons op ops ih =>
      obtain ⟨hroom, hrest⟩ := hdrained
      cases op with
      | bit b =>
          obtain ⟨rest, rfl, hnext, herrors⟩ := onLine_bit h
          obtain ⟨hreceived, hframing⟩ := ih hnext hrest
          refine ⟨?_, hframing.trans herrors⟩
          rw [← List.append_assoc, ← received_bit hroom]
          exact hreceived
      | take len =>
          obtain ⟨hreceived, hframing⟩ := ih (onLine_take len h) hrest
          refine ⟨?_, hframing.trans (smDeframerTake_framingErrors c.deframer len)⟩
          rw [← received_take c len]
          exact hreceived

end Reading

theorem periodInv_run {ops : List DeframerOp} {c : Decoder} {bits : List Bool}
    (h : PeriodInv c.deframer bits) :
    PeriodInv (decoderRun c ops).deframer (bits ++ bitsOf ops) := by
  induction ops generalizing c bits with
  | nil => simpa [bitsOf] using h
  | cons op ops ih =>
      cases op with
      | bit b =>
          have hnext := ih (c := decoderStep c (.bit b)) (periodInv_bit h b)
          simpa [bitsOf, DeframerOp.bit?] using hnext
      | take len => exact ih (c := decoderStep c (.take len)) (periodInv_take h len).1

theorem deframer_recovers (noise : List DeframerOp) {ones chars : List DeframerOp}
    (hones : ∀ b ∈ bitsOf ones, b = true) (hnine : 9 ≤ (bitsOf ones).length)
    {cs : List (Nat × UInt8)} {after : Nat} (hchars : bitsOf chars = characters cs after)
    (hdrained : Along decoderStep OutputDrained (decoderRun decoderInit (noise ++ ones)) chars) :
    let lost := decoderRun decoderInit noise
    let hunting := decoderRun decoderInit (noise ++ ones)
    let read := decoderRun decoderInit (noise ++ ones ++ chars)
    (hunting.deframer.state = .idle ∧ hunting.deframer.prev = true ∧
        (hunting.deframer.bytesOut = lost.deframer.bytesOut ∨
          hunting.deframer.bytesOut = lost.deframer.bytesOut + 1)) ∧
      read.received = hunting.received ++ cs.map Prod.snd ∧
      read.deframer.framingErrors = hunting.deframer.framingErrors := by
  intro lost hunting read
  have hlost : InCharacter lost.deframer :=
    (periodInv_run (c := decoderInit) periodInv_init).assembling.inCharacter
  have hhunting : hunting = decoderRun lost ones := run_append ..
  have hread : read = decoderRun hunting chars := run_append ..
  have hsettled := nine_ones_settle hones hnine hlost
  rw [← hhunting] at hsettled
  refine ⟨hsettled, ?_⟩
  rw [hread]
  refine onLine_run ?_ hdrained
  rw [hchars]
  exact .between cs after hsettled.1 hsettled.2.1

def lineNoise : List DeframerOp := [.bit false, .bit true, .bit false, .take 1, .bit false]

def twoLetters : List DeframerOp := (characters [(0, 65), (2, 66)] 1).map .bit ++ [.take 4]

theorem twoLetters_bits : bitsOf twoLetters = characters [(0, 65), (2, 66)] 1 := by
  decide

theorem letters_after_noise :
    let ones := List.replicate 9 (DeframerOp.bit true)
    let lost := decoderRun decoderInit lineNoise
    let hunting := decoderRun decoderInit (lineNoise ++ ones)
    let read := decoderRun decoderInit (lineNoise ++ ones ++ twoLetters)
    (hunting.deframer.state = .idle ∧ hunting.deframer.prev = true ∧
        (hunting.deframer.bytesOut = lost.deframer.bytesOut ∨
          hunting.deframer.bytesOut = lost.deframer.bytesOut + 1)) ∧
      read.received = hunting.received ++ [65, 66] ∧
      read.deframer.framingErrors = hunting.deframer.framingErrors :=
  deframer_recovers lineNoise (by decide) (by decide) twoLetters_bits (by decide)

end Softmodem.Serial

import Mathlib.Data.Nat.Bitwise
import Softmodem.Lib.LogCell
import Softmodem.Sip.RxQueue

namespace Softmodem.Sip

open AudioSocket LogCell

def Sample (x : Int) : Prop := -2 ^ 15 ≤ x ∧ x < 2 ^ 15

-- What is left of a sample once a mu-law byte has carried it.
def quantised (x : Int) : Int := smUlawDecode (smUlawEncode x)

-- The clipped magnitude with sm_ulaw_encode's bias; its mantissa keeps four bits.
def biased (x : Int) : Nat := min x.natAbs 32635 + 0x84

structure Shifted (s : Nat) (r : Nat × Nat) (top : Nat) : Prop where
  exponent : r.1 ≤ top
  sample : r.2 = s * 2 ^ (top - r.1)
  low : 2 ^ 14 ≤ r.2
  high : r.2 < 2 ^ 15

theorem and_bit14 {s : Nat} (h : s < 2 ^ 15) : s &&& 0x4000 = 0 ↔ s < 2 ^ 14 := by
  have hbit : s &&& 0x4000 = (s.testBit 14).toNat * 2 ^ 14 := Nat.and_two_pow s 14
  rw [hbit, Nat.testBit_eq_decide_div_mod_eq]
  rcases Nat.lt_or_ge s (2 ^ 14) with hlow | hlow
  · have hzero : s / 2 ^ 14 = 0 := Nat.div_eq_of_lt hlow
    simp only [hzero, hlow, iff_true]
    decide
  · have hone : s / 2 ^ 14 = 1 := Nat.div_eq_of_lt_le (by omega) (by omega)
    simp only [hone, Nat.not_lt.mpr hlow, iff_false]
    decide

theorem ulawExponent_shifted {top s : Nat} (htop : top ≤ 14) (hlow : 2 ^ (14 - top) ≤ s)
    (hhigh : s < 2 ^ 15) : Shifted s (ulawExponent top s) top := by
  induction top generalizing s with
  | zero => exact ⟨Nat.le_refl _, by simp [ulawExponent], hlow, hhigh⟩
  | succ top ih =>
      rw [ulawExponent]
      split
      · next hbit =>
          rw [and_bit14 hhigh] at hbit
          have hdouble : 2 ^ (14 - top) ≤ s <<< 1 := by
            have hpow : 14 - top = 14 - (top + 1) + 1 := by omega
            rw [hpow, Nat.pow_succ, Nat.shiftLeft_eq]
            omega
          have h := ih (by omega) hdouble (by rw [Nat.shiftLeft_eq]; omega)
          refine ⟨h.exponent.trans (Nat.le_succ _), ?_, h.low, h.high⟩
          have hstep : top + 1 - (ulawExponent top (s <<< 1)).1 =
              top - (ulawExponent top (s <<< 1)).1 + 1 := Nat.succ_sub h.exponent
          rw [h.sample, hstep, Nat.pow_succ, Nat.shiftLeft_eq, Nat.pow_one, Nat.mul_right_comm,
            Nat.mul_assoc]
      · next hbit =>
          rw [and_bit14 hhigh] at hbit
          exact ⟨Nat.le_refl _, by simp, by omega, hhigh⟩

theorem Shifted.pow_le {s top : Nat} {r : Nat × Nat} (htop : top ≤ 14) (h : Shifted s r top) :
    2 ^ (14 - top + r.1) ≤ s := by
  refine Nat.le_of_mul_le_mul_right ?_ (Nat.two_pow_pos (top - r.1))
  have hexponent := h.exponent
  have hsum : 14 - top + r.1 + (top - r.1) = 14 := by omega
  rw [← Nat.pow_add, hsum, ← h.sample]
  exact h.low

theorem Shifted.lt_pow {s top : Nat} {r : Nat × Nat} (htop : top ≤ 14) (h : Shifted s r top) :
    s < 2 ^ (14 - top + r.1 + 1) := by
  refine Nat.lt_of_mul_lt_mul_right (a := 2 ^ (top - r.1)) ?_
  have hexponent := h.exponent
  have hsum : 14 - top + r.1 + 1 + (top - r.1) = 15 := by omega
  rw [← Nat.pow_add, hsum, ← h.sample]
  exact h.high

theorem Shifted.log {s : Nat} {r : Nat × Nat} (h : Shifted s r 7) : Nat.log 2 s = r.1 + 7 := by
  have hlow := h.pow_le (by decide)
  have hhigh := h.lt_pow (by decide)
  rw [Nat.add_comm (14 - 7) r.1] at hlow hhigh
  exact Nat.log_eq_of_pow_le_of_lt_pow hlow hhigh

theorem Shifted.width {s : Nat} {r : Nat × Nat} (h : Shifted s r 7) :
    LogCell.width 4 s = 2 ^ (r.1 + 3) := by
  rw [LogCell.width, h.log, Nat.add_sub_assoc (by decide)]

-- The five bits that sm_ulaw_encode keeps tell the cell.
theorem Shifted.cell {s : Nat} {r : Nat × Nat} (h : Shifted s r 7) :
    r.2 / 2 ^ 10 = s / 2 ^ (r.1 + 3) := by
  have hexponent := h.exponent
  have hsum : 10 = r.1 + 3 + (7 - r.1) := by omega
  rw [h.sample, hsum, Nat.pow_add]
  exact Nat.mul_div_mul_right _ _ (Nat.two_pow_pos _)

theorem Shifted.middle {s : Nat} {r : Nat × Nat} (h : Shifted s r 7) :
    LogCell.middle 4 s = (8 * (r.2 / 2 ^ 10) + 4) * 2 ^ r.1 := by
  have hhalf : 2 ^ (r.1 + 3) / 2 = 4 * 2 ^ r.1 := by
    rw [Nat.pow_succ, Nat.mul_div_cancel _ (by decide), Nat.pow_add, Nat.mul_comm]
  have hfloor : 2 ^ (r.1 + 3) * (r.2 / 2 ^ 10) = 8 * (r.2 / 2 ^ 10) * 2 ^ r.1 := by
    rw [Nat.pow_add, Nat.mul_assoc, Nat.mul_comm]
  rw [LogCell.middle, LogCell.floor, h.width, hhalf, ← h.cell, hfloor, ← Nat.add_mul]

theorem decode_parts (negative : Bool) (e : Fin 8) (m : Fin 16) :
    smUlawDecode (~~~((if negative then 0x80 else 0) ||| (e.val <<< 4) ||| m.val).toUInt8) =
      if negative then 0x84 - (((8 * m.val + 0x84) * 2 ^ e.val : Nat) : Int)
      else (((8 * m.val + 0x84) * 2 ^ e.val : Nat) : Int) - 0x84 := by
  revert negative e m
  decide +kernel

theorem biased_low (x : Int) : 0x84 ≤ biased x := Nat.le_add_left _ _

theorem biased_high (x : Int) : biased x ≤ 32767 := by
  rw [biased]
  omega

theorem quantised_eq (x : Int) :
    quantised x = if x < 0 then 0x84 - (middle 4 (biased x) : Int)
      else (middle 4 (biased x) : Int) - 0x84 := by
  have hlow := biased_low x
  have hhigh := biased_high x
  have h : Shifted (biased x) (ulawExponent 7 (biased x)) 7 :=
    ulawExponent_shifted (by decide) (by omega) (by omega)
  rw [quantised, smUlawEncode, ← biased, h.middle]
  generalize ulawExponent 7 (biased x) = r at h
  obtain ⟨e, sample⟩ := r
  obtain ⟨hexponent, -, hlow, hhigh⟩ := h
  have hcell : 16 ≤ sample / 2 ^ 10 ∧ sample / 2 ^ 10 < 32 := by
    dsimp only at hlow hhigh
    omega
  have hmantissa : (sample >>> 10) &&& 0x0F = sample / 2 ^ 10 - 16 := by
    have hmod := Nat.and_two_pow_sub_one_eq_mod (sample >>> 10) 4
    rw [Nat.shiftRight_eq_div_pow] at hmod ⊢
    exact hmod.trans (by omega)
  have hparts := decode_parts (decide (x < 0)) ⟨e, by dsimp only at hexponent; omega⟩
    ⟨sample / 2 ^ 10 - 16, by omega⟩
  have hmiddle : 8 * (sample / 2 ^ 10 - 16) + 0x84 = 8 * (sample / 2 ^ 10) + 4 := by omega
  simp only [decide_eq_true_eq, hmiddle] at hparts
  dsimp only
  rw [hmantissa]
  exact hparts

theorem biased_ne_zero (x : Int) : biased x ≠ 0 := by
  have h := biased_low x
  omega

theorem log_biased (x : Int) : 7 ≤ Nat.log 2 (biased x) :=
  Nat.le_log_of_pow_le (by decide) ((by decide : 2 ^ 7 ≤ 0x84).trans (biased_low x))

theorem middle_biased_mono {x y : Int} (h : biased x ≤ biased y) :
    middle 4 (biased x) ≤ middle 4 (biased y) :=
  middle_mono (biased_ne_zero x) ((by decide : 4 ≤ 7).trans (log_biased x)) h

theorem middle_least : middle 4 0x84 = 0x84 := by
  have h : Shifted 0x84 (ulawExponent 7 0x84) 7 :=
    ulawExponent_shifted (by decide) (by decide) (by decide)
  exact h.middle

theorem middle_most : middle 4 32767 = 32256 := by
  have h : Shifted 32767 (ulawExponent 7 32767) 7 :=
    ulawExponent_shifted (by decide) (by decide) (by decide)
  exact h.middle

theorem middle_biased_low (x : Int) : 0x84 ≤ middle 4 (biased x) := by
  have h := middle_biased_mono (x := 0) (y := x) (biased_low x)
  exact middle_least.symm.le.trans h

theorem middle_biased_high (x : Int) : middle 4 (biased x) ≤ 32256 := by
  have h := middle_biased_mono (x := x) (y := 32635) (biased_high x)
  exact h.trans middle_most.le

-- Half a cell is at most one part in thirty-two of the biased magnitude.
theorem middle_biased_error (x : Int) :
    32 * middle 4 (biased x) ≤ 33 * biased x ∧ 31 * biased x ≤ 32 * middle 4 (biased x) := by
  have hlog := log_biased x
  have hwidth : width 4 (biased x) * 2 ^ 4 ≤ biased x :=
    width_mul_le (biased_ne_zero x) (by omega)
  have habove := middle_le 4 (biased x)
  have hbelow : biased x ≤ middle 4 (biased x) + width 4 (biased x) / 2 := le_middle (by omega)
  omega

theorem quantised_error {x : Int} (hx : Sample x) :
    32 * (quantised x - x).natAbs ≤ x.natAbs + 132 := by
  obtain ⟨hlow, hhigh⟩ := hx
  have heq := quantised_eq x
  obtain ⟨habove, hbelow⟩ := middle_biased_error x
  have hbiased : biased x = min x.natAbs 32635 + 0x84 := rfl
  rcases Nat.lt_or_ge 32635 x.natAbs with hclipped | hinside
  · have hmost : biased x = 32767 := by omega
    rw [hmost, middle_most] at heq
    split at heq <;> omega
  · split at heq <;> omega

theorem quantised_mono {x y : Int} (hxy : x ≤ y) : quantised x ≤ quantised y := by
  have hlow := middle_biased_low x
  have hlow' := middle_biased_low y
  have hbiased : biased x = min x.natAbs 32635 + 0x84 := rfl
  have hbiased' : biased y = min y.natAbs 32635 + 0x84 := rfl
  rw [quantised_eq, quantised_eq]
  split
  · split
    · have h := middle_biased_mono (x := y) (y := x) (by omega)
      omega
    · omega
  · have h := middle_biased_mono (x := x) (y := y) (by omega)
    split
    · omega
    · omega

theorem quantised_neg (x : Int) : quantised (-x) = -quantised x := by
  have hbiased : biased (-x) = biased x := by rw [biased, Int.natAbs_neg, biased]
  rw [quantised_eq, quantised_eq, hbiased]
  rcases Int.lt_trichotomy x 0 with h | rfl | h
  · rw [if_neg (by omega), if_pos h]
    omega
  · have hzero : biased 0 = 0x84 := rfl
    rw [hzero, middle_least]
    rfl
  · rw [if_pos (by omega), if_neg (by omega)]
    omega

theorem quantised_range (x : Int) : -32124 ≤ quantised x ∧ quantised x ≤ 32124 := by
  have hlow := middle_biased_low x
  have hhigh := middle_biased_high x
  rw [quantised_eq]
  split <;> omega

theorem biased_quantised (x : Int) : biased (quantised x) = middle 4 (biased x) := by
  have hlow := middle_biased_low x
  have hhigh := middle_biased_high x
  rw [biased, quantised_eq]
  split <;> omega

-- A second pass through the code changes nothing.
theorem quantised_quantised (x : Int) : quantised (quantised x) = quantised x := by
  have hlow := middle_biased_low x
  have hstable : middle 4 (middle 4 (biased x)) = middle 4 (biased x) :=
    middle_middle (biased_ne_zero x) ((by decide : 4 ≤ 7).trans (log_biased x))
  rw [quantised_eq (quantised x), biased_quantised, hstable, quantised_eq x]
  split <;> split <;> omega

-- Negative zero comes back as zero; every other byte comes back as itself.
theorem encode_decode (u : UInt8) :
    smUlawEncode (smUlawDecode u) = if u = 0x7F then 0xFF else u := by
  have h : ∀ n : Fin 256, smUlawEncode (smUlawDecode (UInt8.ofNat n.val)) =
      if UInt8.ofNat n.val = 0x7F then 0xFF else UInt8.ofNat n.val := by
    decide +kernel
  simpa using h ⟨u.toNat, u.toNat_lt⟩

theorem quantised_decode (u : UInt8) : quantised (smUlawDecode u) = smUlawDecode u := by
  rw [quantised, encode_decode]
  split
  · next hzero =>
      subst hzero
      decide
  · rfl

theorem decode_sample (u : UInt8) : Sample (smUlawDecode u) := by
  have h := quantised_range (smUlawDecode u)
  rw [quantised_decode] at h
  exact ⟨by omega, by omega⟩

theorem pcmSample_head (x : Int) (hx : Sample x) (xs : List Int) :
    pcmSample (pcmBytes (x :: xs)) 0 = x := by
  obtain ⟨hlow, hhigh⟩ := hx
  change Int.bmod (((x % 256).toNat.toUInt8.toNat +
    256 * (x / 256 % 256).toNat.toUInt8.toNat : Nat)) (2 ^ 16) = x
  have hbytes : (((x % 256).toNat.toUInt8.toNat +
      256 * (x / 256 % 256).toNat.toUInt8.toNat : Nat) : Int) = x % 2 ^ 16 := by
    rw [Nat.toUInt8_eq, Nat.toUInt8_eq, UInt8.toNat_ofNat', UInt8.toNat_ofNat']
    omega
  rw [hbytes, Int.bmod_def]
  split <;> omega

theorem pcmSample_tail (x : Int) (xs : List Int) (j : Nat) :
    pcmSample (pcmBytes (x :: xs)) (j + 1) = pcmSample (pcmBytes xs) j := rfl

theorem pcmSample_pcmBytes {xs : List Int} (hxs : ∀ x ∈ xs, Sample x) :
    (List.range xs.length).map (pcmSample (pcmBytes xs)) = xs := by
  induction xs with
  | nil => rfl
  | cons x xs ih =>
      have htail : pcmSample (pcmBytes (x :: xs)) ∘ Nat.succ = pcmSample (pcmBytes xs) := by
        funext j
        rw [Function.comp_apply, Nat.succ_eq_add_one, pcmSample_tail]
      rw [List.length_cons, List.range_succ_eq_map, List.map_cons, List.map_map, htail,
        pcmSample_head x (hxs x List.mem_cons_self),
        ih fun y hy => hxs y (List.mem_cons_of_mem x hy)]

theorem pcmBytes_length (xs : List Int) : (pcmBytes xs).length = 2 * xs.length := by
  induction xs with
  | nil => rfl
  | cons x xs ih =>
      rw [pcmBytes, List.flatMap_cons, List.length_append, ← pcmBytes, ih, List.length_cons,
        List.length_cons, List.length_cons, List.length_nil]
      omega

-- What the daemon writes back is what it was handed.
theorem daemonSamples_pcmBytes {xs : List Int} (hxs : ∀ x ∈ xs, Sample x)
    (hlen : xs.length ≤ smSipRtpMaxpay) :
    daemonSamples (pcmBytes xs) (pcmBytes xs).length = xs := by
  rw [daemonSamples, pcmBytes_length, Nat.mul_div_cancel_left _ (by decide), Nat.min_eq_left hlen]
  exact pcmSample_pcmBytes hxs

theorem DaemonSends.unique {s : SmSip} {payload payload' : Bytes} {plen plen' : Nat}
    (h : DaemonSends s payload plen) (h' : DaemonSends s payload' plen') :
    payload' = payload ∧ plen' = plen := by
  induction h with
  | now hread hlen =>
      cases h' with
      | now hread' _ =>
          rw [hread] at hread'
          obtain ⟨hmessage, -⟩ := Prod.mk.inj hread'
          obtain ⟨-, rfl, rfl⟩ := SmAstRead.message.inj hmessage
          exact ⟨rfl, rfl⟩
      | later hread' hother' _ _ =>
          rw [hread] at hread'
          obtain ⟨hmessage, -⟩ := Prod.mk.inj hread'
          obtain ⟨rfl, -, rfl⟩ := SmAstRead.message.inj hmessage
          exact absurd ⟨rfl, hlen⟩ hother'
  | later hread hother _ _ ih =>
      cases h' with
      | now hread' hlen' =>
          rw [hread] at hread'
          obtain ⟨hmessage, -⟩ := Prod.mk.inj hread'
          obtain ⟨rfl, -, rfl⟩ := SmAstRead.message.inj hmessage
          exact absurd ⟨rfl, hlen'⟩ hother
      | later hread' _ _ hsends =>
          rw [hread] at hread'
          obtain ⟨-, rfl⟩ := Prod.mk.inj hread'
          exact ih hsends

theorem feedDaemon_emits {s : SmSip} {pcm : List Int} {e : Env} {dest : SockAddr} {pkt : Bytes}
    (hsent : .rtp dest pkt ∈ (feedDaemon s pcm e).2) :
    ∃ payload plen, DaemonSends s payload plen ∧
      pkt = rtpHeader s ++ (daemonSamples payload plen).map smUlawEncode := by
  have hfed := feedDaemon_fed s pcm e
  generalize feedDaemon s pcm e = result at hfed hsent
  cases hfed with
  | silent => simp at hsent
  | hungUp _ _ hquiet => exact absurd hsent (hquiet dest pkt)
  | packet _ _ payload plen hsends =>
      obtain ⟨-, rfl⟩ : dest = s.rtpPeer ∧ _ := by simpa using hsent
      exact ⟨payload, plen, hsends, rfl⟩

theorem readDaemon_same {s t : SmSip} (has : t.daemonAs = s.daemonAs)
    (hdaemon : t.daemon = s.daemon) :
    (readDaemon t).1 = (readDaemon s).1 ∧ (readDaemon t).2.daemonAs = (readDaemon s).2.daemonAs ∧
      (readDaemon t).2.daemon = (readDaemon s).2.daemon := by
  simp only [readDaemon, has, hdaemon, and_self]

theorem DaemonSends.of_read {s : SmSip} {payload : Bytes} {plen : Nat}
    (h : (readDaemon s).1 = .message smAsKindAudio payload plen) (hlen : 2 ≤ plen) :
    DaemonSends s payload plen :=
  .now (Prod.ext h (rfl : _ = (readDaemon s).2)) hlen

theorem DaemonSends.same {s t : SmSip} {payload : Bytes} {plen : Nat}
    (h : DaemonSends s payload plen) (has : t.daemonAs = s.daemonAs)
    (hdaemon : t.daemon = s.daemon) : DaemonSends t payload plen := by
  induction h generalizing t with
  | now hread hlen =>
      obtain ⟨hmessage, -, -⟩ := readDaemon_same has hdaemon
      rw [hread] at hmessage
      exact .of_read hmessage hlen
  | later hread hother hkind _ ih =>
      obtain ⟨hmessage, hleft, hpeer⟩ := readDaemon_same has hdaemon
      have hread' : readDaemon t = ((readDaemon t).1, (readDaemon t).2) := rfl
      rw [hmessage, hread] at hread'
      rw [hread] at hleft hpeer
      exact .later hread' hother hkind (ih hleft hpeer)

theorem audioTick_sends {s : SmSip} {e : Env} {payload : Bytes} {plen : Nat}
    (hsends : DaemonSends s payload plen) {dest : SockAddr} {pkt : Bytes}
    (hsent : .rtp dest pkt ∈ (audioTick s e).2) :
    ∃ t, pkt = rtpHeader t ++ (daemonSamples payload plen).map smUlawEncode := by
  obtain ⟨t, hpopped, htick⟩ := audioTick_eq s e
  have hsame : t.daemonAs = s.daemonAs ∧ t.daemon = s.daemon := by
    cases hpopped with
    | frame => exact ⟨rfl, rfl⟩
    | silence => exact ⟨rfl, rfl⟩
  rw [htick] at hsent
  obtain ⟨payload', plen', hsends', hpkt⟩ := feedDaemon_emits hsent
  obtain ⟨rfl, rfl⟩ := (hsends.same hsame.1 hsame.2).unique hsends'
  exact ⟨t, hpkt⟩

theorem pcmuFrame_sent (s : SmSip) {xs : List Int} (hlen : xs.length ≤ smSipRtpMaxpay) :
    pcmuFrame (rtpHeader s ++ xs.map smUlawEncode) = xs.map quantised := by
  have htake : (xs.map smUlawEncode).take smSipRtpMaxpay = xs.map smUlawEncode :=
    List.take_of_length_le (by rwa [List.length_map])
  rw [pcmuFrame, rtpHeader_payload, htake, List.map_map]
  rfl

theorem pcmuFrame_sample (pkt : Bytes) : ∀ x ∈ pcmuFrame pkt, Sample x := by
  intro x hx
  obtain ⟨u, -, rfl⟩ := List.mem_map.mp hx
  exact decode_sample u

theorem pcmuFrame_quantised (pkt : Bytes) : (pcmuFrame pkt).map quantised = pcmuFrame pkt := by
  rw [pcmuFrame, List.map_map]
  exact List.map_congr_left fun u _ => quantised_decode u

theorem daemonSamples_sample (payload : Bytes) (plen : Nat) :
    ∀ x ∈ daemonSamples payload plen, Sample x := by
  intro x hx
  obtain ⟨j, -, rfl⟩ := List.mem_map.mp hx
  exact ⟨Int.le_bmod (by decide), Int.bmod_lt (by decide)⟩

-- One bridge further on: a packet comes in, a tick plays its frame, the daemon answers with the
-- frame it was handed, and that reply goes out.
inductive Relayed : Bytes → Bytes → Prop
  | bridge {pkt pkt' : Bytes} {s t : SmSip} {e : Env} {dest : SockAddr} (hvalid : ValidPcmu pkt)
      (hplayed : tickFrame t = (processRtp s pkt).rxq s.rxqHead)
      (hanswer : DaemonSends t (pcmBytes (tickFrame t)) (pcmBytes (tickFrame t)).length)
      (hsent : .rtp dest pkt' ∈ (audioTick t e).2) : Relayed pkt pkt'

theorem Relayed.keeps {pkt pkt' : Bytes} (h : Relayed pkt pkt') :
    ValidPcmu pkt' ∧ pcmuFrame pkt' = pcmuFrame pkt := by
  cases h with
  | @bridge s t e dest hvalid hplayed hanswer hsent =>
      have hframe : tickFrame t = pcmuFrame pkt := by
        rw [hplayed, (processRtp_enqueues s hvalid).rxq, Function.update_self]
      rw [hframe] at hanswer
      obtain ⟨u, rfl⟩ := audioTick_sends hanswer hsent
      rw [daemonSamples_pcmBytes (pcmuFrame_sample pkt) (pcmuFrame_length pkt)]
      refine ⟨rtpHeader_valid u ?_, ?_⟩
      · rw [ne_eq, List.map_eq_nil_iff]
        exact pcmuFrame_ne_nil hvalid
      · rw [pcmuFrame_sent u (pcmuFrame_length pkt), pcmuFrame_quantised]

theorem relays_keep {pkt pkt' : Bytes} (hvalid : ValidPcmu pkt)
    (h : Relation.ReflTransGen Relayed pkt pkt') :
    ValidPcmu pkt' ∧ pcmuFrame pkt' = pcmuFrame pkt := by
  induction h with
  | refl => exact ⟨hvalid, rfl⟩
  | tail _ hlast ih =>
      obtain ⟨hvalid', hframe⟩ := hlast.keeps
      exact ⟨hvalid', hframe.trans ih.2⟩

-- What the companding may do to a sample.
structure Companded (f : Int → Int) : Prop where
  error : ∀ x, Sample x → 32 * (f x - x).natAbs ≤ x.natAbs + 132
  monotone : ∀ x y, x ≤ y → f x ≤ f y
  odd : ∀ x, f (-x) = -f x
  stable : ∀ x, f (f x) = f x

theorem companded_quantised : Companded quantised :=
  ⟨fun _ => quantised_error, fun _ _ => quantised_mono, quantised_neg, quantised_quantised⟩

theorem audio_is_companded_once :
    Companded quantised ∧
      (∀ (t : SmSip) (pkt pkt' : Bytes), ValidPcmu pkt →
        Relation.ReflTransGen Relayed pkt pkt' → Enqueues t (pcmuFrame pkt) (processRtp t pkt')) ∧
      ∀ (s : SmSip) (pcm : List Int) (e : Env) (dest : SockAddr) (pkt : Bytes),
        .rtp dest pkt ∈ (feedDaemon s pcm e).2 → ∃ payload plen, DaemonSends s payload plen ∧
          (∀ x ∈ daemonSamples payload plen, Sample x) ∧
          ∀ (t : SmSip) (pkt' : Bytes), Relation.ReflTransGen Relayed pkt pkt' →
            Enqueues t ((daemonSamples payload plen).map quantised) (processRtp t pkt') := by
  refine ⟨companded_quantised, fun t pkt pkt' hvalid hrelays => ?_,
    fun s pcm e dest pkt hsent => ?_⟩
  · obtain ⟨hvalid', hframe⟩ := relays_keep hvalid hrelays
    rw [← hframe]
    exact processRtp_enqueues t hvalid'
  · obtain ⟨payload, plen, hsends, rfl⟩ := feedDaemon_emits hsent
    refine ⟨payload, plen, hsends, daemonSamples_sample payload plen, fun t pkt' hrelays => ?_⟩
    have hlen : (daemonSamples payload plen).length ≤ smSipRtpMaxpay := by
      rw [daemonSamples_length]
      exact Nat.min_le_right _ _
    have hne : (daemonSamples payload plen).map smUlawEncode ≠ [] := by
      rw [ne_eq, List.map_eq_nil_iff]
      exact daemonSamples_ne_nil payload hsends.length
    obtain ⟨hvalid', hframe⟩ := relays_keep (rtpHeader_valid s hne) hrelays
    rw [pcmuFrame_sent s hlen] at hframe
    rw [← hframe]
    exact processRtp_enqueues t hvalid'

def spoken : Bytes := [0x39, 0x30, 0xC7, 0xCF]

def nearBridge : SmSip :=
  { smSipCreate ataConfig with daemon := ⟨0x10 :: 0 :: 4 :: spoken, [.data 3, .data 4]⟩ }

def nearPacket : Bytes := rtpHeader nearBridge ++ [0x97, 0x17]

def farBridge : SmSip :=
  { processRtp (smSipCreate ataConfig) nearPacket with
    rtpSeq := 7
    daemon := ⟨0x10 :: 0 :: 4 :: pcmBytes [12412, -12412], [.data 3, .data 4]⟩ }

def farPacket : Bytes := rtpHeader farBridge ++ [0x97, 0x17]

theorem nearBridge_sends : .rtp ⟨0, 0⟩ nearPacket ∈ (feedDaemon nearBridge [] quietWake.toEnv).2 := by
  decide +kernel

theorem near_relayed_far : Relayed nearPacket farPacket := by
  have hanswer : DaemonSends farBridge (pcmBytes (tickFrame farBridge))
      (pcmBytes (tickFrame farBridge)).length :=
    .of_read (by decide +kernel) (by decide +kernel)
  exact .bridge (s := smSipCreate ataConfig) (t := farBridge) (e := quietWake.toEnv)
    (by decide +kernel) (by decide +kernel) hanswer
    (by decide +kernel : .rtp ⟨0, 0⟩ farPacket ∈ (audioTick farBridge quietWake.toEnv).2)

theorem two_bridges_compand_once :
    32 * (quantised 12345 - 12345).natAbs ≤ 12477 ∧ nearPacket ≠ farPacket ∧
      Enqueues nearBridge (pcmuFrame nearPacket) (processRtp nearBridge farPacket) ∧
      ∃ payload plen, DaemonSends nearBridge payload plen ∧
        Enqueues nearBridge ((daemonSamples payload plen).map quantised)
          (processRtp nearBridge farPacket) := by
  have hrelays : Relation.ReflTransGen Relayed nearPacket farPacket := .single near_relayed_far
  obtain ⟨hcompanded, harrives, hsends⟩ := audio_is_companded_once
  obtain ⟨payload, plen, hsent, -, hplayed⟩ := hsends nearBridge [] quietWake.toEnv ⟨0, 0⟩
    nearPacket nearBridge_sends
  exact ⟨hcompanded.error 12345 ⟨by decide, by decide⟩, by decide +kernel,
    harrives nearBridge nearPacket farPacket (by decide +kernel) hrelays,
    payload, plen, hsent, hplayed nearBridge farPacket hrelays⟩

end Softmodem.Sip

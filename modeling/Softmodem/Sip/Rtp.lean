import Softmodem.Sip.Media

namespace Softmodem.Sip

-- The parts of an RTP packet, by what its first bytes announce.
def rtpFlags (pkt : Bytes) : Nat := (pkt.getD 0 0).toNat

def afterExtension : Bytes → Bytes
  | _ :: _ :: hi :: lo :: rest => rest.drop (4 * (256 * hi.toNat + lo.toNat))
  | _ => []

def afterHeader (pkt : Bytes) : Bytes :=
  let rest := (pkt.drop 12).drop (4 * (rtpFlags pkt % 16))
  if rtpFlags pkt / 16 % 2 = 1 then afterExtension rest else rest

def rtpPayload (pkt : Bytes) : Bytes :=
  let rest := afterHeader pkt
  if rtpFlags pkt / 32 % 2 = 1 then rest.take (rest.length - (pkt.getLastD 0).toNat) else rest

structure ValidPcmu (pkt : Bytes) : Prop where
  version : rtpFlags pkt / 64 = 2
  payloadType : (pkt.getD 1 0).toNat % 128 = 0
  payload : rtpPayload pkt ≠ []

instance (pkt : Bytes) : Decidable (ValidPcmu pkt) :=
  decidable_of_iff (rtpFlags pkt / 64 = 2 ∧ (pkt.getD 1 0).toNat % 128 = 0 ∧ rtpPayload pkt ≠ [])
    ⟨fun ⟨h₁, h₂, h₃⟩ => ⟨h₁, h₂, h₃⟩, fun h => ⟨h.version, h.payloadType, h.payload⟩⟩

theorem shift_version (b : UInt8) : b >>> 6 = 2 ↔ b.toNat / 64 = 2 := by
  rw [← UInt8.toNat_inj, UInt8.toNat_shiftRight]
  simp [Nat.shiftRight_eq_div_pow]

theorem and_csrcs (b : UInt8) : (b &&& 0x0F).toNat = b.toNat % 16 := by
  rw [UInt8.toNat_and]
  exact Nat.and_two_pow_sub_one_eq_mod _ 4

theorem shift_extension (b : UInt8) : (b >>> 4) &&& 1 = 0 ↔ b.toNat / 16 % 2 = 0 := by
  rw [← UInt8.toNat_inj, UInt8.toNat_and, UInt8.toNat_shiftRight]
  simp [Nat.shiftRight_eq_div_pow, Nat.and_one_is_mod]

theorem shift_padding (b : UInt8) : (b >>> 5) &&& 1 = 0 ↔ b.toNat / 32 % 2 = 0 := by
  rw [← UInt8.toNat_inj, UInt8.toNat_and, UInt8.toNat_shiftRight]
  simp [Nat.shiftRight_eq_div_pow, Nat.and_one_is_mod]

theorem and_payloadType (b : UInt8) : b &&& 0x7F = 0 ↔ b.toNat % 128 = 0 := by
  rw [← UInt8.toNat_inj, UInt8.toNat_and]
  exact iff_of_eq (congrArg (· = 0) (Nat.and_two_pow_sub_one_eq_mod _ 7))

theorem word_of_bytes (hi lo : UInt8) :
    hi.toNat <<< 8 ||| lo.toNat = 256 * hi.toNat + lo.toNat := by
  rw [← Nat.shiftLeft_add_eq_or_of_lt lo.toNat_lt, Nat.shiftLeft_eq]
  omega

theorem afterExtension_short {rest : Bytes} (h : rest.length < 4) : afterExtension rest = [] := by
  match rest with
  | [] | [_] | [_, _] | [_, _, _] => rfl
  | _ :: _ :: _ :: _ :: rest =>
      simp only [List.length_cons] at h
      omega

theorem afterExtension_long {rest : Bytes} (h : 4 ≤ rest.length) :
    afterExtension rest =
      rest.drop (4 + 4 * (256 * (rest.getD 2 0).toNat + (rest.getD 3 0).toNat)) := by
  match rest with
  | [] | [_] | [_, _] | [_, _, _] => simp at h
  | _ :: _ :: _ :: _ :: _ => rw [Nat.add_comm]; rfl

theorem getD_drop (pkt : Bytes) (i j : Nat) : (pkt.drop i).getD j 0 = pkt.getD (i + j) 0 := by
  simp [List.getD, List.getElem?_drop]

theorem rtpHeaderLength_eq (pkt : Bytes) :
    rtpHeaderLength pkt =
      if rtpFlags pkt / 16 % 2 = 0 then some (12 + 4 * (rtpFlags pkt % 16))
      else if pkt.length < 12 + 4 * (rtpFlags pkt % 16) + 4 then none
      else
        let rest := pkt.drop (12 + 4 * (rtpFlags pkt % 16))
        some (12 + 4 * (rtpFlags pkt % 16) +
          (4 + 4 * (256 * (rest.getD 2 0).toNat + (rest.getD 3 0).toNat))) := by
  simp only [rtpHeaderLength, shift_extension, and_csrcs, word_of_bytes, getD_drop, rtpFlags,
    Nat.mul_comm _ 4]

theorem rtpHeaderLength_none {pkt : Bytes} (h : rtpHeaderLength pkt = none) :
    afterHeader pkt = [] := by
  rw [rtpHeaderLength_eq] at h
  split at h
  · simp at h
  · next hext =>
      split at h
      · next hshort =>
          rw [afterHeader, if_pos (by omega), List.drop_drop]
          apply afterExtension_short
          rw [List.length_drop]
          omega
      · simp at h

theorem rtpHeaderLength_some {pkt : Bytes} {hdrLen : Nat} (h : rtpHeaderLength pkt = some hdrLen) :
    afterHeader pkt = pkt.drop hdrLen := by
  rw [rtpHeaderLength_eq] at h
  split at h
  · next hext =>
      obtain rfl := Option.some.inj h
      rw [afterHeader, if_neg (by omega), List.drop_drop]
  · next hext =>
      split at h
      · simp at h
      · next hlong =>
          obtain rfl := Option.some.inj h
          have hfour : 4 ≤ (pkt.drop (12 + 4 * (rtpFlags pkt % 16))).length := by
            rw [List.length_drop]
            omega
          rw [afterHeader, if_pos (by omega), List.drop_drop, afterExtension_long hfour,
            List.drop_drop]

theorem getLastD_drop {pkt : Bytes} {i : Nat} (h : pkt.drop i ≠ []) :
    pkt.getLastD 0 = (pkt.drop i).getD ((pkt.drop i).length - 1) 0 := by
  have hlast : pkt.getLast? = (pkt.drop i).getLast? := by
    rw [← List.getLast?_append_of_ne_nil (pkt.take i) h, List.take_append_drop]
  rw [List.getLastD_eq_getLast?, hlast, List.getLast?_eq_getElem?, List.getD_eq_getElem?_getD]

theorem rtpPayload_eq {pkt : Bytes} {hdrLen : Nat} (h : afterHeader pkt = pkt.drop hdrLen) :
    rtpPayload pkt = (pkt.drop hdrLen).take (rtpPayloadLength pkt hdrLen).toNat := by
  simp only [rtpPayload, rtpPayloadLength, h, shift_padding, ne_eq]
  rcases eq_or_ne (pkt.drop hdrLen) [] with hnil | hne
  · simp [hnil]
  · have hpos := List.length_pos_iff.mpr hne
    rw [getLastD_drop hne]
    split
    · next hpad =>
        rw [if_pos ⟨by rw [rtpFlags] at hpad; omega, hpos⟩, Int.toNat_sub]
    · next hpad =>
        rw [if_neg fun hboth => hpad (by rw [rtpFlags]; omega), Int.toNat_natCast,
          List.take_length]

theorem rtpPayloadLength_pos {pkt : Bytes} {hdrLen : Nat} :
    (pkt.drop hdrLen).take (rtpPayloadLength pkt hdrLen).toNat ≠ [] ↔
      0 < rtpPayloadLength pkt hdrLen := by
  rw [ne_eq, List.take_eq_nil_iff, not_or]
  constructor
  · rintro ⟨hlength, -⟩
    omega
  · intro hpos
    refine ⟨by omega, fun hnil => ?_⟩
    simp [rtpPayloadLength, hnil] at hpos

theorem rtpPayload_short {pkt : Bytes} (h : pkt.length < 12) : rtpPayload pkt = [] := by
  have hheader : afterHeader pkt = [] := by
    rw [afterHeader, List.drop_of_length_le h.le, List.drop_nil]
    exact ite_self _
  rw [rtpPayload, hheader, List.take_nil]
  exact ite_self _

theorem rtpPayload_nil {pkt : Bytes} (h : afterHeader pkt = []) : rtpPayload pkt = [] := by
  rw [rtpPayload, h, List.take_nil]
  exact ite_self _

def pcmuFrame (pkt : Bytes) : List Int :=
  ((rtpPayload pkt).take smSipRtpMaxpay).map smUlawDecode

theorem processRtp_invalid {s : SmSip} {pkt : Bytes} (h : ¬ ValidPcmu pkt) :
    processRtp s pkt = s := by
  simp only [processRtp, ne_eq, shift_version, and_payloadType]
  split
  · rfl
  split
  · rfl
  split
  · rfl
  split
  · rfl
  split
  · rfl
  split
  · rfl
  next hversion _ hdrLen hheader hlen hpos htype =>
    refine absurd ⟨not_not.mp hversion, not_not.mp htype, ?_⟩ h
    rw [rtpPayload_eq (rtpHeaderLength_some hheader), rtpPayloadLength_pos]
    omega

theorem processRtp_valid {s : SmSip} {pkt : Bytes} (h : ValidPcmu pkt) :
    processRtp s pkt = enqueueRx s (pcmuFrame pkt) := by
  have hpayload := h.payload
  have hlong : ¬ pkt.length < 12 := fun hshort => hpayload (rtpPayload_short hshort)
  rw [processRtp, if_neg hlong, if_neg (not_not.mpr ((shift_version _).mpr h.version))]
  split
  · next hheader => exact absurd (rtpPayload_nil (rtpHeaderLength_none hheader)) hpayload
  · next hdrLen hheader =>
      have hpos := hpayload
      rw [rtpPayload_eq (rtpHeaderLength_some hheader)] at hpos
      have hlen : ¬ pkt.length < hdrLen := fun hlt => hpos (by
        rw [List.drop_of_length_le hlt.le, List.take_nil])
      rw [rtpPayloadLength_pos] at hpos
      dsimp only
      rw [if_neg hlen, if_neg (by omega),
        if_neg (not_not.mpr ((and_payloadType _).mpr h.payloadType)), pcmuFrame,
        rtpPayload_eq (rtpHeaderLength_some hheader), List.take_take, Nat.min_comm]

-- A packet that is received changes the queue and nothing else.
theorem enqueueRx_queue (s : SmSip) (pcm : List Int) :
    ∃ (rxq : Nat → List Int) (head tail tickNs drops : Nat), enqueueRx s pcm =
      { s with
        rxq := rxq, rxqHead := head, rxqTail := tail, tickNs := tickNs, rxDrops := drops } := by
  rw [enqueueRx]
  dsimp only
  split
  · exact ⟨_, _, _, _, _, rfl⟩
  · split
    · exact ⟨_, _, _, _, _, rfl⟩
    · exact ⟨_, _, _, _, _, rfl⟩

theorem processRtp_queue (s : SmSip) (pkt : Bytes) :
    ∃ (rxq : Nat → List Int) (head tail tickNs drops : Nat), processRtp s pkt =
      { s with
        rxq := rxq, rxqHead := head, rxqTail := tail, tickNs := tickNs, rxDrops := drops } := by
  rcases Decidable.em (ValidPcmu pkt) with h | h
  · rw [processRtp_valid h]
    exact enqueueRx_queue ..
  · rw [processRtp_invalid h]
    exact ⟨_, _, _, _, _, rfl⟩

-- One frame goes into the slot at the head; a full ring gives up its oldest frame.
structure Enqueues (s : SmSip) (frame : List Int) (s' : SmSip) : Prop where
  rxq : s'.rxq = Function.update s.rxq s.rxqHead frame
  head : s'.rxqHead = (s.rxqHead + 1) % smSipRxq
  tail : s'.rxqTail =
    if (s.rxqHead + 1) % smSipRxq = s.rxqTail then (s.rxqTail + 1) % smSipRxq else s.rxqTail

theorem enqueueRx_enqueues (s : SmSip) {pcm : List Int} (hne : pcm ≠ [])
    (hlen : pcm.length ≤ smSipRtpMaxpay) : Enqueues s pcm (enqueueRx s pcm) := by
  rw [enqueueRx, List.take_of_length_le hlen]
  dsimp only
  rw [if_neg hne]
  split
  · next hfull => exact ⟨rfl, rfl, (if_pos hfull).symm⟩
  · next hroom => exact ⟨rfl, rfl, (if_neg hroom).symm⟩

theorem Enqueues.changes {s : SmSip} {frame : List Int} : ¬ Enqueues s frame s := by
  intro h
  have hhead := h.head
  rw [smSipRxq] at hhead
  omega

theorem pcmuFrame_ne_nil {pkt : Bytes} (h : ValidPcmu pkt) : pcmuFrame pkt ≠ [] := by
  rw [pcmuFrame, ne_eq, List.map_eq_nil_iff, List.take_eq_nil_iff, not_or]
  exact ⟨by decide, h.payload⟩

theorem pcmuFrame_length (pkt : Bytes) : (pcmuFrame pkt).length ≤ smSipRtpMaxpay := by
  rw [pcmuFrame, List.length_map]
  exact List.length_take_le _ _

theorem processRtp_enqueues (s : SmSip) {pkt : Bytes} (h : ValidPcmu pkt) :
    Enqueues s (pcmuFrame pkt) (processRtp s pkt) := by
  rw [processRtp_valid h]
  exact enqueueRx_enqueues s (pcmuFrame_ne_nil h) (pcmuFrame_length pkt)

theorem processRtp_enqueues_iff (s : SmSip) (pkt : Bytes) :
    (∃ frame, Enqueues s frame (processRtp s pkt)) ↔ ValidPcmu pkt := by
  constructor
  · rintro ⟨frame, h⟩
    by_contra hinvalid
    rw [processRtp_invalid hinvalid] at h
    exact h.changes
  · intro h
    exact ⟨_, processRtp_enqueues s h⟩

section Reads

-- process_rtp with every byte it takes from the packet; none is a read at or past len.
variable (pkt : Bytes)

def readHeaderLength (flags : UInt8) : Option (Option Nat) :=
  let hdrLen := 12 + (flags &&& 0x0F).toNat * 4
  if (flags >>> 4) &&& 1 = 0 then some (some hdrLen)
  else if pkt.length < hdrLen + 4 then some none
  else
    pkt[hdrLen + 2]?.bind fun hi =>
      pkt[hdrLen + 3]?.map fun lo => some (hdrLen + (4 + (hi.toNat <<< 8 ||| lo.toNat) * 4))

def readPayloadLength (flags : UInt8) (hdrLen : Nat) : Option Int :=
  let payloadLen := pkt.length - hdrLen
  if (flags >>> 5) &&& 1 ≠ 0 ∧ 0 < payloadLen then
    pkt[hdrLen + (payloadLen - 1)]?.map fun pad => (payloadLen : Int) - pad.toNat
  else some payloadLen

def readSamples (hdrLen nsamples : Nat) : Option (List Int) :=
  (List.range nsamples).mapM fun i => pkt[hdrLen + i]?.map smUlawDecode

def readRtp (s : SmSip) : Option SmSip :=
  if pkt.length < 12 then some s
  else
    pkt[0]?.bind fun (flags : UInt8) =>
      pkt[1]?.bind fun (second : UInt8) =>
        if flags >>> 6 ≠ 2 then some s
        else
          (readHeaderLength pkt flags).bind fun
            | none => some s
            | some hdrLen =>
                if pkt.length < hdrLen then some s
                else
                  (readPayloadLength pkt flags hdrLen).bind fun payloadLen =>
                    if payloadLen ≤ 0 then some s
                    else if second &&& 0x7F ≠ 0 then some s
                    else
                      (readSamples pkt hdrLen (min payloadLen.toNat smSipRtpMaxpay)).map
                        (enqueueRx s)

end Reads

theorem getElem?_getD {pkt : Bytes} {i : Nat} (h : i < pkt.length) :
    pkt[i]? = some (pkt.getD i 0) := by
  rw [List.getD_eq_getElem?_getD, List.getElem?_eq_getElem h, Option.getD_some]

theorem readHeaderLength_eq (pkt : Bytes) :
    readHeaderLength pkt (pkt.getD 0 0) = some (rtpHeaderLength pkt) := by
  simp only [readHeaderLength, rtpHeaderLength]
  split
  · rfl
  split
  · rfl
  next hlong =>
    rw [getElem?_getD (by omega), getElem?_getD (by omega), Option.bind_some, Option.map_some]

theorem readPayloadLength_eq (pkt : Bytes) (hdrLen : Nat) :
    readPayloadLength pkt (pkt.getD 0 0) hdrLen = some (rtpPayloadLength pkt hdrLen) := by
  simp only [readPayloadLength, rtpPayloadLength, List.length_drop]
  split
  · rw [getElem?_getD (by omega), Option.map_some, getD_drop]
  · rfl

theorem readSamples_eq {pkt : Bytes} {hdrLen nsamples : Nat}
    (h : hdrLen + nsamples ≤ pkt.length) :
    readSamples pkt hdrLen nsamples =
      some (((pkt.drop hdrLen).take nsamples).map smUlawDecode) := by
  induction nsamples with
  | zero => rfl
  | succ nsamples ih =>
      rw [readSamples, List.range_succ, List.mapM_append, ← readSamples, ih (by omega)]
      have hread := getElem?_getD (show hdrLen + nsamples < pkt.length by omega)
      have hlast : [nsamples].mapM (fun i => pkt[hdrLen + i]?.map smUlawDecode) =
          some [smUlawDecode (pkt.getD (hdrLen + nsamples) 0)] := by
        rw [List.mapM_cons, hread]
        rfl
      rw [hlast, List.take_add_one, List.getElem?_drop, hread, List.map_append]
      rfl

theorem rtpPayloadLength_le (pkt : Bytes) (hdrLen : Nat) :
    (rtpPayloadLength pkt hdrLen).toNat ≤ pkt.length - hdrLen := by
  simp only [rtpPayloadLength, List.length_drop]
  split
  · omega
  · omega

theorem readRtp_eq (s : SmSip) (pkt : Bytes) : readRtp pkt s = some (processRtp s pkt) := by
  rw [readRtp, processRtp]
  split
  · rfl
  next hlong =>
    rw [getElem?_getD (by omega), Option.bind_some, getElem?_getD (by omega), Option.bind_some]
    split
    · rfl
    rw [readHeaderLength_eq, Option.bind_some]
    rcases hheader : rtpHeaderLength pkt with _ | hdrLen
    · rfl
    dsimp only
    split
    · rfl
    next hin =>
      have hle := rtpPayloadLength_le pkt hdrLen
      rw [readPayloadLength_eq, Option.bind_some]
      split
      · rfl
      split
      · rfl
      rw [readSamples_eq (by omega), Option.map_some]

end Softmodem.Sip

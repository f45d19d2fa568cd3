import Softmodem.Sip.Server

namespace Softmodem.Sip

open AudioSocket CString

def smUlawDecode (u : UInt8) : Int :=
  let u := ~~~u
  let t := ((u &&& 0x0F).toNat <<< 3) + 0x84
  let t : Int := t <<< ((u &&& 0x70) >>> 4).toNat
  if u &&& 0x80 ≠ 0 then 0x84 - t else t - 0x84

def ulawExponent : Nat → Nat → Nat × Nat
  | 0, sample => (0, sample)
  | exponent + 1, sample =>
      if sample &&& 0x4000 = 0 then ulawExponent exponent (sample <<< 1) else (exponent + 1, sample)

def smUlawEncode (pcm : Int) : UInt8 :=
  let sign : Nat := if pcm < 0 then 0x80 else 0
  let (exponent, sample) := ulawExponent 7 (min pcm.natAbs 32635 + 0x84)
  let mantissa := (sample >>> 10) &&& 0x0F
  ~~~(sign ||| (exponent <<< 4) ||| mantissa).toUInt8

def tsAddMs (t : Timespec) (ms : Int) : Timespec :=
  let nsec := t.nsec + ms * 1000000
  if nsec ≥ 1000000000 then ⟨t.sec + nsec / 1000000000, nsec % 1000000000⟩ else ⟨t.sec, nsec⟩

def tsMsUntil (t now : Timespec) : Int :=
  (t.sec - now.sec) * 1000 + (t.nsec - now.nsec).tdiv 1000000

def enqueueRx (s : SmSip) (pcm : List Int) : SmSip :=
  let pcm := pcm.take smSipRtpMaxpay
  if pcm = [] then s
  else
    let next := (s.rxqHead + 1) % smSipRxq
    let s := { s with tickNs := pcm.length }
    let s :=
      if next = s.rxqTail then
        { s with rxqTail := (s.rxqTail + 1) % smSipRxq, rxDrops := s.rxDrops + 1 }
      else s
    { s with rxq := Function.update s.rxq s.rxqHead pcm, rxqHead := next }

def pcmSample (buf : Bytes) (j : Nat) : Int :=
  Int.bmod ((buf.getD (2 * j) 0).toNat + 256 * (buf.getD (2 * j + 1) 0).toNat : Nat) (2 ^ 16)

def rtpHeader (s : SmSip) : Bytes :=
  [0x80, 0, (s.rtpSeq >>> 8).toUInt8, s.rtpSeq.toUInt8, (s.rtpTs >>> 24).toUInt8,
    (s.rtpTs >>> 16).toUInt8, (s.rtpTs >>> 8).toUInt8, s.rtpTs.toUInt8,
    (s.localSsrc >>> 24).toUInt8, (s.localSsrc >>> 16).toUInt8, (s.localSsrc >>> 8).toUInt8,
    s.localSsrc.toUInt8]

def sendRtp (s : SmSip) (buf : Bytes) (plen : Nat) : SmSip × List Action :=
  let outLen := min (plen / 2) smSipRtpMaxpay
  let ulawOut := (List.range outLen).map fun j => smUlawEncode (pcmSample buf j)
  ({ s with rtpSeq := s.rtpSeq + 1, rtpTs := s.rtpTs + outLen.toUInt32 },
    [.rtp s.rtpPeer (rtpHeader s ++ ulawOut)])

def readDaemon (s : SmSip) : SmAstRead × SmSip :=
  let (r, as, daemon) := smAstRead s.daemonAs s.daemon smAsMaxPayload
  (r, { s with daemonAs := as, daemon := daemon })

def daemonReplies (e : Env) : Nat → SmSip → SmSip × List Action
  | 0, s => (s, [])
  | left + 1, s =>
      match readDaemon s with
      | (.interrupted .timeout, s) => (s, [])
      | (.interrupted .fail, s) => hangUp s e
      | (.message kind payload plen, s) =>
          if kind = smAsKindAudio ∧ plen ≥ 2 then sendRtp s payload plen
          else if kind = smAsKindHangup then hangUp s e
          else daemonReplies e left s

def pcmBytes (pcm : List Int) : Bytes :=
  pcm.flatMap fun x => [(x % 256).toNat.toUInt8, (x / 256 % 256).toNat.toUInt8]

-- Every message but the first takes at least one receive event.
def feedDaemon (s : SmSip) (pcm : List Int) (e : Env) : SmSip × List Action :=
  let frame := writeCall smAsKindAudio (pcmBytes pcm) e.frameSent
  let s := { s with written := s.written ++ [frame] }
  if frame.code < 0 then hangUp s e else daemonReplies e (s.daemon.events.length + 2) s

def audioTick (s : SmSip) (e : Env) : SmSip × List Action :=
  if s.rxqHead ≠ s.rxqTail then
    feedDaemon { s with rxqTail := (s.rxqTail + 1) % smSipRxq } (s.rxq s.rxqTail) e
  else feedDaemon { s with rxUnderruns := s.rxUnderruns + 1 } (List.replicate s.tickNs 0) e

def rtpHeaderLength (pkt : Bytes) : Option Nat :=
  let hdrLen := 12 + (pkt.getD 0 0 &&& 0x0F).toNat * 4
  if (pkt.getD 0 0 >>> 4) &&& 1 = 0 then some hdrLen
  else if pkt.length < hdrLen + 4 then none
  else
    let words := (pkt.getD (hdrLen + 2) 0).toNat <<< 8 ||| (pkt.getD (hdrLen + 3) 0).toNat
    some (hdrLen + (4 + words * 4))

def rtpPayloadLength (pkt : Bytes) (hdrLen : Nat) : Int :=
  let payload := pkt.drop hdrLen
  if (pkt.getD 0 0 >>> 5) &&& 1 ≠ 0 ∧ 0 < payload.length then
    (payload.length : Int) - (payload.getD (payload.length - 1) 0).toNat
  else payload.length

def processRtp (s : SmSip) (pkt : Bytes) : SmSip :=
  if pkt.length < 12 then s
  else if pkt.getD 0 0 >>> 6 ≠ 2 then s
  else
    match rtpHeaderLength pkt with
    | none => s
    | some hdrLen =>
        let payloadLen := rtpPayloadLength pkt hdrLen
        if pkt.length < hdrLen then s
        else if payloadLen ≤ 0 then s
        else if pkt.getD 1 0 &&& 0x7F ≠ 0 then s
        else
          let nsamples := min payloadLen.toNat smSipRtpMaxpay
          enqueueRx s (((pkt.drop hdrLen).take nsamples).map smUlawDecode)

end Softmodem.Sip

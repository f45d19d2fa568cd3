import Softmodem.Lib.CString

namespace Softmodem.Sip

open CString

def smSipMaxMsg : Nat := 4096

def smSipMaxVias : Nat := 4

structure SipMsg where
  isResponse : Bool
  status : Int
  method : Bytes
  uri : Bytes
  via : List Bytes
  fromHdr : Bytes
  toHdr : Bytes
  callId : Bytes
  cseq : Bytes
  cseqNum : Int
  cseqMethod : Bytes
  contact : Bytes
  contentType : Bytes
  userAgent : Bytes
  contentLength : Int
  body : Bytes
  fromTag : Bytes
  toTag : Bytes
  deriving DecidableEq, Repr

def sipMsgZero : SipMsg :=
  { isResponse := false, status := 0, method := [], uri := [], via := [], fromHdr := []
    toHdr := [], callId := [], cseq := [], cseqNum := 0, cseqMethod := [], contact := []
    contentType := [], userAgent := [], contentLength := 0, body := [], fromTag := []
    toTag := [] }

structure Datagram where
  buf : Bytes
  len : Nat
  line : Bytes
  deriving DecidableEq, Repr

def Datagram.bytes (d : Datagram) : Bytes := d.buf.take d.len

def findEol (mem : Bytes) (s e : Nat) : Nat := s + ((mem.drop s).take (e - s)).findIdx (· = 10)

def isBlank (c : UInt8) : Bool := c = 32 || c = 9

-- A value whose line ends before it starts gives memcpy a length that has wrapped round.
def copyLineValue (mem : Bytes) (start e outlen : Nat) : Bytes :=
  if e < start then cstr ((mem.drop start).take (outlen - 1))
  else
    let value := ((mem.drop start).take (e - start)).reverse.dropWhile fun c =>
      c = 13 || isBlank c
    cstr ((value.reverse.dropWhile isBlank).take (outlen - 1))

def tagEnds (c : UInt8) : Bool := c = 59 || c = 32 || c = 13 || c = 10

def extractTag (hdr : Bytes) : Bytes :=
  match strstr (ascii "tag=") hdr with
  | none => []
  | some p => ((p.drop 4).takeWhile fun c => !tagEnds c).take 63

def bodyOffset : Bytes → Option Nat
  | 13 :: 10 :: 13 :: 10 :: _ => some 4
  | 10 :: 10 :: _ => some 2
  | _ :: rest => (bodyOffset rest).map (· + 1)
  | [] => none

def parseFirstLine (d : Datagram) (eol : Nat) (m : SipMsg) : SipMsg :=
  let n := min eol 511
  let line := d.buf.take n ++ 0 :: d.line.drop (n + 1)
  if strncmp line (ascii "SIP/2.0") then { m with isResponse := true, status := atoi (line.drop 8) }
  else
    match splitAt 32 (cstr line) with
    | none => m
    | some (method, rest) =>
        { m with method := method.take 15, uri := (rest.takeWhile (· ≠ 32)).take 255 }

def valueStart (mem : Bytes) (s : Nat) (names : List Bytes) : Option Nat :=
  (names.find? fun name => strncasecmp (mem.drop s) name).map fun name => s + name.length

def addVia (m : SipMsg) (value : Bytes) : SipMsg :=
  if m.via.length < smSipMaxVias then { m with via := m.via ++ [value] } else m

def setFrom (m : SipMsg) (value : Bytes) : SipMsg :=
  { m with fromHdr := value, fromTag := extractTag value }

def setTo (m : SipMsg) (value : Bytes) : SipMsg :=
  { m with toHdr := value, toTag := extractTag value }

def setCseq (m : SipMsg) (value : Bytes) : SipMsg :=
  { m with
    cseq := value
    cseqNum := atoi value
    cseqMethod :=
      match splitAt 32 value with
      | none => m.cseqMethod
      | some (_, method) => method.take 15 }

structure HeaderField where
  names : List Bytes
  size : Nat
  set : SipMsg → Bytes → SipMsg

def headerFields : List HeaderField :=
  [ ⟨[ascii "Via:", ascii "v:"], 320, addVia⟩,
    ⟨[ascii "From:", ascii "f:"], 320, setFrom⟩,
    ⟨[ascii "To:", ascii "t:"], 320, setTo⟩,
    ⟨[ascii "Call-ID:", ascii "i:"], 256, fun m value => { m with callId := value }⟩,
    ⟨[ascii "CSeq:"], 64, setCseq⟩,
    ⟨[ascii "Contact:", ascii "m:"], 320, fun m value => { m with contact := value }⟩,
    ⟨[ascii "Content-Type:"], 64, fun m value => { m with contentType := value }⟩,
    ⟨[ascii "User-Agent:"], 128, fun m value => { m with userAgent := value }⟩ ]

def parseField (mem : Bytes) (s eol : Nat) (m : SipMsg) : List HeaderField → SipMsg
  | [] =>
      match valueStart mem s [ascii "Content-Length:"] with
      | none => m
      | some v => { m with contentLength := atoi (mem.drop v) }
  | field :: fields =>
      match valueStart mem s field.names with
      | none => parseField mem s eol m fields
      | some v => field.set m (copyLineValue mem v eol field.size)

def parseHeaders (mem : Bytes) (body : Nat) : Nat → Nat → SipMsg → SipMsg
  | 0, _, m => m
  | left + 1, s, m =>
      if s < body then
        let eol := findEol mem s body
        if s = eol ∨ mem.getD s 0 = 13 ∧ eol - s = 1 then parseHeaders mem body left (eol + 1) m
        else parseHeaders mem body left (eol + 1) (parseField mem s eol m headerFields)
      else m

def parseBody (d : Datagram) (body : Nat) (m : SipMsg) : SipMsg :=
  if body < d.len then
    let blen := d.len - body
    let blen :=
      if m.contentLength > 0 ∧ m.contentLength < blen then m.contentLength.toNat else blen
    { m with body := (d.buf.drop body).take (min blen smSipMaxMsg) }
  else m

def parseSip (d : Datagram) : SipMsg :=
  let body := (bodyOffset d.bytes).getD d.len
  let eol := findEol d.buf 0 body
  let m := parseFirstLine d eol sipMsgZero
  let s := if eol < body then eol + 1 else body
  parseBody d body (parseHeaders d.buf body (body - s) s m)

structure Sdp where
  ip : Bytes
  port : Int
  pt : Int
  deriving DecidableEq, Repr

def sdpPayloadType (mem : Bytes) (q eol : Nat) : Option Int :=
  match strstr (ascii "RTP/AVP") (cstr (mem.drop q)) with
  | none => none
  | some found =>
      let r := q + ((cstr (mem.drop q)).length - found.length) + 7
      let blanks := (((mem.drop r).take (eol - r)).takeWhile isBlank).length
      some (atoi (mem.drop (r + blanks)))

def sdpLine (mem : Bytes) (s eol : Nat) (sdp : Sdp) : Sdp :=
  if strncmp (mem.drop s) (ascii "c=IN IP4 ") then
    { sdp with ip := copyLineValue mem (s + 9) eol 64 }
  else if strncmp (mem.drop s) (ascii "m=audio ") then
    { sdp with
      port := atoi (mem.drop (s + 8))
      pt := (sdpPayloadType mem (s + 8) eol).getD sdp.pt }
  else sdp

def sdpLines (mem : Bytes) (e : Nat) : Nat → Nat → Sdp → Sdp
  | 0, _, sdp => sdp
  | left + 1, s, sdp =>
      if s < e then
        let eol := findEol mem s e
        sdpLines mem e left (if eol < e then eol + 1 else e) (sdpLine mem s eol sdp)
      else sdp

-- Behind the body the message still holds the zeros parse_sip started from.
def extractSdp (m : SipMsg) : Sdp :=
  let mem := m.body ++ List.replicate (smSipMaxMsg - m.body.length) 0
  sdpLines mem m.body.length m.body.length 0 ⟨[], 0, 0⟩

structure Response where
  status : Nat
  reason : Bytes
  via : List Bytes
  fromHdr : Bytes
  toHdr : Bytes
  callId : Bytes
  cseq : Bytes
  extra : Bytes
  body : Bytes
  deriving DecidableEq, Repr

def crlf : Bytes := [13, 10]

def headerLine (name : String) (value : Bytes) : Bytes := ascii name ++ value ++ crlf

def Response.render (r : Response) : Bytes :=
  ascii "SIP/2.0 " ++ decimal r.status ++ ascii " " ++ r.reason ++ crlf ++
    r.via.flatMap (headerLine "Via: ") ++
    headerLine "From: " r.fromHdr ++
    headerLine "To: " r.toHdr ++
    headerLine "Call-ID: " r.callId ++
    headerLine "CSeq: " r.cseq ++
    r.extra ++
    headerLine "Server: " (ascii "SoftmodemSIP/1.0") ++
    (if r.body ≠ [] then headerLine "Content-Type: " (ascii "application/sdp") else []) ++
    headerLine "Content-Length: " (decimal r.body.length) ++ crlf ++ r.body

def makeTag (rand time : UInt32) : Bytes := hex8 rand ++ hex8 time

def buildResponse (m : SipMsg) (status : Nat) (reason : String) (extra body tag : Bytes) :
    Response :=
  { status := status
    reason := ascii reason
    via := m.via
    fromHdr := m.fromHdr
    toHdr := if m.toTag ≠ [] then m.toHdr else m.toHdr ++ ascii ";tag=" ++ tag
    callId := m.callId
    cseq := m.cseq
    extra := extra
    body := body }

structure Bye where
  advertiseIp : Bytes
  bindPort : Nat
  ssrc : UInt32
  tag : Bytes
  toHdr : Bytes
  callId : Bytes
  cseq : Int
  deriving DecidableEq, Repr

def Bye.render (b : Bye) : Bytes :=
  ascii "BYE sip:modem@" ++ b.advertiseIp ++ ascii " SIP/2.0" ++ crlf ++
    ascii "Via: SIP/2.0/UDP " ++ b.advertiseIp ++ ascii ":" ++ decimal b.bindPort ++
    ascii ";branch=z9hG4bK" ++ hex8 b.ssrc ++ crlf ++
    ascii "From: <sip:modem@" ++ b.advertiseIp ++ ascii ">;tag=" ++ b.tag ++ crlf ++
    headerLine "To: " b.toHdr ++
    headerLine "Call-ID: " b.callId ++
    ascii "CSeq: " ++ decimal b.cseq ++ ascii " BYE" ++ crlf ++
    headerLine "Max-Forwards: " (ascii "70") ++
    headerLine "Content-Length: " (ascii "0") ++ crlf

end Softmodem.Sip

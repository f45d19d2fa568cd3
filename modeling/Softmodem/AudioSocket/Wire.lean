import Softmodem.AudioSocket.Socket

namespace Softmodem.AudioSocket

structure Message where
  kind : UInt8
  payload : List UInt8
  deriving DecidableEq, Repr

def Message.wire (m : Message) : List UInt8 := smAstHeader m.kind m.payload.length ++ m.payload

def encode (ms : List Message) : List UInt8 := ms.flatMap Message.wire

def Message.view (bufLen : Nat) (m : Message) : SmAstRead :=
  .message m.kind (m.payload.take bufLen) m.payload.length

@[simp] theorem encode_nil : encode [] = [] := rfl

@[simp] theorem encode_cons (m : Message) (ms : List Message) :
    encode (m :: ms) = smAstHeader m.kind m.payload.length ++ (m.payload ++ encode ms) := by
  simp [encode, Message.wire]

@[simp] theorem smAstHeader_length (kind : UInt8) (len : Nat) :
    (smAstHeader kind len).length = 3 := rfl

theorem header_decodes {len : Nat} (h : len ≤ 0xFFFF) :
    (len >>> 8 &&& 0xFF).toUInt8.toNat <<< 8 ||| (len &&& 0xFF).toUInt8.toNat = len := by
  have hand (x : Nat) : x &&& 0xFF = x % 2 ^ 8 := Nat.and_two_pow_sub_one_eq_mod x 8
  have hlow : (len &&& 0xFF).toUInt8.toNat = len % 2 ^ 8 := by
    simp [hand]
  have hhigh : (len >>> 8 &&& 0xFF).toUInt8.toNat = len / 2 ^ 8 := by
    simp only [hand, Nat.shiftRight_eq_div_pow, Nat.toUInt8_eq, UInt8.toNat_ofNat']
    omega
  rw [hlow, hhigh, Nat.shiftLeft_eq, Nat.mul_comm,
    ← Nat.two_pow_add_eq_or_of_lt (Nat.mod_lt _ (Nat.two_pow_pos 8))]
  exact Nat.div_add_mod len (2 ^ 8)

section Writer

theorem sendAll_ok {events : List SendEvent} {bytes : List UInt8}
    (h : (sendAll events bytes).2.1 = 0) : (sendAll events bytes).1 = bytes := by
  induction events generalizing bytes with
  | nil =>
      by_cases hb : bytes = []
      · simp [sendAll, hb]
      · simp [sendAll, hb] at h
  | cons e events ih =>
      by_cases hb : bytes = []
      · simp [sendAll, hb]
      · cases e with
        | fail => simp [sendAll, hb] at h
        | retry =>
            simp only [sendAll, if_neg hb] at h ⊢
            exact ih h
        | sent n =>
            simp only [sendAll, if_neg hb] at h ⊢
            rw [ih h, List.take_append_drop]

theorem sendAll_code (events : List SendEvent) (bytes : List UInt8) :
    (sendAll events bytes).2.1 = 0 ∨ (sendAll events bytes).2.1 = -1 := by
  induction events generalizing bytes with
  | nil => simp only [sendAll]; split <;> simp
  | cons e events ih =>
      simp only [sendAll]
      split
      · exact Or.inl rfl
      · cases e with
        | fail => exact Or.inr rfl
        | retry => exact ih bytes
        | sent n => exact ih (bytes.drop n)

theorem smAstWrite_ok {kind : UInt8} {payload : List UInt8} {events : List SendEvent}
    (h : (smAstWrite kind payload events).2.1 = 0) :
    payload.length ≤ 0xFFFF ∧
      (smAstWrite kind payload events).1 = Message.wire ⟨kind, payload⟩ := by
  by_cases hlen : payload.length > 0xFFFF
  · simp [smAstWrite, hlen] at h
  · refine ⟨not_lt.mp hlen, ?_⟩
    rcases sendAll_code events (smAstHeader kind payload.length) with hhead | hhead
    · have hheader := sendAll_ok hhead
      by_cases hzero : payload.length > 0
      · rcases sendAll_code (sendAll events (smAstHeader kind payload.length)).2.2 payload
          with hbody | hbody
        · simp [smAstWrite, hlen, hhead, hzero, hbody, hheader, sendAll_ok hbody, Message.wire]
        · simp [smAstWrite, hlen, hhead, hzero, hbody] at h
      · have hnil : payload = [] := List.eq_nil_of_length_eq_zero (by omega)
        subst hnil
        have hhead' : (sendAll events (smAstHeader kind 0)).2.1 = 0 := hhead
        simpa [smAstWrite, hhead', Message.wire] using hheader
    · simp [smAstWrite, hlen, hhead] at h

def writeMessages : List Message → List SendEvent → List UInt8 × Int
  | [], _ => ([], 0)
  | m :: ms, events =>
      let (sent, code, events) := smAstWrite m.kind m.payload events
      if code < 0 then (sent, -1)
      else
        let (rest, code) := writeMessages ms events
        (sent ++ rest, code)

theorem smAstWrite_code (kind : UInt8) (payload : List UInt8) (events : List SendEvent) :
    (smAstWrite kind payload events).2.1 = 0 ∨ (smAstWrite kind payload events).2.1 = -1 := by
  simp only [smAstWrite]
  split
  · exact Or.inr rfl
  · split
    · exact Or.inr rfl
    · split
      · split
        · exact Or.inr rfl
        · exact Or.inl rfl
      · exact Or.inl rfl

theorem writeMessages_ok {ms : List Message} {events : List SendEvent}
    (h : (writeMessages ms events).2 = 0) :
    (∀ m ∈ ms, m.payload.length ≤ 0xFFFF) ∧ (writeMessages ms events).1 = encode ms := by
  induction ms generalizing events with
  | nil => simp [writeMessages]
  | cons m ms ih =>
      rcases smAstWrite_code m.kind m.payload events with hcode | hcode
      · have hrest : (writeMessages ms (smAstWrite m.kind m.payload events).2.2).2 = 0 := by
          simpa [writeMessages, hcode] using h
        obtain ⟨hlen, hwire⟩ := smAstWrite_ok hcode
        obtain ⟨hlens, hwires⟩ := ih hrest
        refine ⟨by simpa using ⟨hlen, hlens⟩, ?_⟩
        simp [writeMessages, hcode, hwire, hwires, Message.wire]
      · simp [writeMessages, hcode] at h

end Writer

section Reader

def RecvEvent.isData : RecvEvent → Bool
  | .data _ => true
  | _ => false

def Peer.Supplied (p : Peer) : Prop := p.stream.length ≤ p.events.countP RecvEvent.isData

structure Leads (p p' : Peer) : Prop where
  shorter : p'.events.length ≤ p.events.length
  events : ∀ e ∈ p'.events, e ∈ p.events
  supplied : p.Supplied → p'.Supplied

theorem leads_refl (p : Peer) : Leads p p := ⟨le_refl _, fun _ h => h, id⟩

theorem Leads.trans {p q r : Peer} (h : Leads p q) (h' : Leads q r) : Leads p r :=
  ⟨h'.shorter.trans h.shorter, fun e he => h.events e (h'.events e he),
    fun hs => h'.supplied (h.supplied hs)⟩

theorem recvEvents_leads (stream : List UInt8) {want : Nat} (hwant : 0 < want)
    (events : List RecvEvent) :
    Leads ⟨stream, events⟩ (recvEvents stream want events).2 ∧
      (recvEvents stream want events).2.events.length ≤ events.length - 1 := by
  induction events with
  | nil => exact ⟨leads_refl _, Nat.zero_le _⟩
  | cons e events ih =>
      cases e with
      | data n =>
          simp only [recvEvents]
          split
          · rename_i hnil
            have hstream : stream = [] := by
              rcases List.take_eq_nil_iff.mp hnil with hk | hs
              · omega
              · exact hs
            refine ⟨⟨by simp, fun e he => List.mem_cons_of_mem _ he, ?_⟩, by simp⟩
            intro _
            simp [Peer.Supplied, hstream]
          · refine ⟨⟨by simp, fun e he => List.mem_cons_of_mem _ he, ?_⟩, by simp⟩
            intro hs
            simp only [Peer.Supplied, List.countP_cons, RecvEvent.isData, if_true,
              List.length_drop] at hs ⊢
            omega
      | retry =>
          refine ⟨⟨?_, fun e he => List.mem_cons_of_mem _ (ih.1.events e he), ?_⟩, ?_⟩
          · exact ih.1.shorter.trans (by simp)
          · intro hs
            exact ih.1.supplied (by simpa [Peer.Supplied, RecvEvent.isData] using hs)
          · exact ih.2.trans (by simp)
      | timeout =>
          refine ⟨⟨by simp [recvEvents], fun e he => List.mem_cons_of_mem _ he, ?_⟩, by simp [recvEvents]⟩
          intro hs
          simpa [recvEvents, Peer.Supplied, RecvEvent.isData] using hs
      | fail =>
          refine ⟨⟨by simp [recvEvents], fun e he => List.mem_cons_of_mem _ he, ?_⟩, by simp [recvEvents]⟩
          intro hs
          simpa [recvEvents, Peer.Supplied, RecvEvent.isData] using hs

theorem recvInto_cases (p : Peer) (want : Nat) :
    (∃ bytes p', recvInto p want = (.data bytes, p') ∧ bytes ≠ [] ∧ bytes.length ≤ want ∧
        p.stream = bytes ++ p'.stream) ∨
    (∃ p', recvInto p want = (.timeout, p') ∧ p'.stream = p.stream) ∨
    (∃ p', recvInto p want = (.fail, p') ∧ .fail ∈ p.events) := by
  obtain ⟨stream, events⟩ := p
  simp only [recvInto]
  induction events with
  | nil => exact Or.inr (Or.inl ⟨_, rfl, rfl⟩)
  | cons e events ih =>
      cases e with
      | data n =>
          simp only [recvEvents]
          split
          · exact Or.inr (Or.inl ⟨_, rfl, rfl⟩)
          · rename_i hne
            refine Or.inl ⟨_, _, rfl, hne, ?_, (List.take_append_drop _ _).symm⟩
            rw [List.length_take]
            omega
      | retry =>
          simp only [recvEvents, List.mem_cons]
          rcases ih with h | h | ⟨p', h, hf⟩
          · exact Or.inl h
          · exact Or.inr (Or.inl h)
          · exact Or.inr (Or.inr ⟨p', h, Or.inr hf⟩)
      | timeout => exact Or.inr (Or.inl ⟨_, rfl, rfl⟩)
      | fail => exact Or.inr (Or.inr ⟨_, rfl, List.mem_cons_self ..⟩)

theorem recvInto_leads (p : Peer) (want : Nat) (hwant : 0 < want) :
    Leads p (recvInto p want).2 := (recvEvents_leads p.stream hwant p.events).1

theorem recvInto_shorter (p : Peer) (want : Nat) (hwant : 0 < want) :
    (recvInto p want).2.events.length ≤ p.events.length - 1 :=
  (recvEvents_leads p.stream hwant p.events).2

structure HeaderInv (s : SmAstSocket) (stream all : List UInt8) : Prop where
  pending : s.rxPending = false
  bound : s.rxhdr ≤ 3
  bytes : Buffer.first s.rxhead s.rxhdr ++ stream = all

structure PayloadInv (m : Message) (s : SmAstSocket) (stream rest : List UInt8) : Prop where
  pending : s.rxPending = true
  kind : s.rxKind = m.kind
  expected : s.rxExpected = m.payload.length
  bytes : ∃ done remaining, m.payload = done ++ remaining ∧ stream = remaining ++ rest ∧
    s.rxlen = done.length ∧ Buffer.first s.rxbuf s.rxlen = done.take smAsMaxPayload

theorem headerInv_data {s : SmAstSocket} {stream all bytes : List UInt8}
    (h : HeaderInv s (bytes ++ stream) all) (hlen : bytes.length ≤ 3 - s.rxhdr) :
    HeaderInv { s with
      rxhead := Buffer.blit s.rxhead s.rxhdr bytes, rxhdr := s.rxhdr + bytes.length }
      stream all := by
  have hbound := h.bound
  refine ⟨h.pending, by simp only; omega, ?_⟩
  simp only
  rw [Buffer.first_blit _ _ _ (by omega), List.append_assoc]
  exact h.bytes

theorem append_split {α : Type*} {xs ys zs ws : List α} (h : xs ++ ys = zs ++ ws)
    (hlen : xs.length ≤ zs.length) : ∃ left, zs = xs ++ left ∧ ys = left ++ ws := by
  rcases List.append_eq_append_iff.mp h with ⟨left, hz, hy⟩ | ⟨left, hx, hw⟩
  · exact ⟨left, hz, hy⟩
  · have hnil : left = [] := by
      have := congrArg List.length hx
      rw [List.length_append] at this
      exact List.eq_nil_of_length_eq_zero (by omega)
    subst hnil
    exact ⟨[], by simpa using hx.symm, by simpa using hw.symm⟩

theorem payloadInv_buffered {m : Message} {s : SmAstSocket} {stream rest bytes : List UInt8}
    (h : PayloadInv m s (bytes ++ stream) rest)
    (hlen : bytes.length ≤ min (s.rxExpected - s.rxlen) (smAsMaxPayload - s.rxlen))
    (hroom : s.rxlen < smAsMaxPayload) :
    PayloadInv m { s with
      rxbuf := Buffer.blit s.rxbuf s.rxlen bytes, rxlen := s.rxlen + bytes.length }
      stream rest := by
  obtain ⟨hpending, hkind, hexpected, done, remaining, hpayload, hstream, hrxlen, hfirst⟩ := h
  have htotal : m.payload.length = done.length + remaining.length := by
    rw [hpayload, List.length_append]
  obtain ⟨left, rfl, rfl⟩ := append_split hstream (by omega)
  refine ⟨hpending, hkind, hexpected, done ++ bytes, left, by simpa using hpayload, rfl, ?_, ?_⟩
  · simp [hrxlen]
  · simp only
    rw [Buffer.first_blit _ _ _ (by omega), hfirst, List.take_of_length_le (by omega),
      List.take_of_length_le]
    rw [List.length_append]
    omega

theorem payloadInv_drained {m : Message} {s : SmAstSocket} {stream rest bytes : List UInt8}
    (h : PayloadInv m s (bytes ++ stream) rest) (hlen : bytes.length ≤ s.rxExpected - s.rxlen)
    (hfull : smAsMaxPayload ≤ s.rxlen) :
    PayloadInv m { s with rxlen := s.rxlen + bytes.length } stream rest := by
  obtain ⟨hpending, hkind, hexpected, done, remaining, hpayload, hstream, hrxlen, hfirst⟩ := h
  have htotal : m.payload.length = done.length + remaining.length := by
    rw [hpayload, List.length_append]
  obtain ⟨left, rfl, rfl⟩ := append_split hstream (by omega)
  refine ⟨hpending, hkind, hexpected, done ++ bytes, left, by simpa using hpayload, rfl, ?_, ?_⟩
  · simp [hrxlen]
  · rw [List.take_append_of_le_length (by omega), ← hfirst, Buffer.first_of_le _ hfull]
    exact Buffer.first_of_le _ (Nat.le_add_right_of_le hfull)

def LoopSpec (Inv : SmAstSocket → List UInt8 → Prop) (full : SmAstSocket → Prop) (p : Peer) :
    Option Interrupt × SmAstSocket × Peer → Prop
  | (none, s', p') => Inv s' p'.stream ∧ full s' ∧ Leads p p'
  | (some .timeout, s', p') => Inv s' p'.stream ∧ ¬ full s' ∧ Leads p p'
  | (some .fail, _, _) => .fail ∈ p.events

theorem loopSpec_of_leads {Inv : SmAstSocket → List UInt8 → Prop} {full : SmAstSocket → Prop}
    {p q : Peer} (hpq : Leads p q) {r : Option Interrupt × SmAstSocket × Peer}
    (h : LoopSpec Inv full q r) : LoopSpec Inv full p r := by
  rcases r with ⟨_ | why, s', p'⟩
  · exact ⟨h.1, h.2.1, hpq.trans h.2.2⟩
  · cases why with
    | timeout => exact ⟨h.1, h.2.1, hpq.trans h.2.2⟩
    | fail => exact hpq.events _ h

theorem headerLoop_spec (all : List UInt8) {fuel : Nat} {s : SmAstSocket} {p : Peer}
    (hfuel : 3 - s.rxhdr ≤ fuel) (h : HeaderInv s p.stream all) :
    LoopSpec (fun s stream => HeaderInv s stream all) (fun s => s.rxhdr = 3) p
      (headerLoop fuel s p) := by
  induction fuel generalizing s p with
  | zero =>
      have hbound := h.bound
      exact ⟨h, by omega, leads_refl p⟩
  | succ fuel ih =>
      by_cases hlt : s.rxhdr < 3
      · have hleads := recvInto_leads p (3 - s.rxhdr) (by omega)
        rcases recvInto_cases p (3 - s.rxhdr) with
          ⟨bytes, p', hrecv, hne, hlen, hstream⟩ | ⟨p', hrecv, hstream⟩ | ⟨p', hrecv, hfail⟩
        · simp only [headerLoop, if_pos hlt, hrecv]
          rw [hrecv] at hleads
          rw [hstream] at h
          have hpos := List.length_pos_iff.mpr hne
          exact loopSpec_of_leads hleads (ih (by simp only; omega) (headerInv_data h hlen))
        · simp only [headerLoop, if_pos hlt, hrecv]
          rw [hrecv] at hleads
          exact ⟨hstream ▸ h, by omega, hleads⟩
        · simp only [headerLoop, if_pos hlt, hrecv]
          exact hfail
      · simp only [headerLoop, if_neg hlt]
        have hbound := h.bound
        exact ⟨h, by omega, leads_refl p⟩

theorem payloadLoop_spec (m : Message) (rest : List UInt8) {fuel : Nat} {s : SmAstSocket}
    {p : Peer} (hfuel : s.rxExpected - s.rxlen ≤ fuel) (h : PayloadInv m s p.stream rest) :
    LoopSpec (fun s stream => PayloadInv m s stream rest) (fun s => s.rxExpected ≤ s.rxlen) p
      (payloadLoop fuel s p) := by
  induction fuel generalizing s p with
  | zero => exact ⟨h, by omega, leads_refl p⟩
  | succ fuel ih =>
      by_cases hlt : s.rxlen < s.rxExpected
      · by_cases hroom : s.rxlen < smAsMaxPayload
        · have hleads := recvInto_leads p
            (min (s.rxExpected - s.rxlen) (smAsMaxPayload - s.rxlen)) (by omega)
          rcases recvInto_cases p (min (s.rxExpected - s.rxlen) (smAsMaxPayload - s.rxlen)) with
            ⟨bytes, p', hrecv, hne, hlen, hstream⟩ | ⟨p', hrecv, hstream⟩ | ⟨p', hrecv, hfail⟩
          · simp only [payloadLoop, if_pos hlt, if_pos hroom, hrecv]
            rw [hrecv] at hleads
            rw [hstream] at h
            have hpos := List.length_pos_iff.mpr hne
            exact loopSpec_of_leads hleads
              (ih (by simp only; omega) (payloadInv_buffered h hlen hroom))
          · simp only [payloadLoop, if_pos hlt, if_pos hroom, hrecv]
            rw [hrecv] at hleads
            exact ⟨hstream ▸ h, by omega, hleads⟩
          · simp only [payloadLoop, if_pos hlt, if_pos hroom, hrecv]
            exact hfail
        · have hleads := recvInto_leads p (min (s.rxExpected - s.rxlen) 256) (by omega)
          rcases recvInto_cases p (min (s.rxExpected - s.rxlen) 256) with
            ⟨bytes, p', hrecv, hne, hlen, hstream⟩ | ⟨p', hrecv, hstream⟩ | ⟨p', hrecv, hfail⟩
          · simp only [payloadLoop, if_pos hlt, if_neg hroom, hrecv]
            rw [hrecv] at hleads
            rw [hstream] at h
            have hpos := List.length_pos_iff.mpr hne
            exact loopSpec_of_leads hleads
              (ih (by simp only; omega) (payloadInv_drained h (by omega) (not_lt.mp hroom)))
          · simp only [payloadLoop, if_pos hlt, if_neg hroom, hrecv]
            rw [hrecv] at hleads
            exact ⟨hstream ▸ h, by omega, hleads⟩
          · simp only [payloadLoop, if_pos hlt, if_neg hroom, hrecv]
            exact hfail
      · simp only [payloadLoop, if_neg hlt]
        exact ⟨h, by omega, leads_refl p⟩

inductive ReaderInv (s : SmAstSocket) (stream : List UInt8) : List Message → Prop
  | header {ms} (h : HeaderInv s stream (encode ms)) (hhdr : s.rxhdr ≠ 3) : ReaderInv s stream ms
  | payload {m ms} (h : PayloadInv m s stream (encode ms)) (hrx : s.rxlen < s.rxExpected) :
      ReaderInv s stream (m :: ms)

theorem readerInv_init (ms : List Message) : ReaderInv smAstInit (encode ms) ms :=
  .header ⟨rfl, by decide, rfl⟩ (by decide)

theorem openMessage_inv {s : SmAstSocket} {stream : List UInt8} {m : Message} {ms : List Message}
    (hm : m.payload.length ≤ 0xFFFF) (h : HeaderInv s stream (encode (m :: ms)))
    (hfull : s.rxhdr = 3) : PayloadInv m (openMessage s) stream (encode ms) := by
  have hbytes := h.bytes
  rw [hfull, encode_cons] at hbytes
  obtain ⟨hhead, hstream⟩ := List.append_inj hbytes (by simp)
  have hthree : Buffer.first s.rxhead 3 = [s.rxhead 0, s.rxhead 1, s.rxhead 2] := rfl
  rw [hthree, smAstHeader] at hhead
  injection hhead with hkind hhead
  injection hhead with hhigh hhead
  injection hhead with hlow
  refine ⟨rfl, hkind, ?_, [], m.payload, rfl, hstream, rfl, rfl⟩
  rw [openMessage, hhigh, hlow]
  exact header_decodes hm

theorem closeMessage_inv {s : SmAstSocket} {stream : List UInt8} {m : Message}
    {ms : List Message} (h : PayloadInv m s stream (encode ms)) (hfull : s.rxExpected ≤ s.rxlen) :
    ReaderInv (closeMessage s) stream ms ∧
      Buffer.first s.rxbuf (min s.rxExpected smAsMaxPayload) = m.payload.take smAsMaxPayload := by
  obtain ⟨hpending, hkind, hexpected, done, remaining, hpayload, hstream, hrxlen, hfirst⟩ := h
  have hnil : remaining = [] := by
    have := congrArg List.length hpayload
    rw [List.length_append] at this
    exact List.eq_nil_of_length_eq_zero (by omega)
  subst hnil
  rw [List.append_nil] at hpayload
  refine ⟨.header ⟨rfl, Nat.zero_le 3, by simpa [closeMessage] using hstream⟩ (by simp [closeMessage]), ?_⟩
  have heq : s.rxExpected = s.rxlen := by rw [hexpected, hpayload, hrxlen]
  rw [Buffer.first_min, heq, hfirst, hpayload, List.take_take, Nat.min_self]

def ReadSpec (p : Peer) (ms : List Message) : SmAstRead × SmAstSocket × Peer → Prop
  | (.message k b n, s', p') => ∃ m rest, ms = m :: rest ∧
      SmAstRead.message k b n = m.view smAsMaxPayload ∧ ReaderInv s' p'.stream rest ∧ Leads p p'
  | (.interrupted .timeout, s', p') => ReaderInv s' p'.stream ms ∧ Leads p p'
  | (.interrupted .fail, _, _) => .fail ∈ p.events

theorem readSpec_of_leads {p q : Peer} (hpq : Leads p q) {ms : List Message}
    {r : SmAstRead × SmAstSocket × Peer} (h : ReadSpec q ms r) : ReadSpec p ms r := by
  rcases r with ⟨⟨k, b, n⟩ | why, s', p'⟩
  · obtain ⟨m, rest, hms, hview, hinv, hleads⟩ := h
    exact ⟨m, rest, hms, hview, hinv, hpq.trans hleads⟩
  · cases why with
    | timeout => exact ⟨h.1, hpq.trans h.2⟩
    | fail => exact hpq.events _ h

theorem smAstReadPayload_spec {s : SmAstSocket} {p : Peer} {m : Message} {ms : List Message}
    (h : PayloadInv m s p.stream (encode ms)) :
    ReadSpec p (m :: ms) (smAstReadPayload s p smAsMaxPayload) := by
  have hloop := payloadLoop_spec m (encode ms) (le_refl (s.rxExpected - s.rxlen)) h
  unfold smAstReadPayload
  rcases hr : payloadLoop (s.rxExpected - s.rxlen) s p with ⟨_ | why, s', p'⟩
  · rw [hr] at hloop
    obtain ⟨hinv, hfull, hleads⟩ := hloop
    obtain ⟨hclosed, hbytes⟩ := closeMessage_inv hinv hfull
    refine ⟨m, ms, rfl, ?_, hclosed, hleads⟩
    rw [Message.view, hinv.kind, hbytes, hinv.expected]
  · rw [hr] at hloop
    cases why with
    | timeout =>
        obtain ⟨hinv, hpart, hleads⟩ := hloop
        exact ⟨.payload hinv (not_le.mp hpart), hleads⟩
    | fail => exact hloop

theorem smAstRead_spec {s : SmAstSocket} {p : Peer} {ms : List Message}
    (hms : ∀ m ∈ ms, m.payload.length ≤ 0xFFFF) (h : ReaderInv s p.stream ms) :
    ReadSpec p ms (smAstRead s p smAsMaxPayload) := by
  cases h with
  | payload h hrx =>
      rw [smAstRead, if_pos h.pending]
      exact smAstReadPayload_spec h
  | header h hhdr =>
      have hloop := headerLoop_spec (encode ms) (le_refl (3 - s.rxhdr)) h
      simp only [smAstRead, h.pending, Bool.false_eq_true, if_false]
      rcases hr : headerLoop (3 - s.rxhdr) s p with ⟨_ | why, s', p'⟩
      · rw [hr] at hloop
        obtain ⟨hinv, hfull, hleads⟩ := hloop
        cases ms with
        | nil =>
            have hlen := congrArg List.length hinv.bytes
            simp [hfull] at hlen
        | cons m ms =>
            exact readSpec_of_leads hleads
              (smAstReadPayload_spec (openMessage_inv (hms m (by simp)) hinv hfull))
      · rw [hr] at hloop
        cases why with
        | timeout =>
            obtain ⟨hinv, hpart, hleads⟩ := hloop
            exact ⟨.header hinv hpart, hleads⟩
        | fail => exact hloop

theorem headerLoop_shorter (fuel : Nat) (s : SmAstSocket) (p : Peer) :
    (headerLoop fuel s p).2.2.events.length ≤ p.events.length ∧
      (s.rxhdr < 3 → 0 < fuel →
        (headerLoop fuel s p).2.2.events.length ≤ p.events.length - 1) := by
  induction fuel generalizing s p with
  | zero => exact ⟨le_refl _, fun _ h => absurd h (lt_irrefl 0)⟩
  | succ fuel ih =>
      by_cases hlt : s.rxhdr < 3
      · have hshort := recvInto_shorter p (3 - s.rxhdr) (by omega)
        simp only [headerLoop, if_pos hlt]
        rcases hr : recvInto p (3 - s.rxhdr) with ⟨bytes | _ | _, p'⟩ <;>
          rw [hr] at hshort <;> simp only at hshort ⊢
        · have hrest := (ih { s with
            rxhead := Buffer.blit s.rxhead s.rxhdr bytes, rxhdr := s.rxhdr + bytes.length } p').1
          exact ⟨by omega, fun _ _ => by omega⟩
        · exact ⟨by omega, fun _ _ => hshort⟩
        · exact ⟨by omega, fun _ _ => hshort⟩
      · simp [headerLoop, hlt]

theorem payloadLoop_shorter (fuel : Nat) (s : SmAstSocket) (p : Peer) :
    (payloadLoop fuel s p).2.2.events.length ≤ p.events.length ∧
      (s.rxlen < s.rxExpected → 0 < fuel →
        (payloadLoop fuel s p).2.2.events.length ≤ p.events.length - 1) := by
  induction fuel generalizing s p with
  | zero => exact ⟨le_refl _, fun _ h => absurd h (lt_irrefl 0)⟩
  | succ fuel ih =>
      by_cases hlt : s.rxlen < s.rxExpected
      · by_cases hroom : s.rxlen < smAsMaxPayload
        · have hshort := recvInto_shorter p
            (min (s.rxExpected - s.rxlen) (smAsMaxPayload - s.rxlen)) (by omega)
          simp only [payloadLoop, if_pos hlt, if_pos hroom]
          rcases hr : recvInto p (min (s.rxExpected - s.rxlen) (smAsMaxPayload - s.rxlen)) with
            ⟨bytes | _ | _, p'⟩ <;> rw [hr] at hshort <;> simp only at hshort ⊢
          · have hrest := (ih { s with
              rxbuf := Buffer.blit s.rxbuf s.rxlen bytes, rxlen := s.rxlen + bytes.length } p').1
            exact ⟨by omega, fun _ _ => by omega⟩
          · exact ⟨by omega, fun _ _ => hshort⟩
          · exact ⟨by omega, fun _ _ => hshort⟩
        · have hshort := recvInto_shorter p (min (s.rxExpected - s.rxlen) 256) (by omega)
          simp only [payloadLoop, if_pos hlt, if_neg hroom]
          rcases hr : recvInto p (min (s.rxExpected - s.rxlen) 256) with ⟨bytes | _ | _, p'⟩ <;>
            rw [hr] at hshort <;> simp only at hshort ⊢
          · have hrest := (ih { s with rxlen := s.rxlen + bytes.length } p').1
            exact ⟨by omega, fun _ _ => by omega⟩
          · exact ⟨by omega, fun _ _ => hshort⟩
          · exact ⟨by omega, fun _ _ => hshort⟩
      · simp [payloadLoop, hlt]

theorem smAstReadPayload_events (s : SmAstSocket) (p : Peer) (bufLen : Nat) :
    (smAstReadPayload s p bufLen).2.2 = (payloadLoop (s.rxExpected - s.rxlen) s p).2.2 := by
  unfold smAstReadPayload
  rcases payloadLoop (s.rxExpected - s.rxlen) s p with ⟨_ | why, s', p'⟩ <;> rfl

theorem smAstRead_shorter {s : SmAstSocket} {p : Peer} {ms : List Message}
    (h : ReaderInv s p.stream ms) (bufLen : Nat) :
    (smAstRead s p bufLen).2.2.events.length ≤ p.events.length - 1 := by
  cases h with
  | payload h hrx =>
      rw [smAstRead, if_pos h.pending, smAstReadPayload_events]
      exact (payloadLoop_shorter _ s p).2 hrx (by omega)
  | header h hhdr =>
      have hbound := h.bound
      have hhead := (headerLoop_shorter (3 - s.rxhdr) s p).2 (by omega) (by omega)
      simp only [smAstRead, h.pending, Bool.false_eq_true, if_false]
      rcases hr : headerLoop (3 - s.rxhdr) s p with ⟨_ | why, s', p'⟩ <;> rw [hr] at hhead
      · simp only [smAstReadPayload_events]
        exact (payloadLoop_shorter _ _ p').1.trans hhead
      · exact hhead

def smAstReads : Nat → SmAstSocket → Peer → List SmAstRead × SmAstSocket × Peer
  | 0, s, p => ([], s, p)
  | n + 1, s, p =>
      let (r, s, p) := smAstRead s p smAsMaxPayload
      let (rs, s, p) := smAstReads n s p
      (r :: rs, s, p)

def SmAstRead.isMessage : SmAstRead → Bool
  | .message .. => true
  | .interrupted _ => false

theorem smAstReads_succ {s s' : SmAstSocket} {p p' : Peer} {r : SmAstRead} (n : Nat)
    (h : smAstRead s p smAsMaxPayload = (r, s', p')) :
    smAstReads (n + 1) s p = (r :: (smAstReads n s' p').1, (smAstReads n s' p').2) := by
  simp only [smAstReads, h]

theorem smAstReads_spec (n : Nat) {s : SmAstSocket} {p : Peer} {ms : List Message}
    (hms : ∀ m ∈ ms, m.payload.length ≤ 0xFFFF) (hok : .fail ∉ p.events)
    (h : ReaderInv s p.stream ms) :
    ∃ got rest, ms = got ++ rest ∧
      (smAstReads n s p).1.filter SmAstRead.isMessage = got.map (Message.view smAsMaxPayload) ∧
      .interrupted .fail ∉ (smAstReads n s p).1 ∧
      ReaderInv (smAstReads n s p).2.1 (smAstReads n s p).2.2.stream rest ∧
      Leads p (smAstReads n s p).2.2 ∧
      (smAstReads n s p).2.2.events.length ≤ p.events.length - n := by
  induction n generalizing s p ms with
  | zero => exact ⟨[], ms, rfl, rfl, List.not_mem_nil, h, leads_refl p, le_refl _⟩
  | succ n ih =>
      have hread := smAstRead_spec hms h
      have hshort := smAstRead_shorter h smAsMaxPayload
      rcases hr : smAstRead s p smAsMaxPayload with ⟨⟨k, b, len⟩ | why, s', p'⟩ <;>
        rw [hr] at hread hshort <;> rw [smAstReads_succ n hr]
      · obtain ⟨m, rest, rfl, hview, hinv, hleads⟩ := hread
        obtain ⟨got, left, rfl, hgot, hnofail, hfinal, hleads', hlen⟩ :=
          ih (fun x hx => hms x (by simp [hx])) (fun hf => hok (hleads.events _ hf)) hinv
        refine ⟨m :: got, left, rfl, ?_, by simpa using hnofail, hfinal, hleads.trans hleads', ?_⟩
        · rw [List.filter_cons_of_pos rfl, hgot, hview, List.map_cons]
        · simp only at hshort ⊢
          omega
      · cases why with
        | timeout =>
            obtain ⟨hinv, hleads⟩ := hread
            obtain ⟨got, left, hms', hgot, hnofail, hfinal, hleads', hlen⟩ :=
              ih hms (fun hf => hok (hleads.events _ hf)) hinv
            refine ⟨got, left, hms', ?_, by simpa using hnofail, hfinal, hleads.trans hleads', ?_⟩
            · simpa [SmAstRead.isMessage] using hgot
            · simp only at hshort ⊢
              omega
        | fail => exact absurd hread hok

theorem readerInv_nil {s : SmAstSocket} {ms : List Message} (h : ReaderInv s [] ms) : ms = [] := by
  cases h with
  | header h hhdr =>
      cases ms with
      | nil => rfl
      | cons m ms =>
          have hlen := congrArg List.length h.bytes
          have hbound := h.bound
          simp only [encode_cons, List.append_nil, Buffer.first_length, List.length_append,
            smAstHeader_length] at hlen
          omega
  | payload h hrx =>
      obtain ⟨_, _, hexpected, done, remaining, hpayload, hstream, hrxlen, _⟩ := h
      have hnil : remaining = [] := (List.append_eq_nil_iff.mp hstream.symm).1
      rw [hexpected, hpayload, hnil, List.append_nil, hrxlen] at hrx
      exact absurd hrx (lt_irrefl _)

end Reader

theorem audiosocket_wire_roundtrip (ms : List Message) (tx : List SendEvent)
    (rx : List RecvEvent) (n : Nat) (hwrite : (writeMessages ms tx).2 = 0)
    (hrecv : .fail ∉ rx) :
    let reads := smAstReads n smAstInit ⟨(writeMessages ms tx).1, rx⟩
    let delivered := reads.1.filter SmAstRead.isMessage
    .interrupted .fail ∉ reads.1 ∧
      delivered <+: ms.map (Message.view smAsMaxPayload) ∧
      (reads.2.2.stream = [] → delivered = ms.map (Message.view smAsMaxPayload)) ∧
      ((writeMessages ms tx).1.length ≤ rx.countP RecvEvent.isData → rx.length ≤ n →
        delivered = ms.map (Message.view smAsMaxPayload)) := by
  obtain ⟨hlens, hwire⟩ := writeMessages_ok hwrite
  rw [hwire]
  obtain ⟨got, rest, hms, hgot, hnofail, hinv, hleads, hshort⟩ :=
    smAstReads_spec n hlens (p := ⟨encode ms, rx⟩) hrecv (readerInv_init ms)
  have hall (hstream : (smAstReads n smAstInit ⟨encode ms, rx⟩).2.2.stream = []) :
      (smAstReads n smAstInit ⟨encode ms, rx⟩).1.filter SmAstRead.isMessage =
        ms.map (Message.view smAsMaxPayload) := by
    rw [hstream] at hinv
    rw [hgot, hms, readerInv_nil hinv, List.append_nil]
  refine ⟨hnofail, ?_, hall, ?_⟩
  · rw [hgot, hms, List.map_append]
    exact List.prefix_append _ _
  · intro hsupply hcalls
    have hsupplied := hleads.supplied hsupply
    have hevents : (smAstReads n smAstInit ⟨encode ms, rx⟩).2.2.events = [] := by
      apply List.eq_nil_of_length_eq_zero
      simp only at hshort
      omega
    apply hall
    apply List.eq_nil_of_length_eq_zero
    simpa [Peer.Supplied, hevents] using hsupplied

theorem audiosocket_wire_roundtrip_two_messages :
    let ms : List Message := [⟨0x01, [1, 2, 3]⟩, ⟨0x10, []⟩]
    let tx : List SendEvent := [.sent 2, .retry, .sent 1, .sent 3, .sent 3]
    let rx : List RecvEvent := [.data 2, .timeout, .data 1, .data 2, .timeout, .retry] ++
      List.replicate 9 (.data 1)
    (writeMessages ms tx).2 = 0 ∧ .fail ∉ rx ∧
      ((smAstReads 15 smAstInit ⟨(writeMessages ms tx).1, rx⟩).1.filter SmAstRead.isMessage =
        ms.map (Message.view smAsMaxPayload)) :=
  ⟨by decide, by decide,
    (audiosocket_wire_roundtrip _ _ _ 15 (by decide) (by decide)).2.2.2 (by decide) (by decide)⟩

end Softmodem.AudioSocket

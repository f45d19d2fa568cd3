import Softmodem.AudioSocket.Wire

namespace Softmodem.AudioSocket

structure Fresh (s : SmAstSocket) : Prop where
  pending : s.rxPending = false
  header : s.rxhdr = 0

def promptPeer (ms : List Message) : Peer :=
  ⟨encode ms, ms.flatMap fun m => [.data 3, .data m.payload.length]⟩

theorem fresh_init : Fresh smAstInit := ⟨rfl, rfl⟩

theorem recvInto_data {xs : List UInt8} (rest : List UInt8) (n want : Nat) (events : List RecvEvent)
    (hne : xs ≠ []) (hlen : min (max n 1) want = xs.length) :
    recvInto ⟨xs ++ rest, .data n :: events⟩ want = (.data xs, ⟨rest, events⟩) := by
  simp [recvInto, recvEvents, hlen, hne]

theorem headerLoop_prompt {s : SmAstSocket} (hs : Fresh s) {head : List UInt8}
    (hhead : head.length = 3) (rest : List UInt8) (events : List RecvEvent) :
    headerLoop 3 s ⟨head ++ rest, .data 3 :: events⟩ =
      (none, { s with rxhead := Buffer.blit s.rxhead 0 head, rxhdr := 3 }, ⟨rest, events⟩) := by
  have hne : head ≠ [] := by
    rintro rfl
    cases hhead
  have hrecv := recvInto_data rest 3 (3 - s.rxhdr) events hne
    (by rw [hs.header, hhead]; rfl)
  simp [headerLoop, hs.header] at hrecv ⊢
  simp [hrecv, hhead]

theorem payloadLoop_done {s : SmAstSocket} (h : ¬ s.rxlen < s.rxExpected) (fuel : Nat) (p : Peer) :
    payloadLoop fuel s p = (none, s, p) := by
  cases fuel with
  | zero => rfl
  | succ fuel => simp only [payloadLoop, if_neg h]

theorem payloadLoop_prompt {s : SmAstSocket} {payload : List UInt8} (rest : List UInt8) (hne : payload ≠ [])
    (hlen : payload.length ≤ smAsMaxPayload) (hrxlen : s.rxlen = 0)
    (hexpected : s.rxExpected = payload.length) (events : List RecvEvent) :
    payloadLoop payload.length s ⟨payload ++ rest, .data payload.length :: events⟩ =
      (none, { s with rxbuf := Buffer.blit s.rxbuf 0 payload, rxlen := payload.length },
        ⟨rest, events⟩) := by
  have hpos : 0 < payload.length := List.length_pos_iff.mpr hne
  obtain ⟨k, hk⟩ : ∃ k, payload.length = k + 1 := ⟨payload.length - 1, by omega⟩
  have hrecv := recvInto_data rest payload.length
    (min (s.rxExpected - s.rxlen) (smAsMaxPayload - s.rxlen)) events hne (by omega)
  have hlt : s.rxlen < s.rxExpected := by omega
  have hroom : s.rxlen < smAsMaxPayload := by omega
  rw [hk, payloadLoop, if_pos hlt, if_pos hroom, ← hk]
  simp only [hrecv]
  rw [payloadLoop_done (by simp [hrxlen, hexpected])]
  simp [hrxlen]

theorem smAstRead_arrived {s : SmAstSocket} (hs : Fresh s) (m : Message)
    (hne : m.payload ≠ []) (hlen : m.payload.length ≤ smAsMaxPayload) (stream : List UInt8)
    (events : List RecvEvent) :
    ∃ s', smAstRead s ⟨m.wire ++ stream, .data 3 :: .data m.payload.length :: events⟩
        smAsMaxPayload =
      (.message m.kind m.payload m.payload.length, s', ⟨stream, events⟩) ∧ Fresh s' := by
  have hheader := headerLoop_prompt hs (smAstHeader_length m.kind m.payload.length)
    (m.payload ++ stream) (.data m.payload.length :: events)
  have hexpected := header_decodes (hlen.trans (by simp [smAsMaxPayload]))
  rw [smAstRead, if_neg (by simp [hs.pending]), hs.header, Message.wire, List.append_assoc, hheader]
  simp only
  generalize hopen : openMessage
    { s with rxhead := Buffer.blit s.rxhead 0 (smAstHeader m.kind m.payload.length), rxhdr := 3 }
    = opened
  have hkind : opened.rxKind = m.kind := by
    rw [← hopen]
    simp [openMessage, Buffer.blit, smAstHeader]
  have hrxExpected : opened.rxExpected = m.payload.length := by
    rw [← hopen]
    simpa [openMessage, Buffer.blit, smAstHeader] using hexpected
  have hrxlen : opened.rxlen = 0 := by
    rw [← hopen]
    rfl
  have hloop := payloadLoop_prompt stream hne hlen hrxlen hrxExpected events
  have hbytes : Buffer.first (Buffer.blit opened.rxbuf 0 m.payload) (0 + m.payload.length) =
      m.payload := by
    rw [Buffer.first_blit _ _ _ (by omega)]
    rfl
  rw [Nat.zero_add] at hbytes
  simp only [smAstReadPayload, hrxExpected, hrxlen, Nat.sub_zero, hloop, hkind,
    Nat.min_eq_left hlen, hbytes]
  exact ⟨_, rfl, ⟨rfl, rfl⟩⟩

theorem smAstRead_prompt {s : SmAstSocket} (hs : Fresh s) (m : Message) (ms : List Message)
    (hne : m.payload ≠ []) (hlen : m.payload.length ≤ smAsMaxPayload) :
    ∃ s', smAstRead s (promptPeer (m :: ms)) smAsMaxPayload =
      (.message m.kind m.payload m.payload.length, s', promptPeer ms) ∧ Fresh s' :=
  smAstRead_arrived hs m hne hlen (encode ms) (promptPeer ms).events

theorem smAstRead_timeout {s : SmAstSocket} (hs : Fresh s) (stream : List UInt8)
    (events : List RecvEvent) :
    smAstRead s ⟨stream, .timeout :: events⟩ smAsMaxPayload =
      (.interrupted .timeout, s, ⟨stream, events⟩) := by
  rw [smAstRead, if_neg (by simp [hs.pending]), hs.header, headerLoop, if_pos (by rw [hs.header]; decide)]
  rfl

theorem smAstRead_silent {s : SmAstSocket} (hs : Fresh s) (stream : List UInt8) :
    smAstRead s ⟨stream, []⟩ smAsMaxPayload = (.interrupted .timeout, s, ⟨stream, []⟩) := by
  rw [smAstRead, if_neg (by simp [hs.pending]), hs.header, headerLoop, if_pos (by rw [hs.header]; decide)]
  rfl

theorem sendAll_taken {bytes : List UInt8} {n : Nat} (hlen : bytes.length ≤ n)
    (events : List SendEvent) (hne : bytes ≠ []) :
    sendAll (.sent n :: events) bytes = (bytes, 0, events) := by
  have hrest : sendAll events [] = ([], 0, events) := by
    cases events with
    | nil => rfl
    | cons => rfl
  simp only [sendAll, if_neg hne, List.drop_of_length_le hlen, List.take_of_length_le hlen, hrest,
    List.append_nil]

theorem writeCall_prompt {kind : UInt8} {payload : List UInt8} {n : Nat}
    (hmax : payload.length ≤ 0xFFFF) (hlen : payload.length ≤ n) :
    writeCall kind payload [.sent 3, .sent n] =
      ⟨kind, payload, smAstHeader kind payload.length ++ payload, 0⟩ := by
  have hhead : smAstHeader kind payload.length ≠ [] := List.cons_ne_nil _ _
  have hhead' := sendAll_taken (le_refl 3) [.sent n] hhead
  rw [writeCall, smAstWrite, if_neg (Nat.not_lt.mpr hmax), hhead']
  rcases eq_or_ne payload [] with rfl | hne
  · rfl
  · have hpos := List.length_pos_iff.mpr hne
    simp only [sendAll_taken hlen [] hne, hpos, if_true, lt_irrefl, if_false]

end Softmodem.AudioSocket

import Mathlib.Data.List.Basic
import Softmodem.AudioSocket.Wire

namespace Softmodem.AudioSocket

def onWire (ws : List WriteCall) : List UInt8 := ws.flatMap WriteCall.bytes

def Encodable (m : Message) : Prop := m.payload.length ≤ 0xFFFF

def StopsAtFailure (ws : List WriteCall) : Prop :=
  ∀ before w after, ws = before ++ w :: after → w.code = -1 → after = []

-- What one connection was given, over its whole life.
structure Synchronised (ws : List WriteCall) : Prop where
  stops : StopsAtFailure ws
  messages : ∃ ms : List Message, (∀ m ∈ ms, Encodable m) ∧ onWire ws <+: encode ms

theorem sendAll_prefix (events : List SendEvent) (bytes : List UInt8) :
    (sendAll events bytes).1 <+: bytes := by
  induction events generalizing bytes with
  | nil => exact List.nil_prefix
  | cons e events ih =>
      simp only [sendAll]
      split
      · exact List.nil_prefix
      · cases e with
        | fail => exact List.nil_prefix
        | retry => exact ih bytes
        | sent n =>
            have hsplit := (List.prefix_append_right_inj (bytes.take n)).mpr (ih (bytes.drop n))
            rwa [List.take_append_drop] at hsplit

theorem smAstWrite_prefix (kind : UInt8) {payload : List UInt8} (hlen : payload.length ≤ 0xFFFF)
    (events : List SendEvent) :
    (smAstWrite kind payload events).1 <+: Message.wire ⟨kind, payload⟩ := by
  have hhead := sendAll_prefix events (smAstHeader kind payload.length)
  have hbody := sendAll_prefix (sendAll events (smAstHeader kind payload.length)).2.2 payload
  rw [smAstWrite, if_neg (by omega), Message.wire]
  rcases sendAll_code events (smAstHeader kind payload.length) with hcode | hcode
  · have hwhole := sendAll_ok hcode
    simp only [hcode, hwhole]
    split
    · omega
    · split
      · split
        · exact (List.prefix_append_right_inj _).mpr hbody
        · exact (List.prefix_append_right_inj _).mpr hbody
      · exact List.prefix_append _ _
  · simp only [hcode]
    exact hhead.trans (List.prefix_append _ _)

section Calls

variable (kind : UInt8) (payload : List UInt8) (events : List SendEvent)

@[simp] theorem writeCall_bytes :
    (writeCall kind payload events).bytes = (smAstWrite kind payload events).1 := rfl

@[simp] theorem writeCall_code :
    (writeCall kind payload events).code = (smAstWrite kind payload events).2.1 := rfl

theorem writeCall_code_cases :
    (writeCall kind payload events).code = 0 ∨ (writeCall kind payload events).code = -1 :=
  smAstWrite_code kind payload events

end Calls

def Made (w : WriteCall) : Prop := ∃ kind payload events, w = writeCall kind payload events

theorem Made.code {w : WriteCall} (h : Made w) : w.code = 0 ∨ w.code = -1 := by
  obtain ⟨kind, payload, events, rfl⟩ := h
  exact writeCall_code_cases kind payload events

theorem Made.whole {w : WriteCall} (h : Made w) (hcode : w.code = 0) :
    ∃ m, Encodable m ∧ w.bytes = m.wire := by
  obtain ⟨kind, payload, events, rfl⟩ := h
  obtain ⟨hlen, hbytes⟩ := smAstWrite_ok hcode
  exact ⟨⟨kind, payload⟩, hlen, hbytes⟩

theorem Made.part {w : WriteCall} (h : Made w) :
    ∃ ms : List Message, (∀ m ∈ ms, Encodable m) ∧ w.bytes <+: encode ms := by
  obtain ⟨kind, payload, events, rfl⟩ := h
  rcases Nat.lt_or_ge 0xFFFF payload.length with hlong | hlen
  · refine ⟨[], by simp, ?_⟩
    rw [writeCall_bytes, smAstWrite, if_pos hlong]
    exact List.nil_prefix
  · refine ⟨[⟨kind, payload⟩], by simpa [Encodable] using hlen, ?_⟩
    have hencode : encode [⟨kind, payload⟩] = Message.wire ⟨kind, payload⟩ := by
      simp [Message.wire]
    rw [hencode]
    exact smAstWrite_prefix kind hlen events

theorem StopsAtFailure.tail {w : WriteCall} {ws : List WriteCall}
    (h : StopsAtFailure (w :: ws)) : StopsAtFailure ws :=
  fun before w' after hws => h (w :: before) w' after (by rw [hws]; rfl)

-- Whole messages as long as the writes succeed, and then at most a part of one.
theorem StopsAtFailure.synchronised {ws : List WriteCall} (h : StopsAtFailure ws)
    (hmade : ∀ w ∈ ws, Made w) : Synchronised ws := by
  refine ⟨h, ?_⟩
  induction ws with
  | nil => exact ⟨[], by simp, List.nil_prefix⟩
  | cons w ws ih =>
      have hw := hmade w List.mem_cons_self
      rcases hw.code with hcode | hcode
      · obtain ⟨m, hm, hbytes⟩ := hw.whole hcode
        obtain ⟨ms, hms, hrest⟩ := ih h.tail fun w' hw' => hmade w' (List.mem_cons_of_mem _ hw')
        refine ⟨m :: ms, ?_, ?_⟩
        · intro m' hm'
          rcases List.mem_cons.mp hm' with rfl | hm'
          · exact hm
          · exact hms m' hm'
        · have hwire : encode (m :: ms) = m.wire ++ encode ms := rfl
          rw [onWire, List.flatMap_cons, hbytes, hwire, List.prefix_append_right_inj]
          exact hrest
      · have hlast : ws = [] := h [] w ws rfl hcode
        rw [hlast, onWire, List.flatMap_cons, List.flatMap_nil, List.append_nil]
        exact hw.part

theorem stopsAtFailure_of_ok {ws : List WriteCall} (h : ∀ w ∈ ws, w.code = 0) :
    StopsAtFailure ws := by
  rintro before w after rfl hcode
  have hw := h w (by simp)
  omega

theorem stopsAtFailure_append {ws : List WriteCall} (hmade : ∀ w ∈ ws, Made w) (w : WriteCall) :
    StopsAtFailure (ws ++ [w]) ↔ ∀ w' ∈ ws, w'.code = 0 := by
  constructor
  · intro h w' hw'
    refine (hmade w' hw').code.resolve_right fun hcode => ?_
    obtain ⟨before, after, rfl⟩ := List.append_of_mem hw'
    have hafter := h before w' (after ++ [w]) (by simp) hcode
    simp at hafter
  · rintro h before w' after hws hcode
    rcases List.eq_nil_or_concat' after with hnil | ⟨rest, last, rfl⟩
    · exact hnil
    · have hmem : w' ∈ ws := by
        rw [← List.cons_append, ← List.append_assoc] at hws
        rw [(List.append_inj' hws rfl).1]
        simp
      have hok := h w' hmem
      omega

end Softmodem.AudioSocket

import Softmodem.V22bis.Burst

namespace Softmodem.V22bis

structure Side where
  party : Nat → Party
  bits : Nat → List (Option Bool)
  guess : Nat → Fin 4
  hears : Nat → Option Symbol
  step : ∀ n, party (n + 1) = (party n).tick (bits n) (guess n) (hears n)

namespace Side

variable (side : Side)

def modem (n : Nat) : V22bisState := (side.party n).modem

def sends (n : Nat) : Option Symbol := (side.party n).sends (side.bits n)

def sent (n : Nat) : V22bisState := (getbaud nextBit (side.modem n) (side.bits n)).2.1

-- The line to this side is quiet for `a` ticks, and its decisions lag by `lag`.
structure Starts (lag a : Nat) : Prop where
  pending : (side.party 0).pending = List.replicate lag none
  quiet : ∀ n, n < a → side.hears n = none

variable {side} {lag a n : Nat}

theorem rx_sent : (side.sent n).rx = (side.modem n).rx :=
  (getbaud_frame nextBit (side.modem n) (side.bits n)).1

theorem negotiated_sent :
    (side.sent n).negotiatedBitRate = (side.modem n).negotiatedBitRate :=
  (getbaud_frame nextBit (side.modem n) (side.bits n)).2.2

theorem bitRate_sent : (side.sent n).bitRate = (side.modem n).bitRate :=
  (getbaud_frame nextBit (side.modem n) (side.bits n)).2.1

theorem callingParty_sent : (side.sent n).callingParty = (side.modem n).callingParty :=
  getbaud_callingParty nextBit (side.modem n) (side.bits n)

theorem training_sends (h : (side.modem n).tx.training ≠ .normalOperation) :
    side.sends n = (trainingGet (side.modem n)).1 ∧
      side.sent n = (trainingGet (side.modem n)).2.1 := by
  have heq := getbaud_training nextBit (side.bits n) h
  exact ⟨congrArg (·.1) heq, congrArg (·.2.1) heq⟩

theorem modem_silent (h : side.hears n = none) : side.modem (n + 1) = side.sent n := by
  rw [modem, side.step, h]
  rfl

theorem modem_next (side : Side) (n : Nat) : side.modem (n + 1) = side.sent n ∨
    ∃ nearest, side.modem (n + 1) = hearSymbol (side.sent n) nearest := by
  cases h : side.hears n with
  | none => exact .inl (modem_silent h)
  | some nearest =>
      right
      rw [modem, side.step, h]
      exact ⟨_, rfl⟩

theorem role (side : Side) (n : Nat) : (side.modem n).bitRate = (side.modem 0).bitRate ∧
    (side.modem n).callingParty = (side.modem 0).callingParty := by
  induction n with
  | zero => exact ⟨rfl, rfl⟩
  | succ n ih =>
      rcases side.modem_next n with h | ⟨nearest, h⟩
      · exact ⟨by rw [h, bitRate_sent, ih.1], by rw [h, callingParty_sent, ih.2]⟩
      · refine ⟨?_, ?_⟩
        · exact (congrArg _ h).trans
            ((processBaud_step _ nearest).rate.trans (bitRate_sent.trans ih.1))
        · exact (congrArg _ h).trans
            ((processBaud_callingParty _ nearest).trans (callingParty_sent.trans ih.2))

theorem bitRate_of_init {callingParty : Bool} {rate : Nat}
    (hinit : side.modem 0 = v22bisInit callingParty rate) (n : Nat) :
    (side.sent n).bitRate = rate := by
  rw [bitRate_sent, (side.role n).1, hinit]
  rfl

theorem callingParty_of_init {callingParty : Bool} {rate : Nat}
    (hinit : side.modem 0 = v22bisInit callingParty rate) (n : Nat) :
    (side.modem n).callingParty = callingParty := by
  rw [(side.role n).2, hinit]
  rfl

theorem pending_silent (h : side.hears n = none) :
    (side.party (n + 1)).pending = (side.party n).pending := by
  rw [side.step, h]
  rfl

theorem pending_quiet (h : side.Starts lag a) (hn : n ≤ a) :
    (side.party n).pending = List.replicate lag none := by
  induction n with
  | zero => exact h.pending
  | succ n ih => rw [pending_silent (h.quiet n (by omega)), ih (by omega)]

theorem pending_heard (h : side.Starts lag a) {i : Nat}
    (hheard : ∀ k, k < i → side.hears (a + k) ≠ none) :
    (side.party (a + i)).pending =
      DelayLine.lineAt (List.replicate lag none) (fun k => side.hears (a + k)) i := by
  induction i with
  | zero => exact pending_quiet h (by omega)
  | succ i ih =>
      obtain ⟨nearest, hnearest⟩ := Option.ne_none_iff_exists'.mp (hheard i (by omega))
      rw [DelayLine.lineAt, ← ih fun k hk => hheard k (by omega), ← Nat.add_assoc, side.step,
        hnearest]
      rfl

-- Decisions on symbols begin `lag` symbols after the first one is heard.
theorem modem_heard (h : side.Starts lag a) {i : Nat}
    (hheard : ∀ k, k ≤ i → side.hears (a + k) ≠ none) :
    ∃ nearest, side.modem (a + i + 1) = hearSymbol (side.sent (a + i)) nearest ∧
      ∀ k, i = lag + k → side.hears (a + k) = some nearest := by
  obtain ⟨heard, hheard_i⟩ := Option.ne_none_iff_exists'.mp (hheard i (by omega))
  have hout := DelayLine.out_replicate lag none (fun k => side.hears (a + k)) i
  rw [← pending_heard h fun k hk => hheard k (by omega), hheard_i] at hout
  refine ⟨(DelayLine.shift (side.party (a + i)).pending (some heard)).1.getD
    (constellationIndex (side.guess (a + i)) 1), ?_, ?_⟩
  · rw [modem, side.step, hheard_i]
    rfl
  · rintro k rfl
    obtain ⟨symbol, hsymbol⟩ := Option.ne_none_iff_exists'.mp (hheard k (by omega))
    rw [if_neg (by omega), Nat.add_sub_cancel_left, hsymbol] at hout
    rw [hout, hsymbol]
    rfl

theorem modem_decided (h : side.Starts lag a) {i : Nat} {nearest : Symbol}
    (hheard : ∀ k, k ≤ i → side.hears (a + k) ≠ none) (hi : lag ≤ i)
    (hnearest : side.hears (a + (i - lag)) = some nearest) :
    side.modem (a + i + 1) = hearSymbol (side.sent (a + i)) nearest := by
  obtain ⟨decided, hnext, hdecided⟩ := modem_heard h hheard
  have hsome := hdecided (i - lag) (by omega)
  rw [hnearest] at hsome
  rw [hnext, Option.some.inj hsome]

theorem sent_silent (h : Silent (side.modem n).tx) :
    side.sends n = none ∧ Silent (side.sent n).tx := by
  have htr : (side.modem n).tx.training ≠ .normalOperation := by simp [h.training]
  obtain ⟨hsends, hsent⟩ := training_sends htr
  rw [hsends, hsent]
  exact silent_tick h

theorem sent_warm {k : Nat} (h : Warm k (side.modem n).tx) :
    side.sends n = (if k < 45 then none else some (onesAt (k - 45))) ∧
      Warm (k + 1) (side.sent n).tx := by
  have htr : (side.modem n).tx.training ≠ .normalOperation := by
    by_cases hk : k < 45
    · simp [(h.before hk).1]
    · simp [(h.after (by omega)).1]
  rw [(training_sends htr).1, (training_sends htr).2]
  exact warm_tick h

theorem sent_bursting {q : Fin 4} {k : Nat} (h : Bursting q k (side.modem n).tx) :
    side.sends n = some (s1At q k) ∧ (k + 1 < 60 → Bursting q (k + 1) (side.sent n).tx) ∧
      (k + 1 = 60 → Burst (side.modem n).callingParty 0 (side.sent n).tx) := by
  have htr : (side.modem n).tx.training ≠ .normalOperation := by simp [h.training]
  obtain ⟨hsends, hsent⟩ := training_sends htr
  rw [hsends, hsent]
  exact bursting_tick h

theorem sent_burst {k : Nat} (h : Burst (side.modem n).callingParty k (side.modem n).tx)
    (hk : (side.modem n).callingParty = false → k < 299) :
    side.sends n ≠ none ∧ Burst (side.modem n).callingParty (k + 1) (side.sent n).tx := by
  have htr : (side.modem n).tx.training ≠ .normalOperation := by
    cases h with
    | caller _ htr => simp [htr]
    | answerer _ htr => simp [htr]
  rw [(training_sends htr).1, (training_sends htr).2]
  obtain ⟨hsome, hburst⟩ := burst_tick h hk
  exact ⟨Option.ne_none_iff_isSome.mpr hsome, hburst⟩

theorem acquires (h : side.Starts lag a) {callingParty : Bool} {rate i : Nat}
    (hinit : side.modem 0 = v22bisInit callingParty rate)
    (hheard : ∀ k, k < i → side.hears (a + k) ≠ none) (hi : i < 40) :
    Acquires i (side.modem (a + i)).rx := by
  induction i with
  | zero =>
      have hrx (n : Nat) (hn : n ≤ a) :
          (side.modem n).rx = (v22bisInit callingParty rate).rx := by
        induction n with
        | zero => rw [hinit]
        | succ n ih => rw [modem_silent (h.quiet n hn), rx_sent, ih (by omega)]
      rw [Nat.add_zero, hrx a (Nat.le_refl a)]
      exact ⟨rfl, rfl, rfl, rfl, rfl⟩
  | succ i ih =>
      obtain ⟨nearest, hnext, -⟩ := modem_heard h (i := i) fun k hk => hheard k (by omega)
      rw [← Nat.add_assoc, hnext]
      refine (hearSymbol_acquires nearest ?_ (by omega)).1
      rw [rx_sent]
      exact ih (fun k hk => hheard k (by omega)) (by omega)

theorem agrees (h : Agreed (side.modem a)) (hle : a ≤ n) : Agreed (side.modem n) := by
  induction n, hle using Nat.le_induction with
  | base => exact h
  | succ n _ ih =>
      have hsent : Agreed (side.sent n) :=
        ⟨negotiated_sent.trans ih.negotiated, by rw [rx_sent]; exact ih.training⟩
      rcases side.modem_next n with hnext | ⟨nearest, hnext⟩
      · rwa [hnext]
      · rw [hnext]
        exact hsent.hear nearest

end Side

section Caller

variable {side : Side} {lag a : Nat}

-- A caller that has heard at most `k` symbols is silent, whatever they were.
structure Hushed (k : Nat) (s : V22bisState) : Prop where
  callingParty : s.callingParty = true
  tx : Silent s.tx
  rx : s.rx.training = .symbolAcquisition ∨ s.rx.training = .unscrambledOnes
  count : s.rx.trainingCount ≤ k

theorem hearSymbol_hushed {s : V22bisState} {k : Nat} (nearest : Symbol) (h : Hushed k s)
    (hk : k < 365) : Hushed (k + 1) (hearSymbol s nearest) := by
  obtain ⟨hcall, htx, hrx, hcount⟩ := h
  refine ⟨(processBaud_callingParty _ _).trans hcall, ?_, ?_, ?_⟩
  all_goals
    rcases hrx with hrx | hrx
    · simp only [hearSymbol, signalUp, processBaud, trainingSwitch, hrx, rxSymbolAcquisition, hcall]
      split_ifs <;> simp_all
    · simp only [hearSymbol, signalUp, processBaud, trainingSwitch, hrx, rxUnscrambledOnes]
      rw [if_neg (by simp [msToSymbols]; omega)]
      simp_all

theorem caller_hushed (h : side.Starts lag a) (hinit : side.modem 0 = v22bisInit true 2400)
    {n : Nat} (hn : n ≤ a + 365) : Hushed (n - a) (side.modem n) := by
  induction n with
  | zero =>
      rw [hinit]
      exact ⟨rfl, ⟨rfl, rfl⟩, .inl rfl, Nat.zero_le _⟩
  | succ n ih =>
      obtain ⟨hcall, htx, hrx, hcount⟩ := ih (by omega)
      have hhushed : Hushed (n - a) (side.sent n) := by
        refine ⟨Side.callingParty_sent.trans hcall, (Side.sent_silent htx).2, ?_, ?_⟩
        · rwa [Side.rx_sent]
        · rwa [Side.rx_sent]
      by_cases hquiet : n < a
      · rw [Side.modem_silent (h.quiet n hquiet), Nat.sub_eq_zero_of_le (by omega)]
        rwa [Nat.sub_eq_zero_of_le (by omega)] at hhushed
      · rw [show n + 1 - a = n - a + 1 by omega]
        rcases side.modem_next n with hnext | ⟨nearest, hnext⟩
        · rw [hnext]
          exact ⟨hhushed.callingParty, hhushed.tx, hhushed.rx, by have := hhushed.count; omega⟩
        · rw [hnext]
          exact hearSymbol_hushed nearest hhushed (by omega)

theorem caller_silent (h : side.Starts lag a) (hinit : side.modem 0 = v22bisInit true 2400)
    {n : Nat} (hn : n ≤ a + 365) : side.sends n = none :=
  (Side.sent_silent (caller_hushed h hinit hn).tx).1

structure Training (lag i : Nat) (s : V22bisState) : Prop where
  rx : HearsOnes i (onesQuadrant (i - lag)) s.rx
  tx : Silent s.tx
  negotiated : s.negotiatedBitRate = 1200

theorem caller_trains (h : side.Starts lag a) (hinit : side.modem 0 = v22bisInit true 2400)
    (hlag : lag < 40) {i : Nat} (hheard : ∀ k, k < i + 40 → side.hears (a + k) ≠ none)
    (hones : ∀ k, k + lag < i + 40 → side.hears (a + k) = some (onesAt k)) (hi : i < 326) :
    Training lag (i + 40) (side.modem (a + (i + 40))) := by
  induction i with
  | zero =>
      obtain ⟨nearest, hnext, -⟩ := Side.modem_heard h (i := 39) fun k hk => hheard k (by omega)
      have hacq := Side.acquires h hinit (i := 39) (fun k hk => hheard k (by omega)) (by omega)
      rw [← Side.rx_sent] at hacq
      obtain ⟨hcaller, -, htx, hneg⟩ := hearSymbol_acquired nearest hacq
      have hhushed := caller_hushed h hinit (n := a + 39) (by omega)
      rw [show a + (0 + 40) = a + 39 + 1 by omega, hnext]
      refine ⟨hcaller (Side.callingParty_sent.trans hhushed.callingParty) _, ?_, hneg⟩
      rw [htx]
      exact (Side.sent_silent hhushed.tx).2
  | succ i ih =>
      obtain ⟨hrx, htx, hneg⟩ := ih (fun k hk => hheard k (by omega))
        (fun k hk => hones k (by omega)) (by omega)
      have hnext := Side.modem_decided h (i := i + 40) (fun k hk => hheard k (by omega)) (by omega)
        (hones _ (by omega))
      rw [← Side.rx_sent] at hrx
      obtain ⟨hrx', htx', hneg'⟩ := hearSymbol_ones hrx (fun hi => rawBits_onesAt (hrx.turn hi))
        (by omega)
      rw [show a + (i + 1 + 40) = a + (i + 40) + 1 by omega, hnext]
      refine ⟨?_, ?_, hneg'.trans (Side.negotiated_sent.trans hneg)⟩
      · rwa [quadrant_onesAt, show i + 40 - lag + 1 = i + 40 + 1 - lag by omega] at hrx'
      · exact htx' ▸ (Side.sent_silent htx).2

-- A caller that has sent `k` symbols since it was through with unscrambled ones.
structure Sustaining (lag k : Nat) (s : V22bisState) : Prop where
  rx : Sustains (onesQuadrant (k + 366 - lag)) s.rx
  negotiated : s.negotiatedBitRate = 1200
  bursting : k < 60 → Bursting 0 k s.tx
  burst : 60 ≤ k → Burst s.callingParty (k - 60) s.tx

theorem caller_sustains (h : side.Starts lag a) (hinit : side.modem 0 = v22bisInit true 2400)
    (hlag : lag < 40) {k : Nat} (hheard : ∀ j, j < k + 366 → side.hears (a + j) ≠ none)
    (hones : ∀ j, j + lag < k + 366 → side.hears (a + j) = some (onesAt j)) :
    Sustaining lag k (side.modem (a + (k + 366))) := by
  induction k with
  | zero =>
      obtain ⟨hrx, htx, hneg⟩ := caller_trains h hinit hlag (i := 325)
        (fun j hj => hheard j (by omega)) (fun j hj => hones j (by omega)) (by omega)
      have hnext := Side.modem_decided h (i := 365) (fun j hj => hheard j (by omega)) (by omega)
        (hones _ (by omega))
      rw [← Side.rx_sent] at hrx
      obtain ⟨hrx', htx', hneg'⟩ := hearSymbol_sustaining hrx
        (rawBits_onesAt (hrx.turn (by omega))) (Side.bitRate_of_init hinit _)
        (Side.sent_silent htx).2.constellation
      rw [show a + (0 + 366) = a + 365 + 1 by omega, hnext]
      refine ⟨?_, hneg'.trans (Side.negotiated_sent.trans hneg), fun _ => htx', by omega⟩
      rwa [quadrant_onesAt, show 365 - lag + 1 = 0 + 366 - lag by omega] at hrx'
  | succ k ih =>
      obtain ⟨hrx, hneg, hbursting, hburst⟩ := ih (fun j hj => hheard j (by omega))
        (fun j hj => hones j (by omega))
      have hnext := Side.modem_decided h (i := k + 366) (fun j hj => hheard j (by omega))
        (by omega) (hones _ (by omega))
      rw [← Side.rx_sent] at hrx
      obtain ⟨hrx', htx', hneg'⟩ := hearSymbol_sustains hrx (rawBits_onesAt hrx.turn)
      have hcalls := Side.callingParty_of_init hinit
      have hcall : (side.modem (a + (k + 366) + 1)).callingParty =
          (side.modem (a + (k + 366))).callingParty := by
        rw [hcalls, hcalls]
      rw [show a + (k + 1 + 366) = a + (k + 366) + 1 by omega]
      rw [hnext] at hcall ⊢
      refine ⟨?_, hneg'.trans (Side.negotiated_sent.trans hneg), fun hk => ?_, fun hk => ?_⟩
      · rwa [quadrant_onesAt, show k + 366 - lag + 1 = k + 1 + 366 - lag by omega] at hrx'
      · exact htx' ▸ (Side.sent_bursting (hbursting (by omega))).2.1 hk
      · rw [htx', hcall]
        rcases Nat.eq_or_lt_of_le hk with hk | hk
        · rw [show k + 1 - 60 = 0 by omega]
          exact (Side.sent_bursting (hbursting (by omega))).2.2 hk.symm
        · rw [show k + 1 - 60 = k - 60 + 1 by omega]
          exact (Side.sent_burst (hburst (by omega)) (by simp [hcalls])).2

theorem caller_sends (h : side.Starts lag a) (hinit : side.modem 0 = v22bisInit true 2400)
    (hlag : lag < 40) {k : Nat} (hheard : ∀ j, j < k + 366 → side.hears (a + j) ≠ none)
    (hones : ∀ j, j + lag < k + 366 → side.hears (a + j) = some (onesAt j)) :
    side.sends (a + (k + 366)) ≠ none ∧
      (k < 60 → side.sends (a + (k + 366)) = some (s1At 0 k)) := by
  obtain ⟨-, -, hbursting, hburst⟩ := caller_sustains h hinit hlag hheard hones
  by_cases hk : k < 60
  · rw [(Side.sent_bursting (hbursting hk)).1]
    exact ⟨Option.some_ne_none _, fun _ => rfl⟩
  · refine ⟨(Side.sent_burst (hburst (by omega)) ?_).1, fun hlt => absurd hlt hk⟩
    simp [Side.callingParty_of_init hinit]

-- What a caller hears: `m` symbols of unscrambled ones, and the answerer's S1 burst.
structure HearsAnswer (side : Side) (lag a m : Nat) : Prop where
  long : 366 ≤ m + lag
  heard : ∀ j, j < m + lag + 24 → side.hears (a + j) ≠ none
  ones : ∀ j, j < m → side.hears (a + j) = some (onesAt j)
  burst : ∀ j, j < 24 → side.hears (a + (m + j)) = some (s1At (onesQuadrant m) j)

theorem caller_sustains_answer (h : side.Starts lag a)
    (hinit : side.modem 0 = v22bisInit true 2400) (hlag : lag < 40) {m k : Nat}
    (hears : HearsAnswer side lag a m) (hk : k + 366 ≤ m + lag) :
    Sustaining lag k (side.modem (a + (k + 366))) :=
  caller_sustains h hinit hlag (fun j hj => hears.heard j (by omega))
    (fun j hj => hears.ones j (by omega))

theorem caller_searches (h : side.Starts lag a) (hinit : side.modem 0 = v22bisInit true 2400)
    (hlag : lag < 40) {m : Nat} (hears : HearsAnswer side lag a m) {j : Nat} (hj : j < 23) :
    Searches (searched 3 1) j (quadrantAfter s1Raw (onesQuadrant m) (j + 1))
        (side.modem (a + (m + lag + j + 1))).rx ∧
      (side.modem (a + (m + lag + j + 1))).negotiatedBitRate = 1200 := by
  induction j with
  | zero =>
      have hlong := hears.long
      obtain ⟨hrx, hneg, -, -⟩ := caller_sustains_answer h hinit hlag hears
        (k := m + lag - 366) (by omega)
      have hnext := Side.modem_decided h (i := m + lag) (fun j hj => hears.heard j (by omega))
        (by omega) (by rw [Nat.add_sub_cancel]; exact hears.burst 0 (by omega))
      rw [show m + lag - 366 + 366 = m + lag by omega, Nat.add_sub_cancel] at hrx
      rw [show m + lag - 366 + 366 = m + lag by omega] at hneg
      rw [← Side.rx_sent] at hrx
      have hraw : rawBits (side.sent (a + (m + lag))).rx (s1At (onesQuadrant m) 0) ≠ 3 := by
        rw [rawBits_s1At hrx.turn]
        decide
      obtain ⟨hsearches, hneg'⟩ := hearSymbol_answered (searched 3 1) hrx hraw
      rw [show a + (m + lag + 0 + 1) = a + (m + lag) + 1 by omega, hnext]
      rw [quadrant_s1At] at hsearches
      exact ⟨hsearches, hneg'.trans (Side.negotiated_sent.trans hneg)⟩
  | succ j ih =>
      obtain ⟨hsearches, hneg⟩ := ih (by omega)
      have hnext := Side.modem_decided h (i := m + lag + j + 1)
        (fun k hk => hears.heard k (by omega)) (by omega)
        (by rw [show m + lag + j + 1 - lag = m + (j + 1) by omega]; exact hears.burst _ (by omega))
      rw [← Side.rx_sent] at hsearches
      rw [← Side.negotiated_sent] at hneg
      have hraw : s1Raw (j + 1) = searched 3 1 j := by
        cases j with
        | zero => rfl
        | succ j => rw [searched, Nat.add_comm 1]
      obtain ⟨hsearches', -, hneg'⟩ := hearSymbol_searches hsearches hneg
        ((rawBits_s1At hsearches.turn).trans hraw) (by omega)
        (found_answer.few (j + 1) (by omega))
      rw [quadrant_s1At] at hsearches'
      rw [show a + (m + lag + (j + 1) + 1) = a + (m + lag + j + 1) + 1 by omega, hnext]
      exact ⟨hsearches', hneg'⟩

theorem caller_agrees (h : side.Starts lag a) (hinit : side.modem 0 = v22bisInit true 2400)
    (hlag : lag < 40) {m : Nat} (hears : HearsAnswer side lag a m) :
    Agreed (side.modem (a + (m + lag + 24))) := by
  obtain ⟨hsearches, hneg⟩ := caller_searches h hinit hlag hears (j := 22) (by omega)
  have hnext := Side.modem_decided h (i := m + lag + 23) (fun k hk => hears.heard k (by omega))
    (by omega)
    (by rw [show m + lag + 23 - lag = m + 23 by omega]; exact hears.burst 23 (by omega))
  rw [← Side.rx_sent] at hsearches
  rw [← Side.negotiated_sent] at hneg
  obtain ⟨hneg', htr, -, -⟩ := hearSymbol_found hsearches found_answer hneg
    (Side.bitRate_of_init hinit _) (rawBits_s1At hsearches.turn)
  rw [show a + (m + lag + 24) = a + (m + lag + 23) + 1 by omega, hnext]
  exact ⟨hneg', .inl htr⟩

theorem caller_untrained (h : side.Starts lag a) (hinit : side.modem 0 = v22bisInit true 2400)
    (hlag : lag < 40) {m : Nat} (hears : HearsAnswer side lag a m) {n : Nat}
    (hn : n < a + (m + lag + 24)) : (side.modem n).rx.training ≠ .normalOperation := by
  rcases Nat.lt_or_ge (a + 365) n with hlate | hearly
  · rcases Nat.lt_or_ge (a + (m + lag)) n with hsearch | hsustain
    · have hsearches := (caller_searches h hinit hlag hears (j := n - (a + (m + lag + 1)))
        (by omega)).1
      rw [show a + (m + lag + (n - (a + (m + lag + 1))) + 1) = n by omega] at hsearches
      simp [hsearches.training]
    · have hsustains := (caller_sustains_answer h hinit hlag hears (k := n - (a + 366))
        (by omega)).rx
      rw [show a + (n - (a + 366) + 366) = n by omega] at hsustains
      simp [hsustains.training]
  · rcases (caller_hushed h hinit hearly).rx with hrx | hrx <;> simp [hrx]

end Caller

section Answerer

variable {side : Side} {lag a : Nat}

-- What an answerer hears up to its decision on heard symbol `i`: the caller's S1 burst.
structure HearsBurst (side : Side) (lag a i : Nat) : Prop where
  heard : ∀ j, j < i → side.hears (a + j) ≠ none
  burst : ∀ j, j + lag < i → side.hears (a + j) = some (s1At 0 j)

theorem HearsBurst.mono {i i' : Nat} (h : HearsBurst side lag a i) (hle : i' ≤ i) :
    HearsBurst side lag a i' :=
  ⟨fun j hj => h.heard j (by omega), fun j hj => h.burst j (by omega)⟩

theorem answerer_quiet (h : side.Starts lag a) (hinit : side.modem 0 = v22bisInit false 2400)
    {n : Nat} (hn : n ≤ a) : Warm n (side.modem n).tx := by
  induction n with
  | zero =>
      rw [hinit]
      exact ⟨fun _ => ⟨rfl, rfl⟩, by omega⟩
  | succ n ih =>
      rw [Side.modem_silent (h.quiet n hn)]
      exact (Side.sent_warm (ih (by omega))).2

theorem answerer_acquires (h : side.Starts lag a) (hinit : side.modem 0 = v22bisInit false 2400)
    {i : Nat} (hheard : ∀ j, j < i → side.hears (a + j) ≠ none) (hi : i < 40) :
    Warm (a + i) (side.modem (a + i)).tx := by
  induction i with
  | zero => exact answerer_quiet h hinit (Nat.le_refl a)
  | succ i ih =>
      have hwarm := ih (fun j hj => hheard j (by omega)) (by omega)
      have hacq := Side.acquires h hinit (i := i) (fun j hj => hheard j (by omega)) (by omega)
      obtain ⟨nearest, hnext, -⟩ := Side.modem_heard h (i := i) fun j hj => hheard j (by omega)
      rw [← Side.rx_sent] at hacq
      rw [← Nat.add_assoc, hnext, (hearSymbol_acquires nearest hacq (by omega)).2]
      exact (Side.sent_warm hwarm).2

-- An answerer that has had `j` decisions since it acquired, and goes on with unscrambled ones.
structure Searching (lag a : Nat) (raws : Nat → Fin 4) (j : Nat) (s : V22bisState) : Prop where
  rx : Searches raws j (if j = 0 then 0 else quadrantAfter s1Raw 0 (40 - lag + j)) s.rx
  negotiated : s.negotiatedBitRate = 1200
  tx : Warm (a + (j + 40)) s.tx

theorem rawBits_searching {raws : Nat → Fin 4} {j m : Nat} {r : Rx} (hfrom : SearchFrom lag raws m)
    (h : Searches raws j (if j = 0 then 0 else quadrantAfter s1Raw 0 (40 - lag + j)) r) :
    rawBits r (s1At 0 (40 - lag + j)) = raws j := by
  cases j with
  | zero => rw [rawBits, quadrant_s1At, h.turn, if_pos rfl, Nat.add_zero, hfrom.first]
  | succ j =>
      rw [rawBits_s1At (k := 40 - lag + (j + 1)), hfrom.later]
      rw [h.turn, if_neg (by omega)]

theorem answerer_searches (h : side.Starts lag a) (hinit : side.modem 0 = v22bisInit false 2400)
    (hlag : lag < 40) {raws : Nat → Fin 4} {m : Nat} (hfrom : SearchFrom lag raws m) {j : Nat}
    (hj : j < m + 2) (hears : HearsBurst side lag a (j + 40)) :
    Searching lag a raws j (side.modem (a + (j + 40))) := by
  induction j with
  | zero =>
      have hwarm := answerer_acquires h hinit (i := 39) (fun j hj => hears.heard j (by omega))
        (by omega)
      have hacq := Side.acquires h hinit (i := 39) (fun j hj => hears.heard j (by omega)) (by omega)
      obtain ⟨nearest, hnext, -⟩ := Side.modem_heard h (i := 39)
        fun j hj => hears.heard j (by omega)
      rw [← Side.rx_sent] at hacq
      obtain ⟨-, hsearches, htx, hneg⟩ := hearSymbol_acquired nearest hacq
      have hanswer : (side.sent (a + 39)).callingParty = false :=
        Side.callingParty_sent.trans (Side.callingParty_of_init hinit _)
      rw [show a + (0 + 40) = a + 39 + 1 by omega, hnext]
      refine ⟨hsearches hanswer raws, hneg, ?_⟩
      rw [htx]
      exact (Side.sent_warm hwarm).2
  | succ j ih =>
      obtain ⟨hsearches, hneg, hwarm⟩ := ih (by omega) (hears.mono (by omega))
      have hnext := Side.modem_decided h (i := j + 40) (fun k hk => hears.heard k (by omega))
        (by omega) (hears.burst _ (by omega))
      rw [show j + 40 - lag = 40 - lag + j by omega] at hnext
      rw [← Side.rx_sent] at hsearches
      rw [← Side.negotiated_sent] at hneg
      have hwarmth := hfrom.inside
      obtain ⟨hsearches', htx, hneg'⟩ := hearSymbol_searches hsearches hneg
        (rawBits_searching hfrom hsearches) (by omega) (hfrom.found.few (j + 1) (by omega))
      rw [show a + (j + 1 + 40) = a + (j + 40) + 1 by omega, hnext]
      refine ⟨?_, hneg', ?_⟩
      · rw [quadrant_s1At] at hsearches'
        rwa [if_neg (by omega), ← Nat.add_assoc]
      · rw [htx]
        exact (Side.sent_warm hwarm).2

-- An answerer that found S1 `k` symbols ago, when it had sent `n` of unscrambled ones.
structure Answering (n k : Nat) (s : V22bisState) : Prop where
  negotiated : s.negotiatedBitRate = 2400
  training : s.rx.training = .scrambledOnesAt1200
  count : s.rx.trainingCount ≤ k
  bursting : k < 60 → Bursting (onesQuadrant n) k s.tx
  burst : 60 ≤ k → Burst s.callingParty (k - 60) s.tx

theorem answerer_finds (h : side.Starts lag a) (hinit : side.modem 0 = v22bisInit false 2400)
    (hlag : lag < 40) (ha : 45 ≤ a) {raws : Nat → Fin 4} {m : Nat} (hfrom : SearchFrom lag raws m)
    (hears : HearsBurst side lag a (m + 42)) :
    Answering (a + (m + 42) - 45) 0 (side.modem (a + (m + 42))) := by
  obtain ⟨hsearches, hneg, hwarm⟩ := answerer_searches h hinit hlag hfrom (j := m + 1) (by omega)
    (hears.mono (by omega))
  have hnext := Side.modem_decided h (i := m + 41) (fun k hk => hears.heard k (by omega))
    (by omega) (hears.burst _ (by omega))
  rw [show m + 41 - lag = 40 - lag + (m + 1) by omega] at hnext
  rw [show a + (m + 1 + 40) = a + (m + 41) by omega] at hsearches hneg hwarm
  rw [← Side.rx_sent] at hsearches
  rw [← Side.negotiated_sent] at hneg
  have hanswer : (side.sent (a + (m + 41))).callingParty = false :=
    Side.callingParty_sent.trans (Side.callingParty_of_init hinit _)
  obtain ⟨hneg', htr, hcount, hburst⟩ := hearSymbol_found hsearches hfrom.found hneg
    (Side.bitRate_of_init hinit _) (rawBits_searching hfrom hsearches)
  have hquadrant := ((Side.sent_warm hwarm).2.after (by omega)).2
  rw [show a + (m + 42) = a + (m + 41) + 1 by omega, hnext]
  refine ⟨hneg', htr, Nat.le_of_eq hcount, fun _ => ?_, by omega⟩
  rw [← hquadrant]
  exact hburst hanswer

theorem answerer_answers {e n : Nat} (h : Answering n 0 (side.modem e)) {k : Nat} (hk : k < 200) :
    Answering n k (side.modem (e + k)) := by
  induction k with
  | zero => exact h
  | succ k ih =>
      obtain ⟨hneg, htr, hcount, hbursting, hburst⟩ := ih (by omega)
      have hsent : Answering n (k + 1) (side.sent (e + k)) := by
        refine ⟨Side.negotiated_sent.trans hneg, (congrArg _ Side.rx_sent).trans htr, ?_,
          fun hk => ?_, fun hk => ?_⟩
        · rw [Side.rx_sent]
          omega
        · exact (Side.sent_bursting (hbursting (by omega))).2.1 hk
        · rw [Side.callingParty_sent]
          rcases Nat.eq_or_lt_of_le hk with hk | hk
          · rw [show k + 1 - 60 = 0 by omega]
            exact (Side.sent_bursting (hbursting (by omega))).2.2 hk.symm
          · rw [show k + 1 - 60 = k - 60 + 1 by omega]
            exact (Side.sent_burst (hburst (by omega)) (by omega)).2
      rcases side.modem_next (e + k) with hnext | ⟨nearest, hnext⟩
      · rw [← Nat.add_assoc, hnext]
        exact hsent
      · have hcall : (hearSymbol (side.sent (e + k)) nearest).callingParty =
            (side.sent (e + k)).callingParty := processBaud_callingParty _ nearest
        have hagreed := (Agreed.mk hsent.negotiated (.inl hsent.training)).hear nearest
        obtain ⟨htr', hcount', htx⟩ := hearSymbol_counts (k := k) nearest hsent.negotiated
          hsent.training (by rwa [Side.rx_sent]) (by omega)
        rw [← Nat.add_assoc, hnext]
        refine ⟨hagreed.negotiated, htr', hcount', ?_, ?_⟩
        · rw [htx]
          exact hsent.bursting
        · rw [htx, hcall]
          exact hsent.burst

theorem answerer_sends {e n : Nat} (h : Answering n 0 (side.modem e)) {k : Nat} (hk : k < 200) :
    side.sends (e + k) ≠ none ∧
      (k < 60 → side.sends (e + k) = some (s1At (onesQuadrant n) k)) := by
  obtain ⟨-, -, -, hbursting, hburst⟩ := answerer_answers h hk
  by_cases hk : k < 60
  · rw [(Side.sent_bursting (hbursting hk)).1]
    exact ⟨Option.some_ne_none _, fun _ => rfl⟩
  · exact ⟨(Side.sent_burst (hburst (by omega)) (by omega)).1, fun hlt => absurd hlt hk⟩

end Answerer

end Softmodem.V22bis

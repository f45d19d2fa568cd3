import Softmodem.V22bis.Link

-- Two modems configured for 2400: what each sends and decides while they train.
namespace Softmodem.V22bis

def quadrantAfter (raws : Nat → Fin 4) (q : Fin 4) : Nat → Fin 4
  | 0 => q
  | k + 1 => quadrantAfter raws q k + phaseSteps (raws k)

def onesQuadrant : Nat → Fin 4 := quadrantAfter (fun _ => 3) 0

def onesAt (k : Nat) : Symbol := constellationIndex (onesQuadrant (k + 1)) 1

def s1Raw (k : Nat) : Fin 4 := if k % 2 = 1 then 3 else 0

def s1At (q : Fin 4) (k : Nat) : Symbol := constellationIndex (quadrantAfter s1Raw q (k + 1)) 1

def historyOf (raws : Nat → Fin 4) : Nat → BitVec 64
  | 0 => 0
  | k + 1 => historyOf raws k <<< 2 ||| BitVec.ofNat 64 (raws k).val

-- The search over these decisions first sees its 23 alternations at decision `m + 1`.
structure FoundAt (raws : Nat → Fin 4) (m : Nat) : Prop where
  warm : 14 ≤ m
  few : ∀ k, k < m + 2 → historyAlternations (historyOf raws k) < 23
  enough : 23 ≤ historyAlternations (historyOf raws (m + 2))
  edge : isS1Edge (raws m)

-- A search that starts on a symbol of an S1 burst; its first decision may be on anything.
def searched (first : Fin 4) (e : Nat) : Nat → Fin 4
  | 0 => first
  | k + 1 => s1Raw (e + (k + 1))

theorem found_even : FoundAt (searched 0 0) 22 :=
  ⟨by decide, by decide +kernel, by decide +kernel, by decide⟩

theorem found_odd : FoundAt (searched 1 1) 23 :=
  ⟨by decide, by decide +kernel, by decide +kernel, by decide⟩

theorem found_answer : FoundAt (searched 3 1) 21 :=
  ⟨by decide, by decide +kernel, by decide +kernel, by decide⟩

theorem rawBits_turn {r : Rx} {q : Fin 4} (raw : Fin 4) (h : quadrant r.constellationState = q) :
    rawBits r (constellationIndex (q + phaseSteps raw) 1) = raw := by
  have hturn : ∀ q raw : Fin 4, phaseSteps (q + phaseSteps raw - q) = raw := by decide
  rw [rawBits, quadrant_constellationIndex, h, hturn]

theorem quadrantAfter_s1 (k : Nat) :
    quadrantAfter s1Raw 0 k = if k % 2 = 1 then 1 else 0 := by
  induction k with
  | zero => rfl
  | succ k ih =>
      rcases Nat.mod_two_eq_zero_or_one k with hk | hk
      · have hnext : (k + 1) % 2 = 1 := by omega
        simp [quadrantAfter, s1Raw, ih, hk, hnext, phaseSteps]
      · have hnext : (k + 1) % 2 = 0 := by omega
        simp only [quadrantAfter, s1Raw, ih, hk, hnext]
        decide

-- What an answerer decides once it has acquired, from the symbol of the burst its lag puts there.
structure SearchFrom (lag : Nat) (raws : Nat → Fin 4) (m : Nat) : Prop where
  first : phaseSteps (quadrantAfter s1Raw 0 (40 - lag + 1) - 0) = raws 0
  later : ∀ k, raws (k + 1) = s1Raw (40 - lag + (k + 1))
  found : FoundAt raws m
  inside : m + 41 < lag + 60

theorem searchFrom_exists {lag : Nat} (hmin : 4 ≤ lag) (hlag : lag < 40) :
    ∃ raws m, SearchFrom lag raws m := by
  rcases Nat.mod_two_eq_zero_or_one (40 - lag) with hparity | hparity
  · refine ⟨searched 0 0, 22, ?_, fun k => ?_, found_even, by omega⟩
    · have hnext : (40 - lag + 1) % 2 = 1 := by omega
      rw [quadrantAfter_s1, if_pos hnext]
      decide
    · rw [searched, s1Raw, s1Raw]
      congr 2
      omega
  · refine ⟨searched 1 1, 23, ?_, fun k => ?_, found_odd, by omega⟩
    · have hnext : ¬ (40 - lag + 1) % 2 = 1 := by omega
      rw [quadrantAfter_s1, if_neg hnext]
      decide
    · rw [searched, s1Raw, s1Raw]
      congr 2
      omega

theorem quadrant_onesAt (k : Nat) : quadrant (onesAt k) = onesQuadrant (k + 1) :=
  quadrant_constellationIndex ..

theorem quadrant_s1At (q : Fin 4) (k : Nat) :
    quadrant (s1At q k) = quadrantAfter s1Raw q (k + 1) :=
  quadrant_constellationIndex ..

theorem rawBits_onesAt {r : Rx} {k : Nat} (h : quadrant r.constellationState = onesQuadrant k) :
    rawBits r (onesAt k) = 3 :=
  rawBits_turn 3 h

theorem rawBits_s1At {r : Rx} {q : Fin 4} {k : Nat}
    (h : quadrant r.constellationState = quadrantAfter s1Raw q k) :
    rawBits r (s1At q k) = s1Raw k :=
  rawBits_turn (s1Raw k) h

theorem decodeBaudx_eq (r : Rx) (nearest : Symbol) :
    ∃ reg count, (decodeBaudx r nearest).1 =
      { r with
        constellationState := nearest, scrambleReg := reg, scramblerPatternCount := count } := by
  simp only [decodeBaudx]
  split
  · exact ⟨_, _, rfl⟩
  · exact ⟨_, _, rfl⟩

section Transmitting

variable {s : V22bisState}

structure Silent (t : Tx) : Prop where
  training : t.training = .initialSilence
  constellation : t.constellationState = 0

-- The transmitter of an answerer that has heard nothing to answer, after `n` symbols.
structure Warm (n : Nat) (t : Tx) : Prop where
  before : n < 45 → t.training = .initialTimedSilence ∧ t.trainingCount = n
  after : 45 ≤ n → t.training = .u11 ∧ t.constellationState = onesQuadrant (n - 45)

theorem silent_tick (h : Silent s.tx) :
    (trainingGet s).1 = none ∧ Silent (trainingGet s).2.1.tx := by
  simp only [trainingGet, h.training]
  exact ⟨trivial, rfl, rfl⟩

theorem warm_tick {n : Nat} (h : Warm n s.tx) :
    (trainingGet s).1 = (if n < 45 then none else some (onesAt (n - 45))) ∧
      Warm (n + 1) (trainingGet s).2.1.tx := by
  by_cases hn : n < 45
  · obtain ⟨htr, hcount⟩ := h.before hn
    simp only [trainingGet, htr, hcount, if_pos hn]
    refine ⟨trivial, fun hbefore => ?_, fun hafter => ?_⟩
    · rw [if_neg (by simp [msToSymbols]; omega)]
      exact ⟨rfl, rfl⟩
    · obtain rfl : n = 44 := by omega
      exact ⟨rfl, rfl⟩
  · obtain ⟨htr, hq⟩ := h.after (by omega)
    have hnext : n + 1 - 45 = n - 45 + 1 := by omega
    simp only [trainingGet, htr, advance, hq, if_neg hn]
    refine ⟨rfl, fun hbefore => by omega, fun _ => ⟨rfl, ?_⟩⟩
    rw [hnext]
    rfl

structure Bursting (q : Fin 4) (k : Nat) (t : Tx) : Prop where
  training : t.training = .u0011
  count : t.trainingCount = k
  constellation : t.constellationState = quadrantAfter s1Raw q k

inductive Burst (callingParty : Bool) (k : Nat) (t : Tx) : Prop where
  | caller (h : callingParty = true) (training : t.training = .s11)
  | answerer (h : callingParty = false) (training : t.training = .timedS11)
      (count : t.trainingCount = 153 + k)

theorem bursting_tick {q : Fin 4} {k : Nat} (h : Bursting q k s.tx) :
    (trainingGet s).1 = some (s1At q k) ∧
      (k + 1 < 60 → Bursting q (k + 1) (trainingGet s).2.1.tx) ∧
      (k + 1 = 60 → Burst s.callingParty 0 (trainingGet s).2.1.tx) := by
  obtain ⟨htr, hcount, hq⟩ := h
  have hraw : (if k % 2 = 1 then (3 : Fin 4) else 0) = s1Raw k := rfl
  simp only [trainingGet, htr, advance, hcount, hq, hraw]
  refine ⟨?_, fun hk => ?_, fun hk => ?_⟩
  · split_ifs <;> rfl
  · rw [if_neg (by simp [msToSymbols]; omega)]
    exact ⟨rfl, rfl, rfl⟩
  · rw [if_pos (by simp [msToSymbols]; omega)]
    cases hcall : s.callingParty with
    | true => exact .caller rfl rfl
    | false => exact .answerer rfl rfl rfl

theorem burst_tick {k : Nat} (h : Burst s.callingParty k s.tx)
    (hk : s.callingParty = false → k < 299) :
    (trainingGet s).1.isSome ∧ Burst s.callingParty (k + 1) (trainingGet s).2.1.tx := by
  cases h with
  | caller hcall htr =>
      simp only [trainingGet, htr]
      exact ⟨rfl, .caller hcall (by simp [sendS11, advance, scrambledOnes, scramble_frame, htr])⟩
  | answerer hcall htr hcount =>
      have hk := hk hcall
      simp only [trainingGet, htr, hcount]
      rw [if_neg (by simp [msToSymbols]; omega)]
      exact ⟨rfl, .answerer hcall (by simp [sendS11, advance, scrambledOnes, scramble_frame])
        (by simp [sendS11, advance, scrambledOnes, scramble]; omega)⟩

end Transmitting

section Receiving

structure Acquires (i : Nat) (r : Rx) : Prop where
  training : r.training = .symbolAcquisition
  count : r.trainingCount = i
  constellation : r.constellationState = 0
  history : r.rawHistory = 0
  searched : r.rawHistCount = 0

-- A caller that has heard `i` symbols, and decided unscrambled ones on those past its acquisition.
structure HearsOnes (i : Nat) (q : Fin 4) (r : Rx) : Prop where
  training : r.training = .unscrambledOnes
  count : r.trainingCount = i
  history : r.rawHistory = 0
  searched : r.rawHistCount = 0
  turn : 40 < i → quadrant r.constellationState = q
  repeats : i ≤ 42 + r.patternRepeats
  last : 41 < i → r.lastRawBits = 3

structure Sustains (q : Fin 4) (r : Rx) : Prop where
  training : r.training = .unscrambledOnesSustaining
  history : r.rawHistory = 0
  searched : r.rawHistCount = 0
  turn : quadrant r.constellationState = q
  last : r.lastRawBits = 3

structure Searches (raws : Nat → Fin 4) (m : Nat) (q : Fin 4) (r : Rx) : Prop where
  training : r.training = .scrambledOnesAt1200
  history : r.rawHistory = historyOf raws m
  searched : r.rawHistCount = m
  repeats : r.patternRepeats = 0
  turn : quadrant r.constellationState = q
  last : ∀ k, m = k + 1 → r.lastRawBits = raws k
  early : r.trainingCount ≤ 40 + m

-- A receiver that has found S1: nothing it hears takes the rate away again.
structure Agreed (s : V22bisState) : Prop where
  negotiated : s.negotiatedBitRate = 2400
  training : s.rx.training = .scrambledOnesAt1200 ∨
    s.rx.training = .waitForScrambledOnesAt2400 ∨ s.rx.training = .normalOperation

variable {s : V22bisState}

theorem hearSymbol_acquires {i : Nat} (nearest : Symbol) (h : Acquires i s.rx) (hi : i < 39) :
    Acquires (i + 1) (hearSymbol s nearest).rx ∧ (hearSymbol s nearest).tx = s.tx := by
  obtain ⟨htr, hcount, hstate, hhist, hsearched⟩ := h
  simp only [hearSymbol, signalUp, processBaud, trainingSwitch, htr, rxSymbolAcquisition, hcount]
  rw [if_neg (by omega)]
  split
  · exact ⟨⟨rfl, rfl, hstate, hhist, hsearched⟩, rfl⟩
  · exact ⟨⟨rfl, rfl, hstate, hhist, hsearched⟩, rfl⟩

theorem hearSymbol_acquired (nearest : Symbol) (h : Acquires 39 s.rx) :
    (s.callingParty = true → ∀ q, HearsOnes 40 q (hearSymbol s nearest).rx) ∧
      (s.callingParty = false → ∀ raws, Searches raws 0 0 (hearSymbol s nearest).rx) ∧
      (hearSymbol s nearest).tx = s.tx ∧ (hearSymbol s nearest).negotiatedBitRate = 1200 := by
  obtain ⟨htr, hcount, hstate, hhist, hsearched⟩ := h
  simp only [hearSymbol, signalUp, processBaud, trainingSwitch, htr, rxSymbolAcquisition, hcount]
  rw [if_pos (by omega)]
  refine ⟨fun hcall q => ?_, fun hcall raws => ?_, rfl, rfl⟩
  · exact ⟨by simp [hcall], rfl, hhist, hsearched, by simp, by simp, by simp⟩
  · exact ⟨by simp [hcall], hhist, hsearched, rfl, by simp [hstate]; rfl, by simp, by simp⟩

theorem hearSymbol_ones {i : Nat} {q : Fin 4} {nearest : Symbol} (h : HearsOnes i q s.rx)
    (hraw : 40 < i → rawBits s.rx nearest = 3) (hi : i < 365) :
    HearsOnes (i + 1) (quadrant nearest) (hearSymbol s nearest).rx ∧
      (hearSymbol s nearest).tx = s.tx ∧
      (hearSymbol s nearest).negotiatedBitRate = s.negotiatedBitRate := by
  obtain ⟨htr, hcount, hhist, hsearched, -, hrepeats, hlast⟩ := h
  simp only [hearSymbol, signalUp, processBaud, trainingSwitch, htr, rxUnscrambledOnes, hcount]
  rw [if_neg (by simp [msToSymbols]; omega)]
  refine ⟨⟨rfl, rfl, hhist, hsearched, fun _ => rfl, ?_, fun hi => hraw (by omega)⟩, rfl, rfl⟩
  by_cases hlate : 41 < i
  · have h3 : rawBits s.rx nearest = s.rx.lastRawBits := (hraw (by omega)).trans (hlast hlate).symm
    change i + 1 ≤ 42 + if rawBits s.rx nearest ≠ s.rx.lastRawBits then 0
      else s.rx.patternRepeats + 1
    rw [if_neg (by simpa using h3)]
    omega
  · simp only
    omega

theorem hearSymbol_sustaining {q : Fin 4} {nearest : Symbol} (h : HearsOnes 365 q s.rx)
    (hraw : rawBits s.rx nearest = 3) (hrate : s.bitRate = 2400)
    (hq : s.tx.constellationState = 0) :
    Sustains (quadrant nearest) (hearSymbol s nearest).rx ∧
      Bursting 0 0 (hearSymbol s nearest).tx ∧
      (hearSymbol s nearest).negotiatedBitRate = s.negotiatedBitRate := by
  obtain ⟨htr, hcount, hhist, hsearched, -, hrepeats, hlast⟩ := h
  have hlast := hlast (by omega)
  simp only [rawBits] at hraw
  simp only [hearSymbol, signalUp, processBaud, trainingSwitch, htr, rxUnscrambledOnes, rawBits,
    hcount, hraw, hlast, hrate]
  rw [if_pos (by simp [msToSymbols]), if_pos (by simp [msToSymbols, isS1Edge]; omega)]
  exact ⟨⟨rfl, hhist, hsearched, rfl, rfl⟩, ⟨by simp, rfl, hq⟩, rfl⟩

theorem hearSymbol_sustains {q : Fin 4} {nearest : Symbol} (h : Sustains q s.rx)
    (hraw : rawBits s.rx nearest = 3) :
    Sustains (quadrant nearest) (hearSymbol s nearest).rx ∧ (hearSymbol s nearest).tx = s.tx ∧
      (hearSymbol s nearest).negotiatedBitRate = s.negotiatedBitRate := by
  obtain ⟨htr, hhist, hsearched, -, hlast⟩ := h
  simp only [rawBits] at hraw
  simp only [hearSymbol, signalUp, processBaud, trainingSwitch, htr, rxUnscrambledOnesSustaining,
    rawBits, hraw, hlast]
  rw [if_neg (by simp)]
  exact ⟨⟨rfl, hhist, hsearched, rfl, rfl⟩, rfl, rfl⟩

theorem hearSymbol_answered {q : Fin 4} {nearest : Symbol} (raws : Nat → Fin 4)
    (h : Sustains q s.rx) (hraw : rawBits s.rx nearest ≠ 3) :
    Searches raws 0 (quadrant nearest) (hearSymbol s nearest).rx ∧
      (hearSymbol s nearest).negotiatedBitRate = s.negotiatedBitRate := by
  obtain ⟨htr, hhist, hsearched, -, hlast⟩ := h
  simp only [rawBits] at hraw
  simp only [hearSymbol, signalUp, processBaud, trainingSwitch, htr, rxUnscrambledOnesSustaining,
    rawBits, hlast]
  rw [if_pos hraw]
  exact ⟨⟨rfl, hhist, hsearched, rfl, rfl, by simp, by simp⟩, rfl⟩

theorem searchS1_few {raws : Nat → Fin 4} {m : Nat} {r : Rx}
    (hhist : r.rawHistory = historyOf raws m) (hsearched : r.rawHistCount = m)
    (hrepeats : r.patternRepeats = 0)
    (hfew : historyAlternations (historyOf raws (m + 1)) < 23) :
    searchS1 r (raws m) =
      { r with rawHistory := historyOf raws (m + 1), rawHistCount := m + 1 } := by
  have hnext : r.rawHistory <<< 2 ||| BitVec.ofNat 64 (raws m).val = historyOf raws (m + 1) := by
    rw [hhist]
    rfl
  have hnone : ¬ (23 ≤ historyAlternations (historyOf raws (m + 1)) ∧ isS1Edge r.lastRawBits) := by
    omega
  simp only [searchS1, hnext, hsearched, ge_iff_le, if_neg hnone]
  split
  · rw [← hrepeats]
  · rfl

theorem rxScrambledOnesAt1200_few {raws : Nat → Fin 4} {m : Nat} {q : Fin 4} {nearest : Symbol}
    (h : Searches raws m q s.rx) (hneg : s.negotiatedBitRate = 1200)
    (hraw : rawBits s.rx nearest = raws m) (hm : m < 100)
    (hfew : historyAlternations (historyOf raws (m + 1)) < 23) :
    ∃ reg count, rxScrambledOnesAt1200 s nearest =
      ({ s with rx := { s.rx with
          constellationState := nearest, scrambleReg := reg, scramblerPatternCount := count
          trainingCount := s.rx.trainingCount + 1
          rawHistory := historyOf raws (m + 1), rawHistCount := m + 1 } }, [], raws m) := by
  obtain ⟨reg, count, hdecoded⟩ := decodeBaudx_eq s.rx nearest
  refine ⟨reg, count, ?_⟩
  have hsearch : searchS1 { (decodeBaudx s.rx nearest).1 with
      trainingCount := (decodeBaudx s.rx nearest).1.trainingCount + 1 } (raws m) =
      { s.rx with
          constellationState := nearest, scrambleReg := reg, scramblerPatternCount := count
          trainingCount := s.rx.trainingCount + 1
          rawHistory := historyOf raws (m + 1), rawHistCount := m + 1 } := by
    rw [hdecoded]
    exact searchS1_few h.history h.searched h.repeats hfew
  simp only [rxScrambledOnesAt1200, hraw, hsearch, hneg, if_true]
  rw [if_neg (by simp [h.repeats]), if_neg (by have := h.early; simp [msToSymbols]; omega)]

theorem searchS1_found {raws : Nat → Fin 4} {m : Nat} {r : Rx} (hfound : FoundAt raws m)
    (hhist : r.rawHistory = historyOf raws (m + 1)) (hsearched : r.rawHistCount = m + 1)
    (hlast : r.lastRawBits = raws m) :
    23 ≤ (searchS1 r (raws (m + 1))).patternRepeats ∧
      (searchS1 r (raws (m + 1))).lastRawBits = raws m := by
  have hnext : r.rawHistory <<< 2 ||| BitVec.ofNat 64 (raws (m + 1)).val =
      historyOf raws (m + 2) := by
    rw [hhist]
    rfl
  have hwarm := hfound.warm
  simp only [searchS1, hnext, hsearched, hlast]
  rw [if_pos (by omega), if_pos ⟨hfound.enough, hfound.edge⟩]
  exact ⟨hfound.enough, rfl⟩

theorem rxScrambledOnesAt1200_found {raws : Nat → Fin 4} {m : Nat} {q : Fin 4} {nearest : Symbol}
    (h : Searches raws (m + 1) q s.rx) (hfound : FoundAt raws m)
    (hneg : s.negotiatedBitRate = 1200) (hrate : s.bitRate = 2400)
    (hraw : rawBits s.rx nearest = raws (m + 1)) :
    ∃ r, rxScrambledOnesAt1200 s nearest =
        ({ s with
            rx := r
            tx := if s.callingParty then s.tx
              else { s.tx with training := .u0011, trainingCount := 0 }
            negotiatedBitRate := 2400 }, [], raws (m + 1)) ∧
      r.training = .scrambledOnesAt1200 ∧ r.trainingCount = 0 := by
  obtain ⟨reg, count, hdecoded⟩ := decodeBaudx_eq s.rx nearest
  obtain ⟨hrepeats, hlast⟩ := searchS1_found (r := { (decodeBaudx s.rx nearest).1 with
    trainingCount := (decodeBaudx s.rx nearest).1.trainingCount + 1 }) hfound
    (by rw [hdecoded]; exact h.history) (by rw [hdecoded]; exact h.searched)
    (by rw [hdecoded]; exact h.last m rfl)
  simp only [rxScrambledOnesAt1200, hraw, hneg, if_true]
  rw [if_pos ⟨hrepeats, hlast ▸ hfound.edge⟩, if_pos hrate]
  refine ⟨_, rfl, ?_, rfl⟩
  simp [searchS1_training, decodeBaudx_training, h.training]

theorem processBaud_scrambledOnes (nearest : Symbol) (h : s.rx.training = .scrambledOnesAt1200) :
    processBaud s nearest =
      ({ (rxScrambledOnesAt1200 s nearest).1 with
          rx := { (rxScrambledOnesAt1200 s nearest).1.rx with
            lastRawBits := (rxScrambledOnesAt1200 s nearest).2.2 } },
        (rxScrambledOnesAt1200 s nearest).2.1) := by
  rw [processBaud, trainingSwitch, h]

theorem Searches.signalUp {raws : Nat → Fin 4} {m : Nat} {q : Fin 4}
    (h : Searches raws m q s.rx) : Searches raws m q (signalUp s).rx :=
  ⟨h.training, h.history, h.searched, h.repeats, h.turn, h.last, h.early⟩

theorem hearSymbol_searches {raws : Nat → Fin 4} {m : Nat} {q : Fin 4} {nearest : Symbol}
    (h : Searches raws m q s.rx) (hneg : s.negotiatedBitRate = 1200)
    (hraw : rawBits s.rx nearest = raws m) (hm : m < 100)
    (hfew : historyAlternations (historyOf raws (m + 1)) < 23) :
    Searches raws (m + 1) (quadrant nearest) (hearSymbol s nearest).rx ∧
      (hearSymbol s nearest).tx = s.tx ∧ (hearSymbol s nearest).negotiatedBitRate = 1200 := by
  obtain ⟨reg, count, heq⟩ := rxScrambledOnesAt1200_few
    (s := signalUp s) h.signalUp hneg hraw hm hfew
  rw [hearSymbol, processBaud_scrambledOnes nearest h.signalUp.training, heq]
  refine ⟨⟨h.training, rfl, rfl, h.repeats, rfl, ?_, ?_⟩, rfl, hneg⟩
  · rintro k ⟨⟩
    rfl
  · change s.rx.trainingCount + 1 ≤ 40 + (m + 1)
    have := h.early
    omega

theorem hearSymbol_found {raws : Nat → Fin 4} {m : Nat} {q : Fin 4} {nearest : Symbol}
    (h : Searches raws (m + 1) q s.rx) (hfound : FoundAt raws m)
    (hneg : s.negotiatedBitRate = 1200) (hrate : s.bitRate = 2400)
    (hraw : rawBits s.rx nearest = raws (m + 1)) :
    (hearSymbol s nearest).negotiatedBitRate = 2400 ∧
      (hearSymbol s nearest).rx.training = .scrambledOnesAt1200 ∧
      (hearSymbol s nearest).rx.trainingCount = 0 ∧
      (s.callingParty = false →
        Bursting s.tx.constellationState 0 (hearSymbol s nearest).tx) := by
  obtain ⟨r, heq, htr, hcount⟩ := rxScrambledOnesAt1200_found
    (s := signalUp s) h.signalUp hfound hneg hrate hraw
  rw [hearSymbol, processBaud_scrambledOnes nearest h.signalUp.training, heq]
  refine ⟨rfl, htr, hcount, fun hcall => ?_⟩
  have hanswer : (signalUp s).callingParty = false := hcall
  simp only [hanswer]
  exact ⟨rfl, rfl, rfl⟩

theorem rxScrambledOnesAt1200_counts {k : Nat} (nearest : Symbol)
    (hneg : s.negotiatedBitRate = 2400) (htr : s.rx.training = .scrambledOnesAt1200)
    (hcount : s.rx.trainingCount ≤ k) (hk : k < 269) :
    (rxScrambledOnesAt1200 s nearest).1.rx.training = .scrambledOnesAt1200 ∧
      (rxScrambledOnesAt1200 s nearest).1.rx.trainingCount ≤ k + 1 ∧
      (rxScrambledOnesAt1200 s nearest).1.tx = s.tx := by
  obtain ⟨reg, count, hdecoded⟩ := decodeBaudx_eq s.rx nearest
  have hbound : 270 ≤ if s.callingParty then msToSymbols (100 + 450) else msToSymbols 450 := by
    split <;> decide
  simp only [rxScrambledOnesAt1200, hdecoded, hneg]
  rw [if_neg (by decide), if_neg (by omega)]
  exact ⟨htr, by simp only; omega, rfl⟩

theorem hearSymbol_counts {k : Nat} (nearest : Symbol) (hneg : s.negotiatedBitRate = 2400)
    (htr : s.rx.training = .scrambledOnesAt1200) (hcount : s.rx.trainingCount ≤ k) (hk : k < 269) :
    (hearSymbol s nearest).rx.training = .scrambledOnesAt1200 ∧
      (hearSymbol s nearest).rx.trainingCount ≤ k + 1 ∧ (hearSymbol s nearest).tx = s.tx := by
  rw [hearSymbol, processBaud_scrambledOnes (s := signalUp s) nearest htr]
  exact rxScrambledOnesAt1200_counts
    (s := signalUp s) nearest hneg htr hcount hk

theorem trainingSwitch_stays (h : Agreed s) (nearest : Symbol) :
    Agreed (trainingSwitch s nearest).1 := by
  obtain ⟨hneg, htr | htr | htr⟩ := h
  · simp only [trainingSwitch, htr, rxScrambledOnesAt1200]
    rw [if_neg (by simp [hneg])]
    split_ifs
    · exact ⟨hneg, .inr (.inl rfl)⟩
    · exact ⟨hneg, .inl (by simp [decodeBaudx_training, htr])⟩
    · exact ⟨hneg, .inr (.inl rfl)⟩
    · exact ⟨hneg, .inl (by simp [decodeBaudx_training, htr])⟩
  · simp only [trainingSwitch, htr, rxWaitForScrambledOnesAt2400]
    split_ifs
    · exact ⟨hneg, .inr (.inr rfl)⟩
    · exact ⟨hneg, .inr (.inl (by simp [decodeBaudx_training, htr]))⟩
    · exact ⟨hneg, .inr (.inl (by simp [decodeBaudx_training, htr]))⟩
  · simp only [trainingSwitch, htr, rxNormalOperation]
    split_ifs
    · exact ⟨hneg, .inr (.inr (by simp [decodeBaud_training]))⟩
    · exact ⟨hneg, .inl (by simp [decodeBaud_training, equalizerReset])⟩
    · exact ⟨hneg, .inr (.inr (by simp [decodeBaud_training, htr]))⟩

theorem Agreed.hear (h : Agreed s) (nearest : Symbol) : Agreed (hearSymbol s nearest) := by
  obtain ⟨hneg, htr⟩ := trainingSwitch_stays
    (s := signalUp s) ⟨h.negotiated, h.training⟩ nearest
  exact ⟨hneg, htr⟩

end Receiving

end Softmodem.V22bis

import Softmodem.V22bis.Link

namespace Softmodem.V22bis

structure Settled1200 (s : V22bisState) : Prop where
  rate : s.bitRate = 1200
  negotiated : s.negotiatedBitRate = 1200
  training : s.tx.training ≠ .s1111

theorem trainingGet_settled {s : V22bisState} (h : Settled1200 s) :
    Settled1200 (trainingGet s).2.1 ∧ Plain (trainingGet s).1 := by
  obtain ⟨hrate, hneg, htr⟩ := h
  unfold trainingGet
  cases htx : s.tx.training with
  | s1111 => exact absurd htx htr
  | normalOperation => exact ⟨⟨hrate, hneg, htr⟩, plain_none⟩
  | parked => exact ⟨⟨hrate, hneg, htr⟩, plain_none⟩
  | initialSilence => exact ⟨⟨hrate, hneg, by simp [htx]⟩, plain_none⟩
  | initialTimedSilence =>
      refine ⟨⟨hrate, hneg, ?_⟩, plain_none⟩
      simp
      split <;> simp [htx]
  | u11 => exact ⟨⟨hrate, hneg, by simp [advance, htx]⟩, plain_quadrant _⟩
  | u0011 =>
      refine ⟨⟨hrate, hneg, ?_⟩, plain_quadrant _⟩
      simp [advance]
      split
      · split <;> simp
      · simp [htx]
  | s11 =>
      refine ⟨⟨hrate, hneg, ?_⟩, plain_quadrant _⟩
      simp [sendS11, advance, scrambledOnes, scramble_frame, htx]
  | timedS11 =>
      refine ⟨⟨hrate, hneg, ?_⟩, plain_quadrant _⟩
      simp [sendS11, advance, scrambledOnes, scramble_frame, hneg, enterNormalOperation]
      split <;> simp [htx]

theorem getbaud_settled {σ : Type*} (getBit : σ → Option Bool × σ) {s : V22bisState} (u : σ)
    (h : Settled1200 s) :
    Settled1200 (getbaud getBit s u).2.1 ∧ Plain (getbaud getBit s u).1 := by
  by_cases htx : s.tx.training = .normalOperation
  · obtain ⟨sym, t, u', heq, ht, hplain⟩ := getbaud_normal getBit u htx
    rw [heq]
    exact ⟨⟨h.rate, h.negotiated, by simp [ht]⟩, hplain h.negotiated⟩
  · rw [getbaud_training getBit u htx]
    exact trainingGet_settled h

theorem Settled1200.of_rxStep {s s' : V22bisState} (hs : Settled1200 s) (h : RxStep s s') :
    Settled1200 s' := by
  obtain ⟨hrate, hneg, htr⟩ := hs
  refine ⟨h.rate.trans hrate, ?_, ?_⟩
  · rcases h.negotiated with hn | hn | ⟨hr, -⟩
    · exact hn.trans hneg
    · exact hn
    · omega
  · rcases h.training with ht | ht | ht | ht
    · exact ht ▸ htr
    all_goals simp [ht]

structure OnesRun (r : Rx) (n : Nat) : Prop where
  bound : n ≤ 8
  count : 0 < n → r.scramblerPatternCount = 1
  low : ∀ k, k < n → r.scrambleReg.getLsbD (4 * k) = true ∧
    r.scrambleReg.getLsbD (4 * k + 1) = false
  high : ∀ k, k + 6 ≤ n → r.scrambleReg.getLsbD (4 * k + 3) = false
  mid : 5 ≤ n → r.scrambleReg.getLsbD 14 = false

theorem onesRun_zero (r : Rx) : OnesRun r 0 := by
  constructor <;> simp

def shiftedIn (reg : BitVec 32) (hi lo : Bool) : BitVec 32 :=
  (((reg.shiftConcat hi).shiftConcat lo).shiftConcat false).shiftConcat true

theorem shiftedIn_low (reg : BitVec 32) (hi lo : Bool) :
    (shiftedIn reg hi lo).getLsbD 0 = true ∧ (shiftedIn reg hi lo).getLsbD 1 = false ∧
      (shiftedIn reg hi lo).getLsbD 2 = lo ∧ (shiftedIn reg hi lo).getLsbD 3 = hi := by
  simp [shiftedIn]

theorem shiftedIn_high (reg : BitVec 32) (hi lo : Bool) {i : Nat} (h : i + 4 < 32) :
    (shiftedIn reg hi lo).getLsbD (i + 4) = reg.getLsbD i := by
  grind [shiftedIn]

theorem plain_bits {nearest : Symbol} (h : nearest.val % 4 = 1) :
    nearest.val.testBit 1 = false ∧ nearest.val.testBit 0 = true := by
  revert nearest
  decide

theorem descramble_out (r : Rx) (bit : Bool) (h : r.scramblerPatternCount < 64) :
    (descramble r bit).2 = (bit ^^ r.scrambleReg.getLsbD 13 ^^ r.scrambleReg.getLsbD 16) ∧
      (descramble r bit).1.scramblerPatternCount ≤ r.scramblerPatternCount + 1 ∧
      (descramble r bit).1.scrambleReg = r.scrambleReg.shiftConcat bit ∧
      (descramble r bit).1.sixteenWayDecisions = r.sixteenWayDecisions := by
  have hc : ¬ 64 ≤ r.scramblerPatternCount := by omega
  refine ⟨by simp [descramble, hc], ?_, rfl, rfl⟩
  simp only [descramble, hc, if_false]
  split <;> omega

theorem nibble_ones {a b c d : Bool}
    (h : (((a.toNat <<< 1 ||| b.toNat) <<< 1 ||| c.toNat) <<< 1 ||| d.toNat) = 0xF) :
    a = true ∧ b = true ∧ c = true ∧ d = true := by
  revert a b c d
  decide

theorem decodeBaudx_sixteen (r : Rx) (nearest : Symbol) (hsix : r.sixteenWayDecisions = true) :
    ∃ d₁ d₂ d₃ d₄, d₁ = descramble { r with constellationState := nearest }
        ((rawBits r nearest).val.testBit 1) ∧
      d₂ = descramble d₁.1 ((rawBits r nearest).val.testBit 0) ∧
      d₃ = descramble d₂.1 (nearest.val.testBit 1) ∧
      d₄ = descramble d₃.1 (nearest.val.testBit 0) ∧
      decodeBaudx r nearest = (d₄.1,
        ((d₁.2.toNat <<< 1 ||| d₂.2.toNat) <<< 1 ||| d₃.2.toNat) <<< 1 ||| d₄.2.toNat) := by
  refine ⟨_, _, _, _, rfl, rfl, rfl, rfl, ?_⟩
  simp only [decodeBaudx]
  rw [if_pos]
  simpa [descramble] using hsix

theorem decodeBaudx_plain (r : Rx) {nearest : Symbol} (hsix : r.sixteenWayDecisions = true)
    (h : nearest.val % 4 = 1) :
    ∃ hi lo, (decodeBaudx r nearest).1.scrambleReg = shiftedIn r.scrambleReg hi lo ∧
      (decodeBaudx r nearest).1.scramblerPatternCount = 1 ∧
      (decodeBaudx r nearest).1.training = r.training ∧
      (decodeBaudx r nearest).1.sixteenWayDecisions = true ∧
      (decodeBaudx r nearest).1.patternRepeats = r.patternRepeats ∧
      (r.scramblerPatternCount = 1 → (decodeBaudx r nearest).2 = 0xF →
        (hi ^^ r.scrambleReg.getLsbD 13 ^^ r.scrambleReg.getLsbD 16) = true ∧
        (lo ^^ r.scrambleReg.getLsbD 12 ^^ r.scrambleReg.getLsbD 15) = true ∧
        (r.scrambleReg.getLsbD 11 ^^ r.scrambleReg.getLsbD 14) = true ∧
        r.scrambleReg.getLsbD 10 = r.scrambleReg.getLsbD 13) := by
  obtain ⟨hb1, hb0⟩ := plain_bits h
  refine ⟨(rawBits r nearest).val.testBit 1, (rawBits r nearest).val.testBit 0,
    ?_, ?_, ?_, ?_, ?_, ?_⟩
  · simp [decodeBaudx, descramble, hsix, hb1, hb0, shiftedIn]
  · simp [decodeBaudx, descramble, hsix, hb1, hb0]
  · simp [decodeBaudx, descramble, hsix]
  · simp [decodeBaudx, descramble, hsix]
  · simp [decodeBaudx, descramble, hsix]
  · intro hcount hout
    obtain ⟨d₁, d₂, d₃, d₄, h₁, h₂, h₃, h₄, hdec⟩ := decodeBaudx_sixteen r nearest hsix
    rw [hdec] at hout
    obtain ⟨o₁, o₂, o₃, o₄⟩ := nibble_ones hout
    obtain ⟨e₁, c₁, g₁⟩ := h₁ ▸ descramble_out { r with constellationState := nearest }
      ((rawBits r nearest).val.testBit 1) (by simp [hcount])
    simp only [hcount] at c₁
    obtain ⟨e₂, c₂, g₂⟩ := h₂ ▸ descramble_out d₁.1 ((rawBits r nearest).val.testBit 0) (by omega)
    obtain ⟨e₃, c₃, g₃⟩ := h₃ ▸ descramble_out d₂.1 (nearest.val.testBit 1) (by omega)
    obtain ⟨e₄, -, -⟩ := h₄ ▸ descramble_out d₃.1 (nearest.val.testBit 0) (by omega)
    simp only [g₁, g₂, g₃, hb1, hb0, BitVec.getLsbD_shiftConcat] at e₁ e₂ e₃ e₄
    refine ⟨e₁ ▸ o₁, ?_, ?_, ?_⟩
    · simpa [o₂] using e₂.symm
    · simpa [o₃] using e₃.symm
    · simpa [o₄] using e₄.symm

theorem OnesRun.decode {r : Rx} {n : Nat} {nearest : Symbol} (hrun : OnesRun r n)
    (hsix : r.sixteenWayDecisions = true) (h : nearest.val % 4 = 1)
    (hout : (decodeBaudx r nearest).2 = 0xF) : OnesRun (decodeBaudx r nearest).1 (n + 1) := by
  obtain ⟨hi, lo, hreg, hcount, -, -, -, hbits⟩ := decodeBaudx_plain r hsix h
  obtain ⟨l0, l1, -, l3⟩ := shiftedIn_low r.scrambleReg hi lo
  have hbits (hn : 0 < n) := hbits (hrun.count hn) hout
  have hlt : n < 8 := by
    by_contra hfull
    have h11 : r.scrambleReg.getLsbD 11 = false := hrun.high 2 (by omega)
    have h14 := hrun.mid (by omega)
    have h3 := (hbits (by omega)).2.2.1
    rw [h11, h14] at h3
    cases h3
  constructor
  · exact hlt
  · intro _
    exact hcount
  · intro k hk
    rw [hreg]
    cases k with
    | zero => exact ⟨l0, l1⟩
    | succ k =>
        obtain ⟨h0, h1⟩ := hrun.low k (by omega)
        rw [← shiftedIn_high r.scrambleReg hi lo (by omega)] at h0 h1
        exact ⟨h0, h1⟩
  · intro k hk
    rw [hreg]
    cases k with
    | zero =>
        have h13 : r.scrambleReg.getLsbD 13 = false := (hrun.low 3 (by omega)).2
        have h16 : r.scrambleReg.getLsbD 16 = true := (hrun.low 4 (by omega)).1
        have h1 := (hbits (by omega)).1
        rw [h13, h16] at h1
        exact l3.trans (by simpa using h1)
    | succ k =>
        have h3 := hrun.high k (by omega)
        rwa [← shiftedIn_high r.scrambleReg hi lo (by omega)] at h3
  · intro hn
    have h13 := (hrun.low 3 (by omega)).2
    have h10 := (hbits (by omega)).2.2.2
    rw [hreg]
    exact (shiftedIn_high r.scrambleReg hi lo (by omega)).trans (h10.trans h13)

structure Unconfirmed (s : V22bisState) : Prop where
  either : s.negotiatedBitRate = 1200 ∧ s.rx.training ≠ .waitForScrambledOnesAt2400 ∨
    s.negotiatedBitRate = 2400 ∧ (s.rx.training = .scrambledOnesAt1200 ∨
      s.rx.training = .waitForScrambledOnesAt2400 ∧ s.rx.sixteenWayDecisions = true ∧
        OnesRun s.rx s.rx.patternRepeats)

theorem Unconfirmed.normal {s : V22bisState} (h : Unconfirmed s)
    (hn : s.rx.training = .normalOperation) : s.negotiatedBitRate = 1200 := by
  rcases h.either with ⟨hneg, -⟩ | ⟨-, hw | ⟨hw, -⟩⟩
  · exact hneg
  all_goals simp [hn] at hw

theorem trainingSwitch_before {s : V22bisState} (nearest : Symbol)
    (hneg : s.negotiatedBitRate = 1200) (htr : s.rx.training ≠ .waitForScrambledOnesAt2400) :
    Unconfirmed (trainingSwitch s nearest).1 := by
  unfold trainingSwitch
  cases hs : s.rx.training with
  | waitForScrambledOnesAt2400 => exact absurd hs htr
  | normalOperation =>
      simp only [rxNormalOperation]
      split
      · exact ⟨.inl ⟨hneg, by simp [decodeBaud_training, hs]⟩⟩
      · split
        · exact ⟨.inl ⟨hneg, by simp [decodeBaud_training, equalizerReset]⟩⟩
        · exact ⟨.inl ⟨hneg, by simp [decodeBaud_training, hs]⟩⟩
  | symbolAcquisition =>
      simp only [rxSymbolAcquisition]
      split
      · refine ⟨.inl ⟨rfl, ?_⟩⟩
        simp only
        split <;> simp
      · split <;> exact ⟨.inl ⟨hneg, by simp [hs]⟩⟩
  | unscrambledOnes =>
      simp only [rxUnscrambledOnes]
      split
      · exact ⟨.inl ⟨hneg, by simp⟩⟩
      · exact ⟨.inl ⟨hneg, by simp [hs]⟩⟩
  | unscrambledOnesSustaining =>
      simp only [rxUnscrambledOnesSustaining]
      split
      · exact ⟨.inl ⟨hneg, by simp⟩⟩
      · exact ⟨.inl ⟨hneg, by simp [hs]⟩⟩
  | scrambledOnesAt1200 =>
      simp only [rxScrambledOnesAt1200]
      rw [if_pos hneg]
      split
      · split
        · exact ⟨.inr ⟨rfl, .inl (by simp [searchS1_training, decodeBaudx_training, hs])⟩⟩
        · exact ⟨.inl ⟨hneg, by simp [searchS1_training, decodeBaudx_training, hs]⟩⟩
      · split
        · refine ⟨.inl ⟨hneg, ?_⟩⟩
          simp only
          split <;> simp
        · exact ⟨.inl ⟨hneg, by simp [searchS1_training, decodeBaudx_training, hs]⟩⟩
  | scrambledOnesAt1200Sustaining =>
      simp only [rxScrambledOnesAt1200Sustaining]
      split
      · exact ⟨.inl ⟨hneg, by simp⟩⟩
      · exact ⟨.inl ⟨hneg, by simp [decodeBaudx_training, hs]⟩⟩
  | parked => exact ⟨.inl ⟨hneg, by simp [hs]⟩⟩

theorem trainingSwitch_agreed {s : V22bisState} (nearest : Symbol)
    (hneg : s.negotiatedBitRate = 2400) (hs : s.rx.training = .scrambledOnesAt1200) :
    Unconfirmed (trainingSwitch s nearest).1 := by
  simp only [trainingSwitch, hs, rxScrambledOnesAt1200]
  rw [if_neg (by simp [hneg])]
  split_ifs
  all_goals first
    | exact ⟨.inr ⟨hneg, .inr ⟨rfl, rfl, onesRun_zero _⟩⟩⟩
    | exact ⟨.inr ⟨hneg, .inl (by simp [decodeBaudx_training, hs])⟩⟩

theorem trainingSwitch_waiting {s : V22bisState} {nearest : Symbol}
    (hneg : s.negotiatedBitRate = 2400) (hs : s.rx.training = .waitForScrambledOnesAt2400)
    (hsix : s.rx.sixteenWayDecisions = true) (hrun : OnesRun s.rx s.rx.patternRepeats)
    (hplain : nearest.val % 4 = 1) : Unconfirmed (trainingSwitch s nearest).1 := by
  obtain ⟨hi, lo, -, -, htr, hsix', hrepeats, -⟩ := decodeBaudx_plain s.rx hsix hplain
  simp only [trainingSwitch, hs, rxWaitForScrambledOnesAt2400]
  split
  · have hnext := hrun.decode hsix hplain ‹_›
    rw [if_neg (by have := hnext.bound; simp only [hrepeats]; omega)]
    refine ⟨.inr ⟨hneg, .inr ⟨htr.trans hs, hsix', ?_⟩⟩⟩
    simp only [hrepeats]
    exact ⟨hnext.bound, hnext.count, hnext.low, hnext.high, hnext.mid⟩
  · exact ⟨.inr ⟨hneg, .inr ⟨htr.trans hs, hsix', onesRun_zero _⟩⟩⟩

theorem trainingSwitch_unconfirmed {s : V22bisState} {nearest : Symbol} (h : Unconfirmed s)
    (hplain : nearest.val % 4 = 1) : Unconfirmed (trainingSwitch s nearest).1 := by
  rcases h.either with ⟨hneg, htr⟩ | ⟨hneg, htr | ⟨htr, hsix, hrun⟩⟩
  · exact trainingSwitch_before nearest hneg htr
  · exact trainingSwitch_agreed nearest hneg htr
  · exact trainingSwitch_waiting hneg htr hsix hrun hplain

theorem processBaud_unconfirmed {s : V22bisState} {nearest : Symbol} (h : Unconfirmed s)
    (hplain : nearest.val % 4 = 1) : Unconfirmed (processBaud s nearest).1 := by
  have hswitch := trainingSwitch_unconfirmed h hplain
  rcases hswitch.either with h | ⟨hneg, htr | ⟨htr, hsix, hrun⟩⟩
  · exact ⟨.inl h⟩
  · exact ⟨.inr ⟨hneg, .inl htr⟩⟩
  · exact ⟨.inr ⟨hneg, .inr ⟨htr, hsix, ⟨hrun.bound, hrun.count, hrun.low, hrun.high, hrun.mid⟩⟩⟩⟩

def PlainLine (line : Line) : Prop := ∀ sym ∈ line, Plain sym

theorem plainLine_replicate (d : Nat) : PlainLine (List.replicate d none) := by
  intro sym hsym
  rw [List.eq_of_mem_replicate hsym]
  exact plain_none

theorem Plain.getD {sym : Option Symbol} (h : Plain sym) (guess : Fin 4) :
    (sym.getD (constellationIndex guess 1)).val % 4 = 1 := by
  cases sym with
  | none => exact plain_quadrant guess _ rfl
  | some nearest => exact h nearest rfl

theorem Unconfirmed.of_rx {s s' : V22bisState} (h : Unconfirmed s)
    (hneg : s'.negotiatedBitRate = s.negotiatedBitRate) (hrx : s'.rx = s.rx) : Unconfirmed s' := by
  constructor
  rw [hneg, hrx]
  exact h.either

theorem Unconfirmed.signalUp {s : V22bisState} (h : Unconfirmed s) : Unconfirmed (signalUp s) := by
  constructor
  rcases h.either with h | ⟨hneg, htr | ⟨htr, hsix, hrun⟩⟩
  · exact .inl h
  · exact .inr ⟨hneg, .inl htr⟩
  · exact .inr ⟨hneg, .inr ⟨htr, hsix,
      ⟨hrun.bound, hrun.count, hrun.low, hrun.high, hrun.mid⟩⟩⟩

structure HearsPlain (p : Party) : Prop where
  unconfirmed : Unconfirmed p.modem
  pending : PlainLine p.pending

theorem HearsPlain.tick {p : Party} (h : HearsPlain p) (bits : List (Option Bool)) (guess : Fin 4)
    {heard : Option Symbol} (hplain : Plain heard) : HearsPlain (p.tick bits guess heard) := by
  obtain ⟨hrx, -, hneg⟩ := getbaud_frame nextBit p.modem bits
  have hsent := h.unconfirmed.of_rx hneg hrx
  cases heard with
  | none => exact ⟨hsent, h.pending⟩
  | some nearest =>
      obtain ⟨hdecided, hpending⟩ := DelayLine.shift_forall h.pending hplain
      exact ⟨processBaud_unconfirmed hsent.signalUp (hdecided.getD guess), hpending⟩

theorem settled_init (callingParty : Bool) : Settled1200 (v22bisInit callingParty 1200) := by
  refine ⟨rfl, rfl, ?_⟩
  cases callingParty <;> simp [v22bisInit, v22bisRestart, v22bisRxRestart]

theorem unconfirmed_init (callingParty : Bool) (rate : Nat) :
    Unconfirmed (v22bisInit callingParty rate) :=
  ⟨.inl ⟨rfl, by simp [v22bisInit, v22bisRestart, v22bisRxRestart, equalizerReset]⟩⟩

-- One side is configured for 1200 and sends plain symbols only; the other never confirms 2400.
structure CallerSettled (l : Link) : Prop where
  settled : Settled1200 l.caller.modem
  line : PlainLine l.toAnswerer
  answerer : HearsPlain l.answerer

structure AnswererSettled (l : Link) : Prop where
  settled : Settled1200 l.answerer.modem
  line : PlainLine l.toCaller
  caller : HearsPlain l.caller

theorem callerSettled_tick {l : Link} (t : Tick) (h : CallerSettled l) :
    CallerSettled (l.tick t) := by
  obtain ⟨hs, hsym⟩ := getbaud_settled nextBit t.callerBits h.settled
  obtain ⟨hat, hline⟩ := DelayLine.shift_forall h.line hsym
  exact ⟨hs.of_rxStep (tick_step l.caller _ _ _), hline, h.answerer.tick _ _ hat⟩

theorem answererSettled_tick {l : Link} (t : Tick) (h : AnswererSettled l) :
    AnswererSettled (l.tick t) := by
  obtain ⟨hs, hsym⟩ := getbaud_settled nextBit t.answererBits h.settled
  obtain ⟨hat, hline⟩ := DelayLine.shift_forall h.line hsym
  exact ⟨hs.of_rxStep (tick_step l.answerer _ _ _), hline, h.caller.tick _ _ hat⟩

theorem rates_agree_when_one_side_is_1200 {callerRate answererRate : Nat}
    (hcaller : callerRate = 1200 ∨ callerRate = 2400)
    (hanswerer : answererRate = 1200 ∨ answererRate = 2400)
    (hone : callerRate = 1200 ∨ answererRate = 1200) (lags : Lags) (d : Nat) (ticks : List Tick) :
    RatesAgree callerRate answererRate
      (Transition.run Link.tick (Link.init callerRate answererRate lags d) ticks) := by
  rcases hone with rfl | rfl
  · have h : CallerSettled (Transition.run Link.tick (Link.init 1200 answererRate lags d) ticks) :=
      Transition.run_invariant (fun _ => callerSettled_tick) ticks
        ⟨settled_init true, plainLine_replicate d, unconfirmed_init false answererRate,
          plainLine_replicate lags.answerer⟩
    rintro - ⟨-, hrx⟩
    rw [min_eq_left (by omega)]
    exact ⟨h.settled.negotiated, h.answerer.unconfirmed.normal hrx⟩
  · have h : AnswererSettled (Transition.run Link.tick (Link.init callerRate 1200 lags d) ticks) :=
      Transition.run_invariant (fun _ => answererSettled_tick) ticks
        ⟨settled_init false, plainLine_replicate d, unconfirmed_init true callerRate,
          plainLine_replicate lags.caller⟩
    rintro ⟨-, hrx⟩ -
    rw [min_eq_right (by omega)]
    exact ⟨h.caller.unconfirmed.normal hrx, h.settled.negotiated⟩

end Softmodem.V22bis

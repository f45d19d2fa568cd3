import Softmodem.Lib.Beat
import Softmodem.V22bis.Idle
import Softmodem.V22bis.RateCoherence

namespace Softmodem.V22bis

open Transition

-- What the strobe's test leaves in eq_put_step.
def strobePut (s : V22bisState) : Int := s.rx.eqPutStep - 12

def coeffSet (put : Int) : Int := if -put > 12 - 1 then 12 - 1 else -put

-- The receiver as a strobe hands it on, one half of a symbol later.
def halfBaud (s : V22bisState) : Rx :=
  { s.rx with eqPutStep := strobePut s + 80, baudPhase := !s.rx.baudPhase }

def timingCorrection (s : V22bisState) (o : RxObservation) : Int :=
  (symbolSync (halfBaud s) o.early).eqPutStep - (halfBaud s).eqPutStep

-- A sample that is not passed over on its way to the strobe.
def Processed (s : V22bisState) (o : RxObservation) : Prop :=
  ¬ CarrierLost s o ∧ (s.rx.signalPresent = true ∨ o.level = .aboveOn) ∧ s.rx.training ≠ .parked

instance (s : V22bisState) (o : RxObservation) : Decidable (Processed s o) :=
  inferInstanceAs (Decidable (_ ∧ _))

def Strobes (s : V22bisState) (o : RxObservation) : Prop := Processed s o ∧ strobePut s ≤ 0

def corrections : List Int := [0, 1, -1, 2, -2, 16, -16]

structure SymbolTiming (s : V22bisState) : Prop where
  put : ∀ o, Strobes s o → -11 ≤ strobePut s ∧ strobePut s ≤ 0
  index : ∀ o, Strobes s o →
    coeffSet (strobePut s) = -strobePut s ∧ 0 ≤ -strobePut s ∧ -strobePut s ≤ 11
  correction : ∀ o, timingCorrection s o ∈ corrections
  integrate : s.rx.gardnerIntegrate.natAbs < 16

section Marks

variable {σ : Type*} (getBit : σ → Option Bool × σ)

def resetAt (outs : List RxOut) : List Beat.Mark := if retrain ∈ outs then [.reset] else []

def sampleMarks (s : V22bisState) (o : RxObservation) : List Beat.Mark :=
  if CarrierLost s o then [.reset]
  else if Processed s o then
    if strobePut s ≤ 0 then .beat :: resetAt (v22bisRxSample s o).2 else [.tick]
  else []

-- Processed samples, strobes and equalizer resets, in their order.
def marks (s : V22bisState) : ModemEvent σ → List Beat.Mark
  | .symbolSent _ => []
  | .samplesSent _ _ => []
  | .symbolReceived nearest => resetAt (processBaud s nearest).2
  | .sampleReceived o => sampleMarks s o
  | .rxRestart => [.reset]
  | .restart => [.reset]
  | .setBitRate _ => [.reset]

def markedRun (s : V22bisState) : List (ModemEvent σ) → List Beat.Mark
  | [] => []
  | e :: events => marks s e ++ markedRun (modemStep getBit s e) events

end Marks

structure SameTiming (r r' : Rx) : Prop where
  put : r'.eqPutStep = r.eqPutStep
  step : r'.gardnerStep = r.gardnerStep
  integrate : r'.gardnerIntegrate = r.gardnerIntegrate
  acquiring : r'.training = .symbolAcquisition → r.training = .symbolAcquisition

theorem SameTiming.trans {r r' r'' : Rx} (h : SameTiming r r') (h' : SameTiming r' r'') :
    SameTiming r r'' :=
  ⟨h'.put.trans h.put, h'.step.trans h.step, h'.integrate.trans h.integrate,
    fun hacq => h.acquiring (h'.acquiring hacq)⟩

theorem decodeBaud_timing (r : Rx) (nearest : Symbol) :
    SameTiming r (decodeBaud r nearest).1 ∧ retrain ∉ (decodeBaud r nearest).2 := by
  simp only [decodeBaud]
  split
  · exact ⟨⟨rfl, rfl, rfl, id⟩, by simp [putBit, retrain]⟩
  · exact ⟨⟨rfl, rfl, rfl, id⟩, by simp [putBit, retrain]⟩

theorem decodeBaudx_timing (r : Rx) (nearest : Symbol) :
    SameTiming r (decodeBaudx r nearest).1 := by
  simp only [decodeBaudx]
  split
  · exact ⟨rfl, rfl, rfl, id⟩
  · exact ⟨rfl, rfl, rfl, id⟩

theorem searchS1_timing (r : Rx) (raw : Fin 4) : SameTiming r (searchS1 r raw) := by
  simp only [searchS1]
  split
  · exact ⟨rfl, rfl, rfl, id⟩
  · exact ⟨rfl, rfl, rfl, id⟩

-- What one symbol's training may do to the timing loop.
inductive BaudTimed (r r' : Rx) (outs : List RxOut) : Prop where
  | kept (same : SameTiming r r') (quiet : retrain ∉ outs)
  | slowed (acquiring : r.training = .symbolAcquisition) (put : r'.eqPutStep = r.eqPutStep)
      (integrate : r'.gardnerIntegrate = r.gardnerIntegrate)
      (step : r'.gardnerStep = 32 ∨ r'.gardnerStep = 4 ∧ r'.training ≠ .symbolAcquisition)
      (quiet : retrain ∉ outs)
  | reset (put : r'.eqPutStep = 20 - 1) (step : r'.gardnerStep = r.gardnerStep)
      (integrate : r'.gardnerIntegrate = r.gardnerIntegrate)
      (training : r'.training ≠ .symbolAcquisition) (retrained : retrain ∈ outs)

section Training

variable (s : V22bisState) (nearest : Symbol)

theorem rxNormalOperation_timed :
    BaudTimed s.rx (rxNormalOperation s nearest).1.rx (rxNormalOperation s nearest).2.1 := by
  simp only [rxNormalOperation]
  split
  · obtain ⟨hsame, hquiet⟩ := decodeBaud_timing
      { s.rx with patternRepeats := s.rx.patternRepeats + 1 } nearest
    exact .kept ⟨hsame.put, hsame.step, hsame.integrate, hsame.acquiring⟩ (by simpa using hquiet)
  · split
    · obtain ⟨hsame, -⟩ := decodeBaud_timing
        { equalizerReset
            { s.rx with
              patternRepeats := 0, trainingCount := 0, training := .scrambledOnesAt1200 } with
          patternRepeats := 0 } nearest
      refine .reset hsame.put hsame.step hsame.integrate ?_ (by simp [retrain])
      intro hacq
      exact absurd (hsame.acquiring hacq) (by simp [equalizerReset])
    · obtain ⟨hsame, hquiet⟩ := decodeBaud_timing { s.rx with patternRepeats := 0 } nearest
      exact .kept ⟨hsame.put, hsame.step, hsame.integrate, hsame.acquiring⟩ (by simpa using hquiet)

theorem rxSymbolAcquisition_timed (h : s.rx.training = .symbolAcquisition) :
    BaudTimed s.rx (rxSymbolAcquisition s).1.rx (rxSymbolAcquisition s).2.1 := by
  simp only [rxSymbolAcquisition]
  split
  · refine .slowed h rfl rfl (.inr ⟨rfl, ?_⟩) List.not_mem_nil
    cases s.callingParty with
    | false => simp
    | true => simp
  · split
    · exact .slowed h rfl rfl (.inl rfl) List.not_mem_nil
    · exact .kept ⟨rfl, rfl, rfl, id⟩ List.not_mem_nil

theorem rxUnscrambledOnes_timed :
    BaudTimed s.rx (rxUnscrambledOnes s nearest).1.rx (rxUnscrambledOnes s nearest).2.1 := by
  simp only [rxUnscrambledOnes]
  split
  · exact .kept ⟨rfl, rfl, rfl, by simp⟩ List.not_mem_nil
  · exact .kept ⟨rfl, rfl, rfl, id⟩ List.not_mem_nil

theorem rxUnscrambledOnesSustaining_timed :
    BaudTimed s.rx (rxUnscrambledOnesSustaining s nearest).1.rx
      (rxUnscrambledOnesSustaining s nearest).2.1 := by
  simp only [rxUnscrambledOnesSustaining]
  split
  · exact .kept ⟨rfl, rfl, rfl, by simp⟩ List.not_mem_nil
  · exact .kept ⟨rfl, rfl, rfl, id⟩ List.not_mem_nil

theorem rxScrambledOnesAt1200_timed :
    BaudTimed s.rx (rxScrambledOnesAt1200 s nearest).1.rx
      (rxScrambledOnesAt1200 s nearest).2.1 := by
  have hbaud := decodeBaudx_timing s.rx nearest
  have hsearch := searchS1_timing
    { (decodeBaudx s.rx nearest).1 with
      trainingCount := (decodeBaudx s.rx nearest).1.trainingCount + 1 } (rawBits s.rx nearest)
  simp only [rxScrambledOnesAt1200]
  split
  · have hboth : SameTiming s.rx _ := hbaud.trans ⟨hsearch.put, hsearch.step, hsearch.integrate,
      hsearch.acquiring⟩
    split
    · split
      · exact .kept ⟨hboth.put, hboth.step, hboth.integrate, hboth.acquiring⟩ List.not_mem_nil
      · exact .kept ⟨hboth.put, hboth.step, hboth.integrate, hboth.acquiring⟩ List.not_mem_nil
    · split
      · refine .kept ⟨hboth.put, hboth.step, hboth.integrate, ?_⟩ List.not_mem_nil
        cases s.callingParty with
        | false => simp
        | true => simp
      · exact .kept hboth List.not_mem_nil
  · generalize (if s.callingParty then msToSymbols (100 + 450) else msToSymbols 450) = threshold
    split
    · exact .kept ⟨hbaud.put, hbaud.step, hbaud.integrate, by simp⟩ List.not_mem_nil
    · exact .kept ⟨hbaud.put, hbaud.step, hbaud.integrate, hbaud.acquiring⟩ List.not_mem_nil

theorem rxScrambledOnesAt1200Sustaining_timed :
    BaudTimed s.rx (rxScrambledOnesAt1200Sustaining s nearest).1.rx
      (rxScrambledOnesAt1200Sustaining s nearest).2.1 := by
  have hbaud := decodeBaudx_timing s.rx nearest
  simp only [rxScrambledOnesAt1200Sustaining]
  split
  · exact .kept ⟨hbaud.put, hbaud.step, hbaud.integrate, by simp⟩ List.not_mem_nil
  · exact .kept ⟨hbaud.put, hbaud.step, hbaud.integrate, hbaud.acquiring⟩ List.not_mem_nil

theorem rxWaitForScrambledOnesAt2400_timed :
    BaudTimed s.rx (rxWaitForScrambledOnesAt2400 s nearest).1.rx
      (rxWaitForScrambledOnesAt2400 s nearest).2.1 := by
  have hbaud := decodeBaudx_timing s.rx nearest
  simp only [rxWaitForScrambledOnesAt2400]
  split
  · split
    · exact .kept ⟨hbaud.put, hbaud.step, hbaud.integrate, by simp⟩ List.not_mem_nil
    · exact .kept ⟨hbaud.put, hbaud.step, hbaud.integrate, hbaud.acquiring⟩ List.not_mem_nil
  · exact .kept ⟨hbaud.put, hbaud.step, hbaud.integrate, hbaud.acquiring⟩ List.not_mem_nil

theorem processBaud_timed :
    BaudTimed s.rx (processBaud s nearest).1.rx (processBaud s nearest).2 := by
  have hswitch :
      BaudTimed s.rx (trainingSwitch s nearest).1.rx (trainingSwitch s nearest).2.1 := by
    unfold trainingSwitch
    cases htr : s.rx.training with
    | normalOperation => exact rxNormalOperation_timed s nearest
    | symbolAcquisition => exact rxSymbolAcquisition_timed s htr
    | unscrambledOnes => exact rxUnscrambledOnes_timed s nearest
    | unscrambledOnesSustaining => exact rxUnscrambledOnesSustaining_timed s nearest
    | scrambledOnesAt1200 => exact rxScrambledOnesAt1200_timed s nearest
    | scrambledOnesAt1200Sustaining => exact rxScrambledOnesAt1200Sustaining_timed s nearest
    | waitForScrambledOnesAt2400 => exact rxWaitForScrambledOnesAt2400_timed s nearest
    | parked => exact .kept ⟨rfl, rfl, rfl, id⟩ List.not_mem_nil
  cases hswitch with
  | kept same quiet => exact .kept ⟨same.put, same.step, same.integrate, same.acquiring⟩ quiet
  | slowed acquiring put integrate step quiet => exact .slowed acquiring put integrate step quiet
  | reset put step integrate training retrained =>
      exact .reset put step integrate training retrained

end Training

-- Steps of 256 and 32 are dumped at once; only the step of 4 leaves anything integrated.
structure Gardner (r : Rx) : Prop where
  integrate : r.gardnerIntegrate.natAbs < 16
  step : r.gardnerStep = 4 ∨ (r.gardnerStep = 32 ∨ r.gardnerStep = 256) ∧ r.gardnerIntegrate = 0
  acquiring : r.training = .symbolAcquisition → r.gardnerStep ≠ 4

theorem Gardner.same {r r' : Rx} (h : Gardner r) (hstep : r'.gardnerStep = r.gardnerStep)
    (hintegrate : r'.gardnerIntegrate = r.gardnerIntegrate)
    (hacq : r'.training = .symbolAcquisition → r.training = .symbolAcquisition) : Gardner r' := by
  refine ⟨?_, ?_, fun hr => ?_⟩
  · rw [hintegrate]
    exact h.integrate
  · rw [hstep, hintegrate]
    exact h.step
  · rw [hstep]
    exact h.acquiring (hacq hr)

theorem BaudTimed.gardner {r r' : Rx} {outs : List RxOut} (h : BaudTimed r r' outs)
    (hr : Gardner r) : Gardner r' := by
  cases h with
  | kept same _ => exact hr.same same.step same.integrate same.acquiring
  | slowed acquiring _ integrate step _ =>
      have hzero : r.gardnerIntegrate = 0 := by
        rcases hr.step with hfour | ⟨-, hzero⟩
        · exact absurd hfour (hr.acquiring acquiring)
        · exact hzero
      refine ⟨by simp [integrate, hzero], ?_, fun hacq => ?_⟩
      · rcases step with hslow | ⟨hfour, -⟩
        · exact .inr ⟨.inl hslow, integrate.trans hzero⟩
        · exact .inl hfour
      · rcases step with hslow | ⟨-, hleft⟩
        · simp [hslow]
        · exact absurd hacq hleft
  | reset _ step integrate training _ =>
      exact hr.same step integrate fun hacq => absurd hacq training

theorem BaudTimed.put {r r' : Rx} {outs : List RxOut} (h : BaudTimed r r' outs) :
    r'.eqPutStep = if retrain ∈ outs then 20 - 1 else r.eqPutStep := by
  cases h with
  | kept same quiet => rw [if_neg quiet, same.put]
  | slowed _ put _ _ quiet => rw [if_neg quiet, put]
  | reset put _ _ _ retrained => rw [if_pos retrained, put]

theorem tdiv_dumped {x : Int} (hlow : 16 ≤ x.natAbs) (hhigh : x.natAbs < 32) :
    x.tdiv 16 = 1 ∨ x.tdiv 16 = -1 := by
  rcases le_total 0 x with hx | hx
  · rw [Int.tdiv_eq_ediv_of_nonneg hx]
    omega
  · obtain ⟨y, rfl⟩ : ∃ y, x = -y := ⟨-x, (neg_neg x).symm⟩
    rw [Int.neg_tdiv, Int.tdiv_eq_ediv_of_nonneg (by omega)]
    omega

def integrated (r : Rx) (early : Bool) : Int :=
  r.gardnerIntegrate + if early then r.gardnerStep else -r.gardnerStep

theorem symbolSync_eq (r : Rx) (early : Bool) :
    symbolSync r early =
      if (integrated r early).natAbs ≥ 16 then
        { r with
          eqPutStep := r.eqPutStep + (integrated r early).tdiv 16
          totalBaudTimingCorrection :=
            r.totalBaudTimingCorrection + (integrated r early).tdiv 16
          gardnerIntegrate := 0 }
      else { r with gardnerIntegrate := integrated r early } := rfl

theorem integrated_slow {r : Rx} (h : Gardner r) (hfour : r.gardnerStep = 4) (early : Bool) :
    (integrated r early).natAbs < 32 := by
  have hbelow := h.integrate
  rw [integrated, hfour]
  split
  · omega
  · omega

theorem integrated_fast {r : Rx} (hzero : r.gardnerIntegrate = 0) (early : Bool) :
    integrated r early = r.gardnerStep ∨ integrated r early = -r.gardnerStep := by
  rw [integrated, hzero, zero_add]
  cases early with
  | false => exact .inr rfl
  | true => exact .inl rfl

theorem dumped_correction {r : Rx} (h : Gardner r) {early : Bool}
    (hbig : 16 ≤ (integrated r early).natAbs) :
    (integrated r early).tdiv 16 ∈ corrections := by
  rcases h.step with hfour | ⟨hfast, hzero⟩
  · rcases tdiv_dumped hbig (integrated_slow h hfour early) with hone | hone
    · simp [hone, corrections]
    · simp [hone, corrections]
  · rcases hfast with hstep | hstep
    all_goals
      rcases integrated_fast hzero early with hsum | hsum
      · rw [hsum, hstep]
        decide
      · rw [hsum, hstep]
        decide

-- The integrator after a symbol, and what it has moved the strobe by.
theorem symbolSync_timed {r : Rx} (h : Gardner r) (early : Bool) :
    Gardner (symbolSync r early) ∧
      (symbolSync r early).eqPutStep - r.eqPutStep ∈ corrections := by
  rw [symbolSync_eq]
  split
  · next hbig =>
    have hmoved := dumped_correction h hbig
    refine ⟨⟨by simp, ?_, h.acquiring⟩, by simpa using hmoved⟩
    exact h.step.imp_right fun hfast => ⟨hfast.1, rfl⟩
  · next hsmall =>
    have hfour : r.gardnerStep = 4 := by
      rcases h.step with hfour | ⟨hfast, hzero⟩
      · exact hfour
      · rcases integrated_fast hzero early with hsum | hsum
        · rw [hsum] at hsmall
          omega
        · rw [hsum] at hsmall
          omega
    exact ⟨⟨not_le.mp hsmall, .inl hfour, h.acquiring⟩, by simp [corrections]⟩

-- `ticks` samples have gone by since a strobe left its place, or a reset the first one.
structure Timed (r : Rx) (c : Beat.Count) : Prop where
  gardner : Gardner r
  ahead : 1 ≤ r.eqPutStep
  fresh : c.fresh = true → r.eqPutStep = 19 - 12 * c.ticks
  strobed : c.fresh = false →
    53 - 12 * c.ticks ≤ r.eqPutStep ∧ r.eqPutStep ≤ 96 - 12 * c.ticks

theorem Timed.of_put {r r' : Rx} {c : Beat.Count} (h : Timed r c) (hgardner : Gardner r')
    (hput : r'.eqPutStep = r.eqPutStep) : Timed r' c := by
  refine ⟨hgardner, ?_, ?_, ?_⟩
  all_goals rw [hput]
  · exact h.ahead
  · exact h.fresh
  · exact h.strobed

theorem Timed.same {r r' : Rx} {c : Beat.Count} (h : Timed r c) (hsame : SameTiming r r') :
    Timed r' c :=
  h.of_put (h.gardner.same hsame.step hsame.integrate hsame.acquiring) hsame.put

theorem timed_reset {r : Rx} (h : Gardner r) (hput : r.eqPutStep = 20 - 1) :
    Timed r ⟨true, 0⟩ :=
  ⟨h, by omega, fun _ => by simpa using hput, fun hstrobed => by simp at hstrobed⟩

theorem timed_strobe {r : Rx} (h : Gardner r) (hput : 53 ≤ r.eqPutStep ∧ r.eqPutStep ≤ 96) :
    Timed r ⟨false, 0⟩ :=
  ⟨h, by omega, fun hfresh => by simp at hfresh, fun _ => by simpa using hput⟩

theorem restart_timed (s : V22bisState) : Timed (v22bisRxRestart s).rx ⟨true, 0⟩ :=
  have hgardner : Gardner (v22bisRxRestart s).rx :=
    ⟨show (0 : Int).natAbs < 16 by decide, .inr ⟨.inr rfl, rfl⟩,
      fun _ => show (256 : Int) ≠ 4 by decide⟩
  timed_reset hgardner rfl

-- A step's marks come in time, and leave the receiver timed by them.
structure Marked (c : Beat.Count) (marks : List Beat.Mark) (r : Rx) : Prop where
  inTime : Along Beat.Count.next (Beat.InTime 5 8 2) c marks
  timed : Timed r (run Beat.Count.next c marks)

theorem BaudTimed.marked {r r' : Rx} {outs : List RxOut} {c : Beat.Count}
    (h : BaudTimed r r' outs) (hr : Timed r c) : Marked c (resetAt outs) r' := by
  have hgardner := h.gardner hr.gardner
  have hput := h.put
  rw [resetAt]
  split
  · next hreset =>
    rw [if_pos hreset] at hput
    exact ⟨⟨trivial, trivial⟩, timed_reset hgardner hput⟩
  · next hquiet =>
    rw [if_neg hquiet] at hput
    exact ⟨trivial, hr.of_put hgardner hput⟩

section Strobe

variable {s : V22bisState} {c : Beat.Count}

theorem Timed.strobePut (h : Timed s.rx c) : -11 ≤ strobePut s := by
  have hahead := h.ahead
  rw [V22bis.strobePut]
  omega

theorem halfBaud_gardner (h : Gardner s.rx) : Gardner (halfBaud s) := h.same rfl rfl id

theorem Timed.symbolTiming (h : Timed s.rx c) : SymbolTiming s where
  put _ ho := ⟨h.strobePut, ho.2⟩
  index _ ho := by
    have hput := h.strobePut
    have hstrobe := ho.2
    rw [coeffSet, if_neg (by omega)]
    exact ⟨rfl, by omega, by omega⟩
  correction o := (symbolSync_timed (halfBaud_gardner h.gardner) o.early).2
  integrate := h.gardner.integrate

theorem corrections_small {d : Int} (h : d ∈ corrections) : -16 ≤ d ∧ d ≤ 16 := by
  simp only [corrections, List.mem_cons, List.not_mem_nil, or_false] at h
  omega

theorem rxStrobe_beat (h : Timed s.rx c) (hstrobe : strobePut s ≤ 0) (o : RxObservation) :
    Marked ⟨false, 0⟩ (resetAt (rxStrobe s o).2) (rxStrobe s o).1.rx := by
  have hput := h.strobePut
  have hhalf := halfBaud_gardner h.gardner
  have hplace : (halfBaud s).eqPutStep = strobePut s + 80 := rfl
  have heq : rxStrobe s o =
      processHalfBaud { s with rx := { s.rx with eqPutStep := strobePut s + 80 } } o :=
    if_pos hstrobe
  rw [heq]
  simp only [processHalfBaud]
  split
  · have hahead : 53 ≤ (halfBaud s).eqPutStep ∧ (halfBaud s).eqPutStep ≤ 96 := by omega
    exact ⟨trivial, timed_strobe hhalf hahead⟩
  · obtain ⟨hsync, hmoved⟩ := symbolSync_timed hhalf o.early
    have hsmall := corrections_small hmoved
    have hahead : 53 ≤ (symbolSync (halfBaud s) o.early).eqPutStep ∧
        (symbolSync (halfBaud s) o.early).eqPutStep ≤ 96 := by omega
    exact BaudTimed.marked (processBaud_timed _ _) (timed_strobe hsync hahead)

def strobeMarks (s : V22bisState) (outs : List RxOut) : List Beat.Mark :=
  if strobePut s ≤ 0 then .beat :: resetAt outs else [.tick]

theorem rxStrobe_marked (h : Timed s.rx c) (o : RxObservation) :
    Marked c (strobeMarks s (rxStrobe s o).2) (rxStrobe s o).1.rx := by
  have hahead := h.ahead
  have hput : strobePut s = s.rx.eqPutStep - 12 := rfl
  rw [strobeMarks]
  by_cases hstrobe : strobePut s ≤ 0
  · have hbaud := rxStrobe_beat h hstrobe o
    rw [if_pos hstrobe]
    refine ⟨⟨?_, hbaud.inTime⟩, hbaud.timed⟩
    cases hfresh : c.fresh with
    | true => exact .inl hfresh
    | false =>
        have hplace := h.strobed hfresh
        exact .inr (by omega)
  · have heq : rxStrobe s o = ({ s with rx := { s.rx with eqPutStep := strobePut s } }, []) :=
      if_neg hstrobe
    rw [if_neg hstrobe, heq]
    refine ⟨⟨?_, trivial⟩, h.gardner.same rfl rfl id, ?_, fun hfresh => ?_, fun hstrobed => ?_⟩
    · show c.ticks + 1 < c.limit 8 2
      rw [Beat.Count.limit]
      cases hfresh : c.fresh with
      | true =>
          have hplace := h.fresh hfresh
          simp only [if_true]
          omega
      | false =>
          have hplace := h.strobed hfresh
          simp only [Bool.false_eq_true, if_false]
          omega
    · show 1 ≤ strobePut s
      omega
    · have hplace := h.fresh hfresh
      show strobePut s = 19 - 12 * ((c.ticks + 1 : Nat) : Int)
      omega
    · have hplace := h.strobed hstrobed
      show 53 - 12 * ((c.ticks + 1 : Nat) : Int) ≤ strobePut s ∧
        strobePut s ≤ 96 - 12 * ((c.ticks + 1 : Nat) : Int)
      omega

end Strobe

section Sample

variable {s : V22bisState} {c : Beat.Count}

-- The state in which a sample that is processed comes to the strobe.
def atStrobe (s : V22bisState) (o : RxObservation) : V22bisState :=
  { s with
    rx :=
      { s.rx with
        signalPresent := true
        carrierDownCount :=
          if s.rx.signalPresent = true ∧ o.level = .belowOff then s.rx.carrierDownCount + 1
          else 0 } }

theorem v22bisRxSample_lost {o : RxObservation} (h : CarrierLost s o) :
    ∃ t, (v22bisRxSample s o).1 = v22bisRxRestart t := by
  obtain ⟨hpresent, hlevel, hcount⟩ := h
  rw [v22bisRxSample, if_pos hpresent, if_pos hlevel]
  dsimp only
  rw [if_pos hcount]
  exact ⟨_, rfl⟩

theorem v22bisRxSample_processed {o : RxObservation} (h : Processed s o) :
    (v22bisRxSample s o).1 = (rxStrobe (atStrobe s o) o).1 ∧
      resetAt (v22bisRxSample s o).2 = resetAt (rxStrobe (atStrobe s o) o).2 := by
  obtain ⟨hkept, hcarrier, hunparked⟩ := h
  rw [v22bisRxSample]
  by_cases hpresent : s.rx.signalPresent = true
  · rw [if_pos hpresent]
    by_cases hlevel : o.level = .belowOff
    · have hcount : ¬ s.rx.carrierDownCount + 1 ≥ 800 :=
        fun hcount => hkept ⟨hpresent, hlevel, hcount⟩
      have heq : atStrobe s o =
          { s with rx := { s.rx with carrierDownCount := s.rx.carrierDownCount + 1 } } := by
        simp [atStrobe, hpresent, hlevel]
      rw [if_pos hlevel, heq]
      dsimp only
      rw [if_neg hcount, rxCarrier, if_neg hunparked]
      exact ⟨rfl, rfl⟩
    · have heq : atStrobe s o = { s with rx := { s.rx with carrierDownCount := 0 } } := by
        simp [atStrobe, hpresent, hlevel]
      rw [if_neg hlevel, heq, rxCarrier, if_neg hunparked]
      exact ⟨rfl, rfl⟩
  · have hlevel : o.level = .aboveOn := hcarrier.resolve_left hpresent
    have heq : atStrobe s o =
        { s with rx := { s.rx with signalPresent := true, carrierDownCount := 0 } } := by
      simp [atStrobe, hpresent]
    rw [if_neg hpresent, if_pos hlevel, heq]
    dsimp only
    rw [rxCarrier, if_neg hunparked]
    exact ⟨rfl, if_congr (by simp [retrain]) rfl rfl⟩

theorem v22bisRxSample_passed {o : RxObservation} (hkept : ¬ CarrierLost s o)
    (h : ¬ Processed s o) : SameTiming s.rx (v22bisRxSample s o).1.rx := by
  have hparked (hcarrier : s.rx.signalPresent = true ∨ o.level = .aboveOn) (t : V22bisState)
      (ht : t.rx.training = s.rx.training) : rxCarrier t o = (t, []) := by
    rw [rxCarrier, if_pos]
    by_contra hunparked
    exact h ⟨hkept, hcarrier, fun htr => hunparked (ht.trans htr)⟩
  rw [v22bisRxSample]
  by_cases hpresent : s.rx.signalPresent = true
  · rw [if_pos hpresent]
    split
    · next hlevel =>
      dsimp only
      rw [if_neg fun hcount => hkept ⟨hpresent, hlevel, hcount⟩, hparked (.inl hpresent)]
      · exact ⟨rfl, rfl, rfl, id⟩
      · rfl
    · rw [hparked (.inl hpresent)]
      · exact ⟨rfl, rfl, rfl, id⟩
      · rfl
  · rw [if_neg hpresent]
    split
    · next hlevel =>
      rw [hparked (.inr hlevel)]
      · exact ⟨rfl, rfl, rfl, id⟩
      · rfl
    · exact ⟨rfl, rfl, rfl, id⟩

theorem v22bisRxSample_marked (h : Timed s.rx c) (o : RxObservation) :
    Marked c (sampleMarks s o) (v22bisRxSample s o).1.rx := by
  rw [sampleMarks]
  split
  · next hlost =>
    obtain ⟨t, ht⟩ := v22bisRxSample_lost hlost
    rw [ht]
    exact ⟨⟨trivial, trivial⟩, restart_timed t⟩
  · next hkept =>
    split
    · next hprocessed =>
      obtain ⟨hstate, houts⟩ := v22bisRxSample_processed hprocessed
      rw [hstate, houts]
      exact rxStrobe_marked (s := atStrobe s o) (h.same ⟨rfl, rfl, rfl, id⟩) o
    · next hpassed =>
      exact ⟨trivial, h.same (v22bisRxSample_passed hkept hpassed)⟩

end Sample

section Run

variable {σ : Type*} (getBit : σ → Option Bool × σ)

theorem modemStep_marked {s : V22bisState} {c : Beat.Count} (h : Timed s.rx c)
    (e : ModemEvent σ) : Marked c (marks s e) (modemStep getBit s e).rx := by
  cases e with
  | symbolSent u =>
      rw [modemStep, (getbaud_txStep getBit s u).rx]
      exact ⟨trivial, h⟩
  | samplesSent len u =>
      rw [modemStep, (v22bisTx_spec getBit len s u).2.1.rx]
      exact ⟨trivial, h⟩
  | symbolReceived nearest => exact (processBaud_timed s nearest).marked h
  | sampleReceived o => exact v22bisRxSample_marked h o
  | rxRestart => exact ⟨⟨trivial, trivial⟩, restart_timed s⟩
  | restart => exact ⟨⟨trivial, trivial⟩, restart_timed _⟩
  | setBitRate bitRate => exact ⟨⟨trivial, trivial⟩, restart_timed _⟩

theorem run_marked {s : V22bisState} {c : Beat.Count} (h : Timed s.rx c)
    (events : List (ModemEvent σ)) :
    Along Beat.Count.next (Beat.InTime 5 8 2) c (markedRun getBit s events) ∧
      ∃ c, Timed (run (modemStep getBit) s events).rx c := by
  induction events generalizing s c with
  | nil => exact ⟨trivial, c, h⟩
  | cons e events ih =>
      have hstep := modemStep_marked getBit h e
      obtain ⟨hrest, hlater⟩ := ih hstep.timed
      exact ⟨(along_append _ _).mpr ⟨hstep.inTime, hrest⟩, hlater⟩

-- `v22bisInit` resets the equalizer, which is the first mark.
theorem symbol_timing_in_every_state (callingParty : Bool) (bitRate : Nat)
    (events : List (ModemEvent σ)) :
    SymbolTiming (run (modemStep getBit) (v22bisInit callingParty bitRate) events) ∧
      Beat.Spaced 5 8 2 (.reset :: markedRun getBit (v22bisInit callingParty bitRate) events) := by
  have hstart : Timed (v22bisInit callingParty bitRate).rx ⟨true, 0⟩ := restart_timed _
  obtain ⟨hmarks, c, htimed⟩ := run_marked getBit hstart events
  refine ⟨htimed.symbolTiming, ?_⟩
  exact Beat.spaced_of_along (by omega) (by omega) (c := ⟨true, 0⟩) ⟨trivial, hmarks⟩

end Run

end Softmodem.V22bis

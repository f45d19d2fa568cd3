import Softmodem.V22bis.Handshake
import Softmodem.V22bis.SlowSide

namespace Softmodem.V22bis

structure Joined (caller answerer : Side) (lags : Lags) (d : Nat) : Prop where
  callerInit : caller.modem 0 = v22bisInit true 2400
  answererInit : answerer.modem 0 = v22bisInit false 2400
  callerPending : (caller.party 0).pending = List.replicate lags.caller none
  answererPending : (answerer.party 0).pending = List.replicate lags.answerer none
  toCaller : ∀ n, caller.hears n = if n < d then none else answerer.sends (n - d)
  toAnswerer : ∀ n, answerer.hears n = if n < d then none else caller.sends (n - d)

namespace Joined

variable {caller answerer : Side} {lags : Lags} {d : Nat}

theorem answerer_hears (h : Joined caller answerer lags d) (n : Nat) :
    answerer.hears (n + d) = caller.sends n := by
  rw [h.toAnswerer, if_neg (by omega), Nat.add_sub_cancel]

theorem caller_hears (h : Joined caller answerer lags d) (n : Nat) :
    caller.hears (n + d) = answerer.sends n := by
  rw [h.toCaller, if_neg (by omega), Nat.add_sub_cancel]

theorem answerer_starts_of (h : Joined caller answerer lags d) {a : Nat}
    (hquiet : ∀ n, n < a → caller.sends n = none) :
    answerer.Starts lags.answerer (a + d) := by
  refine ⟨h.answererPending, fun n hn => ?_⟩
  rw [h.toAnswerer]
  split
  · rfl
  · exact hquiet _ (by omega)

theorem caller_starts_of (h : Joined caller answerer lags d) {a : Nat}
    (hquiet : ∀ n, n < a → answerer.sends n = none) : caller.Starts lags.caller (a + d) := by
  refine ⟨h.callerPending, fun n hn => ?_⟩
  rw [h.toCaller]
  split
  · rfl
  · exact hquiet _ (by omega)

theorem caller_starts (h : Joined caller answerer lags d) :
    caller.Starts lags.caller (45 + d) := by
  have hsilent (n : Nat) (hn : n < 366) : caller.sends n = none :=
    caller_silent (a := 0) ⟨h.callerPending, by omega⟩ h.callerInit (by omega)
  refine h.caller_starts_of fun n hn => ?_
  have hwarm := answerer_quiet (h.answerer_starts_of hsilent) h.answererInit (n := n) (by omega)
  rw [(Side.sent_warm hwarm).1, if_pos hn]

theorem answerer_starts (h : Joined caller answerer lags d) :
    answerer.Starts lags.answerer (411 + d + d) :=
  h.answerer_starts_of fun _ hn => caller_silent h.caller_starts h.callerInit (by omega)

def BurstTo (answerer : Side) (a i : Nat) : Prop :=
  ∀ j, j < i → answerer.hears (a + j) ≠ none ∧
    (j < 60 → answerer.hears (a + j) = some (s1At 0 j))

theorem hearsBurst {a i lag m : Nat} {raws : Nat → Fin 4} (h : BurstTo answerer a i)
    (hfrom : SearchFrom lag raws m) (hi : i ≤ m + 42) : HearsBurst answerer lag a i := by
  have hinside := hfrom.inside
  exact ⟨fun j hj => (h j hj).1, fun j hj => (h j (by omega)).2 (by omega)⟩

theorem answerer_warm (h : Joined caller answerer lags d) (hlag : lags.answerer < 40)
    {raws : Nat → Fin 4} {m i : Nat} (hfrom : SearchFrom lags.answerer raws m)
    (hburst : BurstTo answerer (411 + d + d) i) (hi : i < m + 42) {n : Nat}
    (hn : n ≤ 411 + d + d + i) : Warm n (answerer.modem n).tx := by
  have hears := hearsBurst hburst hfrom (by omega)
  rcases Nat.lt_or_ge n (411 + d + d) with hquiet | hheard
  · exact answerer_quiet h.answerer_starts h.answererInit (by omega)
  · obtain ⟨k, rfl⟩ := Nat.exists_eq_add_of_le hheard
    rcases Nat.lt_or_ge k 40 with hacquires | hsearches
    · exact answerer_acquires h.answerer_starts h.answererInit
        (fun j hj => hears.heard j (by omega)) hacquires
    · obtain ⟨j, rfl⟩ := Nat.exists_eq_add_of_le' hsearches
      exact (answerer_searches h.answerer_starts h.answererInit hlag hfrom (by omega)
        (hears.mono (by omega))).tx

theorem caller_hears_ones (h : Joined caller answerer lags d) {n : Nat}
    (hwarm : ∀ k, k < n → Warm k (answerer.modem k).tx) {j : Nat} (hj : 45 + j < n) :
    caller.hears (45 + d + j) = some (onesAt j) := by
  rw [show 45 + d + j = 45 + j + d by omega, h.caller_hears,
    (Side.sent_warm (hwarm _ hj)).1, if_neg (by omega), Nat.add_sub_cancel_left]

-- By induction on what the answerer has heard: as long as it has found nothing it goes on with
-- unscrambled ones, and a caller that hears these has gone on with its burst by then.
theorem burstTo (h : Joined caller answerer lags d) (hcaller : lags.caller < 40)
    (hanswerer : lags.answerer < 40) {raws : Nat → Fin 4} {m : Nat}
    (hfrom : SearchFrom lags.answerer raws m) {i : Nat} (hi : i ≤ m + 42) :
    BurstTo answerer (411 + d + d) i := by
  induction i with
  | zero => exact fun j hj => absurd hj (Nat.not_lt_zero j)
  | succ i ih =>
      have hburst := ih (by omega)
      have hones (j : Nat) (hj : j < i + 366) : caller.hears (45 + d + j) = some (onesAt j) :=
        h.caller_hears_ones (n := 411 + d + d + i + 1)
          (fun k hk => h.answerer_warm hanswerer hfrom hburst (by omega) (by omega)) (by omega)
      have hsends := caller_sends h.caller_starts h.callerInit hcaller (k := i)
        (fun j hj => by rw [hones j hj]; exact Option.some_ne_none _)
        (fun j hj => hones j (by omega))
      intro j hj
      rcases Nat.lt_succ_iff_lt_or_eq.mp hj with hj | rfl
      · exact hburst j hj
      · rw [show 411 + d + d + j = 45 + d + (j + 366) + d by omega, h.answerer_hears]
        exact hsends

-- The tick at which the answerer finds S1 when its search ends at decision `m + 1`.
def foundTick (d m : Nat) : Nat := 411 + d + d + (m + 42)

theorem answerer_found (h : Joined caller answerer lags d) (hcaller : lags.caller < 40)
    (hanswerer : lags.answerer < 40) {raws : Nat → Fin 4} {m : Nat}
    (hfrom : SearchFrom lags.answerer raws m) :
    Answering (foundTick d m - 45) 0 (answerer.modem (foundTick d m)) :=
  answerer_finds h.answerer_starts h.answererInit hanswerer (by omega) hfrom
    (hearsBurst (h.burstTo hcaller hanswerer hfrom (Nat.le_refl _)) hfrom (Nat.le_refl _))

theorem caller_hears_answer (h : Joined caller answerer lags d) (hcaller : lags.caller < 40)
    (hanswerer : lags.answerer < 40) {raws : Nat → Fin 4} {m : Nat}
    (hfrom : SearchFrom lags.answerer raws m) :
    HearsAnswer caller lags.caller (45 + d) (foundTick d m - 45) := by
  have hburst := h.burstTo hcaller hanswerer hfrom (Nat.le_refl (m + 42))
  have hfound : foundTick d m = 411 + d + d + (m + 42) := rfl
  have hones (j : Nat) (hj : j < foundTick d m - 45) :
      caller.hears (45 + d + j) = some (onesAt j) :=
    h.caller_hears_ones (fun k hk => h.answerer_warm hanswerer hfrom (i := m + 41)
      (fun j hj => hburst j (by omega)) (by omega) (by omega)) (n := foundTick d m) (by omega)
  have hsends (k : Nat) (hk : k < 200) :
      caller.hears (45 + d + (foundTick d m - 45 + k)) ≠ none ∧
        (k < 60 → caller.hears (45 + d + (foundTick d m - 45 + k)) =
          some (s1At (onesQuadrant (foundTick d m - 45)) k)) := by
    have hsends := answerer_sends (h.answerer_found hcaller hanswerer hfrom) hk
    rwa [show 45 + d + (foundTick d m - 45 + k) = foundTick d m + k + d by omega, h.caller_hears]
  refine ⟨by omega, fun j hj => ?_, hones, fun j hj => (hsends j (by omega)).2 (by omega)⟩
  rcases Nat.lt_or_ge j (foundTick d m - 45) with hlt | hge
  · rw [hones j hlt]
    exact Option.some_ne_none _
  · obtain ⟨k, rfl⟩ := Nat.exists_eq_add_of_le hge
    exact (hsends k (by omega)).1

theorem agrees (h : Joined caller answerer lags d) (hcaller : lags.caller < 40)
    (hmin : 4 ≤ lags.answerer) (hanswerer : lags.answerer < 40) (n : Nat) :
    (caller.modem n).rx.training ≠ .normalOperation ∨
      Agreed (caller.modem n) ∧ Agreed (answerer.modem n) := by
  obtain ⟨raws, m, hfrom⟩ := searchFrom_exists hmin hanswerer
  have hanswer := h.answerer_found hcaller hanswerer hfrom
  have hears := h.caller_hears_answer hcaller hanswerer hfrom
  rcases Nat.lt_or_ge n (45 + d + (foundTick d m - 45 + lags.caller + 24)) with hearly | hlate
  · exact .inl (caller_untrained h.caller_starts h.callerInit hcaller hears hearly)
  · exact .inr ⟨Side.agrees (caller_agrees h.caller_starts h.callerInit hcaller hears) hlate,
      Side.agrees ⟨hanswer.negotiated, .inl hanswer.training⟩ (by omega)⟩

end Joined

section Ticks

variable (ticks : Nat → Tick) (lags : Lags) (d : Nat)

def linkAt (n : Nat) : Link :=
  Transition.run Link.tick (Link.init 2400 2400 lags d) ((List.range n).map ticks)

theorem linkAt_succ (n : Nat) :
    linkAt ticks lags d (n + 1) = (linkAt ticks lags d n).tick (ticks n) := by
  rw [linkAt, List.range_succ, List.map_append, Transition.run_append]
  rfl

def callerSide : Side where
  party n := (linkAt ticks lags d n).caller
  bits n := (ticks n).callerBits
  guess n := (ticks n).callerGuess
  hears n := (DelayLine.shift (linkAt ticks lags d n).toCaller
    ((linkAt ticks lags d n).answerer.sends (ticks n).answererBits)).1
  step n := by
    rw [linkAt_succ]
    rfl

def answererSide : Side where
  party n := (linkAt ticks lags d n).answerer
  bits n := (ticks n).answererBits
  guess n := (ticks n).answererGuess
  hears n := (DelayLine.shift (linkAt ticks lags d n).toAnswerer
    ((linkAt ticks lags d n).caller.sends (ticks n).callerBits)).1
  step n := by
    rw [linkAt_succ]
    rfl

theorem toCaller_eq (n : Nat) : (linkAt ticks lags d n).toCaller =
    DelayLine.lineAt (List.replicate d none) (answererSide ticks lags d).sends n := by
  induction n with
  | zero => rfl
  | succ n ih =>
      rw [linkAt_succ, DelayLine.lineAt, ← ih]
      rfl

theorem toAnswerer_eq (n : Nat) : (linkAt ticks lags d n).toAnswerer =
    DelayLine.lineAt (List.replicate d none) (callerSide ticks lags d).sends n := by
  induction n with
  | zero => rfl
  | succ n ih =>
      rw [linkAt_succ, DelayLine.lineAt, ← ih]
      rfl

theorem joined : Joined (callerSide ticks lags d) (answererSide ticks lags d) lags d := by
  refine ⟨rfl, rfl, rfl, rfl, fun n => ?_, fun n => ?_⟩
  · rw [← DelayLine.out_replicate d none (answererSide ticks lags d).sends n,
      ← toCaller_eq ticks lags d n]
    rfl
  · rw [← DelayLine.out_replicate d none (callerSide ticks lags d).sends n,
      ← toAnswerer_eq ticks lags d n]
    rfl

end Ticks

theorem rates_agree_when_both_are_2400 {lags : Lags} (hcaller : lags.caller < 40)
    (hmin : 4 ≤ lags.answerer) (hanswerer : lags.answerer < 40) (d : Nat) (ticks : List Tick) :
    RatesAgree 2400 2400 (Transition.run Link.tick (Link.init 2400 2400 lags d) ticks) := by
  let tickAt (n : Nat) : Tick := ticks.getD n ⟨[], [], 0, 0⟩
  have hticks : (List.range ticks.length).map tickAt = ticks := by
    refine List.ext_getElem (by simp) fun n _ hn => ?_
    simp [tickAt, hn]
  rintro ⟨-, hnormal⟩ -
  rw [← hticks] at hnormal ⊢
  rcases (joined tickAt lags d).agrees hcaller hmin hanswerer ticks.length with
    htraining | ⟨hcallerAgreed, hanswererAgreed⟩
  · exact absurd hnormal htraining
  · exact ⟨hcallerAgreed.negotiated, hanswererAgreed.negotiated⟩

-- The filters of either side hold back fewer symbols than acquisition takes, and the answerer's
-- at least the four without which its search would not see enough of the burst.
theorem rates_agree {callerRate answererRate : Nat} {lags : Lags}
    (hcallerRate : callerRate = 1200 ∨ callerRate = 2400)
    (hanswererRate : answererRate = 1200 ∨ answererRate = 2400) (hcaller : lags.caller < 40)
    (hmin : 4 ≤ lags.answerer) (hanswerer : lags.answerer < 40) (d : Nat) (ticks : List Tick) :
    RatesAgree callerRate answererRate
      (Transition.run Link.tick (Link.init callerRate answererRate lags d) ticks) := by
  by_cases hone : callerRate = 1200 ∨ answererRate = 1200
  · exact rates_agree_when_one_side_is_1200 hcallerRate hanswererRate hone lags d ticks
  · obtain rfl : callerRate = 2400 := by omega
    obtain rfl : answererRate = 2400 := by omega
    exact rates_agree_when_both_are_2400 hcaller hmin hanswerer d ticks

theorem rates_agree_eight_symbols_late :
    ∃ l, l = Transition.run Link.tick (Link.init 2400 2400 ⟨8, 8⟩ 3)
        (List.replicate 1066 ⟨[], [], 0, 0⟩) ∧
      InNormalOperation l.caller.modem ∧ InNormalOperation l.answerer.modem ∧
      RatesAgree 2400 2400 l := by
  have hrun : Transition.runStrict 8 Link.tick
      (fun l => decide (InNormalOperation l.caller.modem ∧ InNormalOperation l.answerer.modem))
      0 (Link.init 2400 2400 ⟨8, 8⟩ 3) (List.replicate 1066 ⟨[], [], 0, 0⟩) = true := by
    decide +kernel
  have hagree : RatesAgree 2400 2400 (Transition.run Link.tick (Link.init 2400 2400 ⟨8, 8⟩ 3)
      (List.replicate 1066 ⟨[], [], 0, 0⟩)) :=
    rates_agree (.inr rfl) (.inr rfl) (by decide) (by decide) (by decide) 3 _
  rw [Transition.runStrict_eq] at hrun
  generalize Transition.run Link.tick (Link.init 2400 2400 ⟨8, 8⟩ 3)
    (List.replicate 1066 ⟨[], [], 0, 0⟩) = l at hrun hagree
  obtain ⟨hcaller, hanswerer⟩ := of_decide_eq_true hrun
  exact ⟨l, rfl, hcaller, hanswerer, hagree⟩

-- A receiver that decides a symbol as it hears it acquires for too much of the burst.
theorem two_2400_modems_settle_at_1200 :
    ¬ ∀ ticks, RatesAgree 2400 2400
      (Transition.run Link.tick (Link.init 2400 2400 ⟨0, 0⟩ 0) ticks) := by
  intro h
  have hrun : Transition.runStrict 8 Link.tick (fun l => decide (¬ RatesAgree 2400 2400 l))
      0 (Link.init 2400 2400 ⟨0, 0⟩ 0) (List.replicate 1352 ⟨[], [], 0, 0⟩) = true := by
    decide +kernel
  rw [Transition.runStrict_eq] at hrun
  exact of_decide_eq_true hrun (h _)

-- With three symbols of lag the search still comes up short.
example : Transition.runStrict 8 Link.tick (fun l => decide (¬ RatesAgree 2400 2400 l))
    0 (Link.init 2400 2400 ⟨3, 3⟩ 0) (List.replicate 1355 ⟨[], [], 0, 0⟩) = true := by
  decide +kernel

end Softmodem.V22bis

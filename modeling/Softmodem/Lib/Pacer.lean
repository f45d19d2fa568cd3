import Mathlib.Tactic.Linarith
import Mathlib.Tactic.Ring

-- A timer that is read and advanced in turns: one period a turn, or from the clock when it is late.
namespace Pacer

variable (period slack limit : Int)

structure Turned (next now next' now' : Int) : Prop where
  due : next - now < slack
  clock : now ≤ now'
  advanced : (next' = next + period ∧ now' - next' < limit) ∨
    (next' = now' + period ∧ next + period < now')

inductive Loop (woken : Int) : Nat → Int → Int → Prop
  | start (next : Int) : Loop woken 0 next woken
  | turn {turns : Nat} {next now next' now' : Int} (h : Loop woken turns next now)
      (ht : Turned period slack limit next now next' now') : Loop woken (turns + 1) next' now'

variable {period slack limit}

theorem Turned.ahead {next now next' now' : Int} (h : Turned period slack limit next now next' now')
    (hslack : 0 < slack) : next' - now' < period + slack := by
  obtain ⟨hdue, hclock, ⟨hnext, -⟩ | ⟨hnext, -⟩⟩ := h
  · linarith
  · linarith

variable {woken : Int}

theorem Loop.woken_le {turns : Nat} {next now : Int}
    (h : Loop period slack limit woken turns next now) : woken ≤ now := by
  induction h with
  | start => exact le_refl _
  | turn _ ht ih => exact ih.trans ht.clock

-- Every turn takes a period off the lag, which only the clock adds to.
theorem Loop.behind {turns : Nat} {next now : Int}
    (h : Loop period slack limit woken turns next now) (hperiod : 0 ≤ period) (hlimit : 0 < limit) :
    turns = 0 ∨ now - next + period * (turns - 1) < limit + (now - woken) := by
  induction h with
  | start => exact .inl rfl
  | @turn turns next now next' now' h ht ih =>
      have hwoken := h.woken_le
      obtain ⟨-, hclock, hadvanced⟩ := ht
      refine .inr ?_
      push_cast
      rcases ih with rfl | hbehind
      · rcases hadvanced with ⟨-, hlag⟩ | ⟨hnext, -⟩
        · norm_num
          linarith
        · norm_num
          linarith
      · have hexpand : period * ((turns : Int) + 1 - 1) = period * (turns - 1) + period := by ring
        rw [hexpand]
        rcases hadvanced with ⟨hnext, -⟩ | ⟨hnext, hlate⟩
        · linarith
        · linarith

theorem Loop.turns_bound {turns : Nat} {next now span : Int}
    (h : Loop period slack limit woken turns next now) (hperiod : 0 ≤ period) (hslack : 0 < slack)
    (hlimit : 0 < limit) (hspan : now - woken ≤ span) :
    period * turns < limit + slack + span + 2 * period := by
  cases h with
  | start =>
      push_cast
      linarith
  | @turn turns before last _ _ h ht =>
      have hwoken := h.woken_le
      have hclock := ht.clock
      have hdue := ht.due
      push_cast
      rw [mul_add, mul_one]
      rcases h.behind hperiod hlimit with rfl | hbehind
      · push_cast
        linarith
      · rw [mul_sub, mul_one] at hbehind
        linarith

end Pacer

import Softmodem.Lib.Mealy
import Softmodem.V22bis.Receiver
import Softmodem.V22bis.Transmitter

namespace Softmodem.V22bis

def scrambleAll (t : Tx) (bits : List Bool) : Tx × List Bool := Mealy.run scramble t bits

def descrambleAll (r : Rx) (line : List Bool) : Rx × List Bool := Mealy.run descramble r line

def SharesBits (n : Nat) (t : Tx) (r : Rx) : Prop :=
  ∀ k < n, k < 17 → t.scrambleReg.getLsbD k = r.scrambleReg.getLsbD k

structure Synchronised (t : Tx) (r : Rx) : Prop where
  register : SharesBits 17 t r
  counter : t.scramblerPatternCount = r.scramblerPatternCount

variable {t : Tx} {r : Rx} {bit : Bool}

theorem scramble_shares {n : Nat} (h : SharesBits n t r) :
    SharesBits (n + 1) (scramble t bit).1 (descramble r (scramble t bit).2).1 := by
  intro k hk hlow
  cases k with
  | zero => simp [scramble, descramble]
  | succ k =>
      have hbit := h k (by omega) (by omega)
      have hsmall : k + 1 < 32 ∧ k < 32 := by omega
      simpa [scramble, descramble, hsmall] using hbit

theorem scramble_count (t : Tx) (bit : Bool) :
    (scramble t bit).1.scramblerPatternCount =
      if (scramble t bit).2 then
        (if 64 ≤ t.scramblerPatternCount then 0 else t.scramblerPatternCount) + 1
      else 0 := by
  simp [scramble]

theorem descramble_count (r : Rx) (bit : Bool) :
    (descramble r bit).1.scramblerPatternCount =
      if bit then (if 64 ≤ r.scramblerPatternCount then 0 else r.scramblerPatternCount) + 1
      else 0 := by
  simp [descramble]

theorem scramble_counter
    (h : (scramble t bit).2 = true → t.scramblerPatternCount = r.scramblerPatternCount) :
    (scramble t bit).1.scramblerPatternCount =
      (descramble r (scramble t bit).2).1.scramblerPatternCount := by
  rw [scramble_count, descramble_count]
  rcases hline : (scramble t bit).2 with _ | _
  · rfl
  · rw [h hline]

theorem Synchronised.descramble (h : Synchronised t r) :
    (V22bis.descramble r (scramble t bit).2).2 = bit := by
  have h13 := h.register 13 (by decide) (by decide)
  have h16 := h.register 16 (by decide) (by decide)
  have hcancel : ∀ x a b c : Bool, (x ^^ c ^^ a ^^ b ^^ a ^^ b ^^ c) = x := by decide
  simp only [V22bis.scramble, V22bis.descramble, h13, h16, h.counter]
  exact hcancel ..

theorem Synchronised.step (h : Synchronised t r) :
    Synchronised (scramble t bit).1 (V22bis.descramble r (scramble t bit).2).1 :=
  ⟨fun k hk => scramble_shares h.register k (by omega), scramble_counter fun _ => h.counter⟩

theorem scrambleAll_shares {n : Nat} (h : SharesBits n t r) (bits : List Bool) :
    SharesBits (n + bits.length) (scrambleAll t bits).1
      (descrambleAll r (scrambleAll t bits).2).1 := by
  induction bits generalizing t r n with
  | nil => exact h
  | cons bit bits ih =>
      rw [List.length_cons, Nat.add_comm bits.length 1, ← Nat.add_assoc]
      exact ih (scramble_shares h)

-- A zero on the line clears both counters, and from then on they move together.
theorem scrambleAll_counter {bits : List Bool}
    (h : t.scramblerPatternCount = r.scramblerPatternCount ∨ false ∈ (scrambleAll t bits).2) :
    (scrambleAll t bits).1.scramblerPatternCount =
      (descrambleAll r (scrambleAll t bits).2).1.scramblerPatternCount := by
  induction bits generalizing t r with
  | nil => simpa [scrambleAll, descrambleAll] using h
  | cons bit bits ih =>
      refine ih ?_
      rcases h with h | h
      · exact .inl (scramble_counter fun _ => h)
      · rcases List.mem_cons.mp h with hzero | hrest
        · exact .inl (scramble_counter fun hone => absurd (hzero.trans hone) Bool.false_ne_true)
        · exact .inr hrest

theorem descrambler_recovers_the_bits :
    (∀ (t : Tx) (r : Rx) (bits : List Bool),
      (∀ k < 17, t.scrambleReg.getLsbD k = r.scrambleReg.getLsbD k) →
        t.scramblerPatternCount = r.scramblerPatternCount →
          (descrambleAll r (scrambleAll t bits).2).2 = bits) ∧
    ∀ (t : Tx) (r : Rx) (bits : List Bool) (i : Nat),
      17 ≤ i → false ∈ (scrambleAll t bits).2.take i →
        (descrambleAll r (scrambleAll t bits).2).2.drop i = bits.drop i := by
  constructor
  · intro t r bits hreg hcount
    have hsync : Synchronised t r := ⟨fun k hk _ => hreg k hk, hcount⟩
    exact Mealy.inverts (fun _ _ _ h => h.step) (fun _ _ _ h => h.descramble) bits hsync
  · intro t r bits i hi hzero
    rcases Nat.le_total i bits.length with hlen | hlen
    · have hline : false ∈ (scrambleAll t (bits.take i)).2 := by
        rw [scrambleAll, Mealy.run_take]
        exact hzero
      have hnone : SharesBits 0 t r := fun k hk => absurd hk (Nat.not_lt_zero k)
      have hshares := scrambleAll_shares hnone (bits.take i)
      refine Mealy.inverts_from (R := Synchronised) (fun _ _ _ h => h.step)
        (fun _ _ _ h => h.descramble) ⟨fun k hk hlow => hshares k ?_ hlow, ?_⟩
      · simp [hlen]
        omega
      · exact scrambleAll_counter (.inr hline)
    · simp [descrambleAll, scrambleAll, List.drop_eq_nil_of_le, hlen]

end Softmodem.V22bis

import Mathlib.Algebra.Order.Field.Rat
import Mathlib.Data.Int.Log
import Mathlib.Data.Rat.Floor
import Mathlib.Tactic.Linarith

-- Rounding to a binary floating format: p bits, of which the last is never below 2 ^ (least - p).
namespace Rounding

def nearestEven (m : ℚ) : Int :=
  let below := ⌊m⌋
  if m - below < 1 / 2 then below
  else if 1 / 2 < m - below then below + 1
  else if below % 2 = 0 then below else below + 1

def ulp (p : Nat) (least : Int) (q : ℚ) : ℚ := 2 ^ (max (Int.log 2 |q| + 1) least - p)

def rounded (p : Nat) (least : Int) (q : ℚ) : ℚ :=
  nearestEven (q / ulp p least q) * ulp p least q

variable {p : Nat} {least : Int} {q : ℚ}

theorem nearestEven_error (m : ℚ) : |(nearestEven m : ℚ) - m| ≤ 1 / 2 := by
  have hlow := Int.floor_le m
  have hhigh := Int.lt_floor_add_one m
  unfold nearestEven
  dsimp only
  split_ifs with hbelow habove
  · rw [abs_le]
    constructor <;> linarith
  · push_cast
    rw [abs_le]
    constructor <;> linarith
  · rw [abs_le]
    constructor <;> linarith
  · push_cast
    rw [abs_le]
    constructor <;> linarith

theorem ulp_pos : 0 < ulp p least q := zpow_pos (by norm_num) _

theorem rounded_error (p : Nat) (least : Int) (q : ℚ) :
    |rounded p least q - q| ≤ ulp p least q / 2 := by
  have hpos : 0 < ulp p least q := ulp_pos
  have hsplit : rounded p least q - q =
      (nearestEven (q / ulp p least q) - q / ulp p least q) * ulp p least q := by
    rw [rounded, sub_mul, div_mul_cancel₀ q hpos.ne']
  have hmantissa := nearestEven_error (q / ulp p least q)
  rw [hsplit, abs_mul, abs_of_pos hpos]
  linarith [mul_le_mul_of_nonneg_right hmantissa hpos.le]

-- Below a power of two the last bit is worth no more than p bits allow.
theorem ulp_le {k : Int} (h : |q| < 2 ^ k) (hleast : least ≤ k) (hk : 0 < k) :
    ulp p least q ≤ 2 ^ (k - p) := by
  have hlog : Int.log 2 |q| < k := by
    rcases (abs_nonneg q).eq_or_lt with hzero | hpos
    · rwa [← hzero, Int.log_zero_right]
    · exact (Int.lt_zpow_iff_log_lt (by decide) hpos).mp (by exact_mod_cast h)
  exact zpow_le_zpow_right₀ (by norm_num) (by omega)

end Rounding

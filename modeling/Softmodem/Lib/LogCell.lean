import Mathlib.Algebra.GroupWithZero.Nat
import Mathlib.Data.Nat.Log

-- Cells that grow with the number: each power of two is cut into 2 ^ p cells of one width.
namespace LogCell

def width (p x : Nat) : Nat := 2 ^ (Nat.log 2 x - p)

def floor (p x : Nat) : Nat := width p x * (x / width p x)

def middle (p x : Nat) : Nat := floor p x + width p x / 2

variable {p x y : Nat}

theorem width_pos : 0 < width p x := Nat.two_pow_pos _

theorem floor_le : floor p x ≤ x := Nat.mul_div_le _ _

theorem lt_floor_add : x < floor p x + width p x := Nat.lt_mul_div_succ x width_pos

theorem half_width_lt : width p x / 2 < width p x := Nat.div_lt_self width_pos (by decide)

theorem pow_log_eq (h : p ≤ Nat.log 2 x) : 2 ^ Nat.log 2 x = width p x * 2 ^ p := by
  rw [width, ← Nat.pow_add, Nat.sub_add_cancel h]

theorem pow_succ_log_eq (h : p ≤ Nat.log 2 x) :
    2 ^ (Nat.log 2 x + 1) = width p x * 2 ^ (p + 1) := by
  rw [Nat.pow_succ, pow_log_eq h, Nat.pow_succ, Nat.mul_assoc]

theorem width_mul_le (hx : x ≠ 0) (h : p ≤ Nat.log 2 x) : width p x * 2 ^ p ≤ x :=
  pow_log_eq h ▸ Nat.pow_log_le_self 2 hx

theorem pow_le_floor (hx : x ≠ 0) (h : p ≤ Nat.log 2 x) : 2 ^ Nat.log 2 x ≤ floor p x := by
  have hpow := width_mul_le hx h
  rw [Nat.mul_comm] at hpow
  rw [pow_log_eq h, floor]
  exact Nat.mul_le_mul_left _ ((Nat.le_div_iff_mul_le width_pos).mpr hpow)

-- The cell that holds a number ends before the next power of two.
theorem floor_add_le (h : p ≤ Nat.log 2 x) : floor p x + width p x ≤ 2 ^ (Nat.log 2 x + 1) := by
  have hlt : x < width p x * 2 ^ (p + 1) :=
    pow_succ_log_eq h ▸ Nat.lt_pow_succ_log_self (by decide) x
  have hcell : x / width p x + 1 ≤ 2 ^ (p + 1) := Nat.div_lt_of_lt_mul hlt
  calc floor p x + width p x = width p x * (x / width p x + 1) := by rw [floor, Nat.mul_succ]
    _ ≤ width p x * 2 ^ (p + 1) := Nat.mul_le_mul_left _ hcell
    _ = 2 ^ (Nat.log 2 x + 1) := (pow_succ_log_eq h).symm

theorem log_middle (hx : x ≠ 0) (h : p ≤ Nat.log 2 x) : Nat.log 2 (middle p x) = Nat.log 2 x := by
  have hlow := pow_le_floor hx h
  have hhigh := floor_add_le h
  have hhalf := half_width_lt (p := p) (x := x)
  exact Nat.log_eq_of_pow_le_of_lt_pow (by rw [middle]; omega) (by rw [middle]; omega)

theorem middle_middle (hx : x ≠ 0) (h : p ≤ Nat.log 2 x) : middle p (middle p x) = middle p x := by
  have hwidth : width p (middle p x) = width p x := by rw [width, log_middle hx h, width]
  have hcell : middle p x / width p x = x / width p x := by
    rw [middle, floor, Nat.mul_add_div width_pos, Nat.div_eq_of_lt half_width_lt, Nat.add_zero]
  rw [middle, floor, hwidth, hcell, ← floor, ← middle]

theorem middle_le (p x : Nat) : middle p x ≤ x + width p x / 2 :=
  Nat.add_le_add_right floor_le _

theorem le_middle (h : p < Nat.log 2 x) : x ≤ middle p x + width p x / 2 := by
  have hlt := lt_floor_add (p := p) (x := x)
  have heven : width p x / 2 + width p x / 2 = width p x := by
    obtain ⟨k, hk⟩ : ∃ k, Nat.log 2 x - p = k + 1 := ⟨Nat.log 2 x - p - 1, by omega⟩
    rw [width, hk, Nat.pow_succ]
    omega
  rw [middle]
  omega

theorem middle_mono (hx : x ≠ 0) (h : p ≤ Nat.log 2 x) (hxy : x ≤ y) :
    middle p x ≤ middle p y := by
  have hlog : Nat.log 2 x ≤ Nat.log 2 y := Nat.log_mono_right hxy
  rcases hlog.eq_or_lt with hsame | hless
  · have hwidth : width p y = width p x := by rw [width, ← hsame, width]
    rw [middle, middle, floor, floor, hwidth]
    exact Nat.add_le_add_right (Nat.mul_le_mul_left _ (Nat.div_le_div_right hxy)) _
  · have hbelow : middle p x < 2 ^ (Nat.log 2 x + 1) :=
      (Nat.add_lt_add_left half_width_lt _).trans_le (floor_add_le h)
    have habove : 2 ^ Nat.log 2 y ≤ floor p y := pow_le_floor (by omega) (h.trans hlog)
    have hpow : 2 ^ (Nat.log 2 x + 1) ≤ 2 ^ Nat.log 2 y := Nat.pow_le_pow_right (by decide) hless
    rw [middle] at hbelow ⊢
    rw [middle]
    omega

end LogCell

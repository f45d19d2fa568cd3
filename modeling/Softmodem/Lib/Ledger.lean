import Mathlib.Data.List.Basic

namespace Ledger

variable {A : Type*} [DecidableEq A]

-- Taking what is held, or giving back what is not, breaks the ledger for good.
def settle (take give : A) : Bool → List A → Option Bool
  | held, [] => some held
  | held, a :: as =>
      if a = take then if held then none else settle take give true as
      else if a = give then if held then settle take give false as else none
      else settle take give held as

variable {take give : A}

@[simp] theorem settle_nil (held : Bool) : settle take give held [] = some held := rfl

theorem settle_append (as bs : List A) (held : Bool) :
    settle take give held (as ++ bs) =
      (settle take give held as).bind fun h => settle take give h bs := by
  induction as generalizing held with
  | nil => rfl
  | cons a as ih =>
      simp only [List.cons_append, settle]
      split
      · cases held
        · exact ih true
        · rfl
      split
      · cases held
        · rfl
        · exact ih false
      · exact ih held

theorem settle_append_of {as bs : List A} {held middle after : Bool}
    (ha : settle take give held as = some middle)
    (hb : settle take give middle bs = some after) :
    settle take give held (as ++ bs) = some after := by
  rw [settle_append, ha]
  exact hb

theorem settle_other {as : List A} (h : ∀ a ∈ as, a ≠ take ∧ a ≠ give) (held : Bool) :
    settle take give held as = some held := by
  induction as with
  | nil => rfl
  | cons a as ih =>
      have ha := h a (by simp)
      simpa [settle, ha.1, ha.2] using ih fun b hb => h b (by simp [hb])

end Ledger

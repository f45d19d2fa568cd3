import Softmodem.Lib.Transition

class Strict (α : Type*) where
  force : α → (α → Bool) → Bool
  force_eq : ∀ a k, force a k = k a

namespace Strict

attribute [simp] force_eq

instance : Strict Nat where
  force
    | 0, k => k 0
    | n + 1, k => k (n + 1)
  force_eq := by
    intro n k
    cases n <;> rfl

instance : Strict Bool where
  force
    | false, k => k false
    | true, k => k true
  force_eq := by
    intro b k
    cases b <;> rfl

instance : Strict Int where
  force
    | .ofNat n, k => force n fun n => k (.ofNat n)
    | .negSucc n, k => force n fun n => k (.negSucc n)
  force_eq := by
    intro i k
    cases i <;> simp

instance {n : Nat} : Strict (Fin n) where
  force
    | ⟨v, h⟩, k => force v fun w => if hw : w < n then k ⟨w, hw⟩ else k ⟨v, h⟩
  force_eq := by
    rintro ⟨v, h⟩ k
    simp [h]

instance {w : Nat} : Strict (BitVec w) where
  force
    | ⟨v⟩, k => force v fun v => k ⟨v⟩
  force_eq := by
    rintro ⟨v⟩ k
    simp

variable {α β : Type*} [Strict α] [Strict β]

instance : Strict (α × β) where
  force
    | (a, b), k => force a fun a => force b fun b => k (a, b)
  force_eq := by
    intro p k
    simp

abbrev ofFields {γ : Type*} (fields : γ → α) (build : α → γ) (h : ∀ c, build (fields c) = c) :
    Strict γ where
  force c k := force (fields c) fun a => k (build a)
  force_eq := by
    intro c k
    simp [h]

instance : Strict (Option α) where
  force
    | none, k => k none
    | some a, k => force a fun a => k (some a)
  force_eq := by
    intro o k
    cases o <;> simp

def forceList : List α → (List α → Bool) → Bool
  | [], k => k []
  | a :: as, k => force a fun a => forceList as fun as => k (a :: as)

theorem forceList_eq (as : List α) (k : List α → Bool) : forceList as k = k as := by
  induction as generalizing k with
  | nil => rfl
  | cons a as ih => simp [forceList, ih]

instance : Strict (List α) := ⟨forceList, forceList_eq⟩

end Strict

namespace Transition

variable {S E : Type*} [Strict S]

def runStrict (stride : Nat) (step : S → E → S) (k : S → Bool) : Nat → S → List E → Bool
  | _, s, [] => k s
  | 0, s, e :: es => Strict.force (step s e) fun s => runStrict stride step k stride s es
  | left + 1, s, e :: es => runStrict stride step k left (step s e) es

theorem runStrict_eq (stride : Nat) (step : S → E → S) (k : S → Bool) (left : Nat) (s : S)
    (es : List E) : runStrict stride step k left s es = k (run step s es) := by
  induction es generalizing left s with
  | nil => simp [runStrict]
  | cons e es ih => cases left <;> simp [runStrict, ih]

end Transition

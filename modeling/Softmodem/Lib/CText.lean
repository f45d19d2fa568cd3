import Softmodem.Lib.CString
import Mathlib.Tactic.Common
import Mathlib.Data.List.TakeWhile

namespace CString

theorem prefix_append_cons_iff {α : Type} {c : α} {p s t : List α} (h : c ∉ p) :
    p <+: s ++ c :: t ↔ p <+: s := by
  constructor
  · intro hp
    rcases List.prefix_or_prefix_of_prefix hp (List.prefix_append s (c :: t)) with hs | hs
    · exact hs
    · obtain ⟨q, rfl⟩ := hs
      rw [List.prefix_append_right_inj] at hp
      cases q with
      | nil => simp
      | cons d q => exact absurd (by simp [(List.cons_prefix_cons.mp hp).1]) h
  · intro hp
    exact hp.trans (List.prefix_append s (c :: t))

theorem strncasecmp_iff {s pat : Bytes} :
    strncasecmp s pat = true ↔ pat.map lower <+: s.map lower := by
  rw [strncasecmp, List.isPrefixOf_iff_prefix]

theorem strncasecmp_append {s pat : Bytes} (t : Bytes) (h : pat.length ≤ s.length) :
    strncasecmp (s ++ t) pat = strncasecmp s pat := by
  rw [Bool.eq_iff_iff, strncasecmp_iff, strncasecmp_iff, List.map_append]
  exact ⟨fun hp => List.prefix_of_prefix_length_le hp (List.prefix_append ..) (by simpa using h),
    fun hp => hp.trans (List.prefix_append ..)⟩

theorem strncasecmp_stop {s pat : Bytes} (c : UInt8) (t : Bytes)
    (h : lower c ∉ pat.map lower) : strncasecmp (s ++ c :: t) pat = strncasecmp s pat := by
  rw [Bool.eq_iff_iff, strncasecmp_iff, strncasecmp_iff, List.map_append, List.map_cons,
    prefix_append_cons_iff h]

theorem strncasecmp_length {s pat : Bytes} (h : strncasecmp s pat = true) :
    pat.length ≤ s.length := by
  simpa using (strncasecmp_iff.mp h).length_le

def digitsFrom (n : Nat) (s : Bytes) : Nat :=
  (s.takeWhile isDigit).foldl (fun v c => 10 * v + (c.toNat - 48)) n

theorem digitsFrom_zero (s : Bytes) : digitsFrom 0 s = digitsValue s := rfl

@[simp] theorem digitsFrom_nil (n : Nat) : digitsFrom n [] = n := rfl

theorem digitsFrom_cons (n : Nat) (c : UInt8) (s : Bytes) :
    digitsFrom n (c :: s) =
      if isDigit c then digitsFrom (10 * n + (c.toNat - 48)) s else n := by
  cases h : isDigit c <;> simp [digitsFrom, h]

theorem le_digitsFrom (n : Nat) (s : Bytes) : n ≤ digitsFrom n s := by
  induction s generalizing n with
  | nil => simp
  | cons c s ih =>
      rw [digitsFrom_cons]
      split
      · exact le_trans (by omega) (ih _)
      · exact le_rfl

theorem digitsFrom_append_of_all {s : Bytes} (h : ∀ c ∈ s, isDigit c = true) (n : Nat)
    (t : Bytes) : digitsFrom n (s ++ t) = digitsFrom (digitsFrom n s) t := by
  induction s generalizing n with
  | nil => rfl
  | cons c s ih =>
      have hc := h c (by simp)
      rw [List.cons_append, digitsFrom_cons, digitsFrom_cons, if_pos hc, if_pos hc,
        ih fun d hd => h d (by simp [hd])]

theorem digitsFrom_append_of_stop {s : Bytes} (h : ∃ c ∈ s, isDigit c = false) (n : Nat)
    (t : Bytes) : digitsFrom n (s ++ t) = digitsFrom n s := by
  induction s generalizing n with
  | nil => simp at h
  | cons c s ih =>
      rw [List.cons_append, digitsFrom_cons, digitsFrom_cons]
      cases hc : isDigit c with
      | false => rfl
      | true =>
          obtain ⟨d, hd, hstop⟩ := h
          rcases List.mem_cons.mp hd with rfl | hd
          · rw [hc] at hstop
            simp at hstop
          · simp only [if_pos]
            exact ih ⟨d, hd, hstop⟩ _

def clamped (negative : Bool) (n : Nat) : Int :=
  if negative then max (-(n : Int)) (-2 ^ 63) else min (n : Int) (2 ^ 63 - 1)

theorem strtol_of_text {s u : Bytes} (hs : s.dropWhile isSpace = u) (hu : u ≠ []) :
    ∃ negative v, (∀ t, strtol (s ++ t) = clamped negative (digitsValue (v ++ t))) ∧
      ∀ c ∈ u, c ∈ v ∨ c = 43 ∨ c = 45 := by
  have hdrop (t : Bytes) : (s ++ t).dropWhile isSpace = u ++ t := by
    rw [List.dropWhile_append, hs]
    simp [hu]
  match u, hu with
  | c :: v, _ =>
      by_cases hminus : c = 45
      · subst hminus
        refine ⟨true, v, fun t => ?_, by simp +contextual⟩
        simp only [strtol, hdrop, List.cons_append, clamped, if_true]
      · by_cases hplus : c = 43
        · subst hplus
          refine ⟨false, v, fun t => ?_, by simp +contextual⟩
          simp only [strtol, hdrop, List.cons_append, clamped, Bool.false_eq_true, if_false]
        · refine ⟨false, c :: v, fun t => ?_, by simp +contextual⟩
          simp only [strtol, hdrop, List.cons_append, clamped, Bool.false_eq_true, if_false]
          split
          · simp_all
          · simp_all
          · rfl

theorem digitsFrom_stop {c : UInt8} (hdigit : isDigit c = false) (n : Nat) (s t : Bytes) :
    digitsFrom n (s ++ c :: t) = digitsFrom n s := by
  by_cases hall : ∀ d ∈ s, isDigit d = true
  · rw [digitsFrom_append_of_all hall, digitsFrom_cons, if_neg (by simp [hdigit])]
  · push Not at hall
    obtain ⟨d, hd, hstop⟩ := hall
    exact digitsFrom_append_of_stop ⟨d, hd, by simpa using hstop⟩ n _

theorem atoi_stop {c : UInt8} (hspace : isSpace c = false) (hdigit : isDigit c = false)
    (hplus : c ≠ 43) (hminus : c ≠ 45) (s t : Bytes) : atoi (s ++ c :: t) = atoi s := by
  rcases eq_or_ne (s.dropWhile isSpace) [] with hs | hs
  · have hdrop : (s ++ c :: t).dropWhile isSpace = c :: t := by
      rw [List.dropWhile_append, hs]
      simp [hspace]
    have hvalue : digitsValue (c :: t) = 0 := by
      rw [← digitsFrom_zero, digitsFrom_cons, if_neg (by simp [hdigit])]
    have hnone : digitsValue [] = 0 := rfl
    rw [atoi, atoi, strtol, strtol, hdrop, hs]
    split
    · simp_all
    · simp_all
    · simp only [hvalue, hnone]
  · obtain ⟨negative, v, hv, -⟩ := strtol_of_text rfl hs
    have hself := hv []
    rw [List.append_nil, List.append_nil] at hself
    rw [atoi, atoi, hv, hself, ← digitsFrom_zero, ← digitsFrom_zero, digitsFrom_stop hdigit]

-- Neither a 0 nor a 1 behind the text would change the number it holds.
def NumberEnds (s : Bytes) : Prop :=
  atoi (s ++ [48]) = atoi s ∧ atoi (s ++ [49]) = atoi s

instance (s : Bytes) : Decidable (NumberEnds s) := inferInstanceAs (Decidable (_ ∧ _))

theorem clamped_settles {negative : Bool} {n : Nat}
    (h : (clamped negative (10 * n)).bmod (2 ^ 32) = (clamped negative (10 * n + 1)).bmod (2 ^ 32))
    {k : Nat} (hk : 10 * n ≤ k) : clamped negative k = clamped negative (10 * n) := by
  cases negative with
  | true =>
      simp only [clamped, if_true, Int.bmod] at h ⊢
      omega
  | false =>
      simp only [clamped, Bool.false_eq_true, if_false, Int.bmod] at h ⊢
      omega

theorem atoi_append_of_stop {s : Bytes} {negative : Bool} {v : Bytes}
    (hv : ∀ t, strtol (s ++ t) = clamped negative (digitsValue (v ++ t)))
    (hstop : ∃ c ∈ v, isDigit c = false) (t : Bytes) : atoi (s ++ t) = atoi s := by
  have hs := hv []
  rw [List.append_nil, List.append_nil] at hs
  rw [atoi, atoi, hv t, hs, ← digitsFrom_zero, ← digitsFrom_zero,
    digitsFrom_append_of_stop hstop]

theorem atoi_append {s : Bytes} (h : NumberEnds s) (t : Bytes) : atoi (s ++ t) = atoi s := by
  rcases eq_or_ne (s.dropWhile isSpace) [] with hs | hs
  · have hdrop (t : Bytes) : (s ++ t).dropWhile isSpace = t.dropWhile isSpace := by
      rw [List.dropWhile_append, hs]
      rfl
    have hone := h.2
    simp only [atoi, strtol, hdrop, hs] at hone
    exact absurd hone (by decide)
  · obtain ⟨negative, v, hv, -⟩ := strtol_of_text rfl hs
    by_cases hstop : ∃ c ∈ v, isDigit c = false
    · exact atoi_append_of_stop hv hstop t
    · have hall : ∀ c ∈ v, isDigit c = true := by
        intro c hc
        by_contra hd
        exact hstop ⟨c, hc, by simpa using hd⟩
      have hvalue (t : Bytes) : atoi (s ++ t) =
          (clamped negative (digitsFrom (digitsValue v) t)).bmod (2 ^ 32) := by
        rw [atoi, hv t, ← digitsFrom_zero, digitsFrom_append_of_all hall, digitsFrom_zero]
      have hself := hvalue []
      rw [List.append_nil, digitsFrom_nil] at hself
      cases t with
      | nil => simp
      | cons c t =>
          rw [hvalue, digitsFrom_cons]
          split
          · next hc =>
              have hzero : atoi (s ++ [48]) =
                  (clamped negative (10 * digitsValue v)).bmod (2 ^ 32) := by
                rw [hvalue]; rfl
              have hone : atoi (s ++ [49]) =
                  (clamped negative (10 * digitsValue v + 1)).bmod (2 ^ 32) := by
                rw [hvalue]; rfl
              rw [clamped_settles (hzero.symm.trans (h.1.trans (h.2.symm.trans hone)))
                (le_trans (by omega) (le_digitsFrom _ t)), ← hzero, h.1]
          · exact hself.symm

theorem number_of_not_ends {s : Bytes} (h : ¬ NumberEnds s) :
    ∀ c ∈ s, isSpace c = true ∨ isDigit c = true ∨ c = 43 ∨ c = 45 := by
  intro c hc
  rcases eq_or_ne (s.dropWhile isSpace) [] with hs | hs
  · exact .inl (List.dropWhile_eq_nil_iff.mp hs c hc)
  · obtain ⟨negative, v, hv, hmem⟩ := strtol_of_text rfl hs
    rw [← List.takeWhile_append_dropWhile (p := isSpace) (l := s)] at hc
    rcases List.mem_append.mp hc with hc | hc
    · exact .inl (List.mem_takeWhile_imp hc)
    · rcases hmem c hc with hc | hc
      · by_contra hno
        have hstop : ∃ c ∈ v, isDigit c = false := ⟨c, hc, by simp_all⟩
        exact h ⟨atoi_append_of_stop hv hstop _, atoi_append_of_stop hv hstop _⟩
      · exact .inr (.inr hc)

theorem decimal_nat (n : Nat) :
    decimal (n : Int) = (Nat.toDigits 10 n).map fun c => c.toNat.toUInt8 := rfl

theorem isDigit_of_char {c : Char} (h : c.isDigit = true) :
    isDigit c.toNat.toUInt8 = true ∧ c.toNat.toUInt8.toNat = c.toNat := by
  have hlow : 48 ≤ c.toNat ∧ c.toNat ≤ 57 := by
    rw [Char.isDigit, Bool.and_eq_true, decide_eq_true_eq, decide_eq_true_eq] at h
    exact ⟨UInt32.le_iff_toNat_le.mp h.1, UInt32.le_iff_toNat_le.mp h.2⟩
  have htoNat : c.toNat.toUInt8.toNat = c.toNat := by
    rw [Nat.toUInt8_eq, UInt8.toNat_ofNat']
    omega
  refine ⟨?_, htoNat⟩
  simp only [isDigit, Bool.and_eq_true, decide_eq_true_eq, UInt8.le_iff_toNat_le, htoNat]
  exact hlow

theorem decimal_digits {n : Nat} : ∀ c ∈ decimal (n : Int), isDigit c = true := by
  intro c hc
  rw [decimal_nat] at hc
  obtain ⟨d, hd, rfl⟩ := List.mem_map.mp hc
  exact (isDigit_of_char (Nat.isDigit_of_mem_toDigits (by omega) le_rfl hd)).1

theorem decimal_no_line (n : Nat) : (10 : UInt8) ∉ decimal (n : Int) := fun h =>
  absurd (decimal_digits 10 h) (by decide)

theorem decimal_ne_nil (n : Nat) : decimal (n : Int) ≠ [] := by
  rw [decimal_nat]
  simp [Nat.toDigits_ne_nil]

theorem digitsFrom_chars {s : List Char} (h : ∀ c ∈ s, c.isDigit = true) (n : Nat) :
    digitsFrom n (s.map fun c => c.toNat.toUInt8) = Nat.ofDigitChars 10 s n := by
  induction s generalizing n with
  | nil => rfl
  | cons c s ih =>
      have hc := isDigit_of_char (h c List.mem_cons_self)
      rw [List.map_cons, digitsFrom_cons, if_pos hc.1, hc.2, Nat.ofDigitChars_cons,
        ih fun d hd => h d (List.mem_cons_of_mem _ hd)]
      rfl

theorem digitsValue_decimal (n : Nat) {rest : Bytes}
    (hrest : ∀ c ∈ rest.head?, isDigit c = false) :
    digitsValue (decimal (n : Int) ++ rest) = n := by
  rw [← digitsFrom_zero, digitsFrom_append_of_all decimal_digits, decimal_nat,
    digitsFrom_chars fun c hc => Nat.isDigit_of_mem_toDigits (by omega) le_rfl hc,
    Nat.ofDigitChars_ten_toDigits]
  cases rest with
  | nil => rfl
  | cons c rest => rw [digitsFrom_cons, if_neg (by simp [hrest c rfl])]

theorem not_isSpace_of_isDigit {c : UInt8} (h : isDigit c = true) :
    isSpace c = false ∧ c ≠ 45 ∧ c ≠ 43 := by
  simp only [isDigit, isSpace, Bool.and_eq_true, decide_eq_true_eq, UInt8.le_iff_toNat_le,
    UInt8.reduceToNat] at h ⊢
  refine ⟨?_, ?_, ?_⟩
  · rw [Bool.eq_false_iff]
    simp only [ne_eq, Bool.or_eq_true, Bool.and_eq_true, decide_eq_true_eq, ← UInt8.toNat_inj,
      UInt8.reduceToNat]
    omega
  · rintro rfl
    simp at h
  · rintro rfl
    simp at h

theorem strtol_decimal {left : Bytes} (hleft : ∀ c ∈ left, isSpace c = true) (n : Nat)
    {rest : Bytes} (hrest : ∀ c ∈ rest.head?, isDigit c = false) :
    strtol (left ++ decimal (n : Int) ++ rest) = min (n : Int) (2 ^ 63 - 1) := by
  obtain ⟨c, digits, hdecimal⟩ := List.exists_cons_of_ne_nil (decimal_ne_nil n)
  have hc := not_isSpace_of_isDigit (decimal_digits c (hdecimal ▸ List.mem_cons_self))
  have hdrop : (left ++ decimal (n : Int) ++ rest).dropWhile isSpace =
      decimal (n : Int) ++ rest := by
    rw [List.append_assoc, List.dropWhile_append_of_pos hleft, hdecimal, List.cons_append,
      List.dropWhile_cons_of_neg (by simp [hc.1])]
  have hvalue := digitsValue_decimal n hrest
  rw [strtol, hdrop]
  rw [hdecimal, List.cons_append] at hvalue ⊢
  split
  · simp_all
  · simp_all
  · rw [hvalue]

theorem atoi_decimal {left : Bytes} (hleft : ∀ c ∈ left, isSpace c = true) {n : Nat}
    (hn : n < 2 ^ 31) {rest : Bytes} (hrest : ∀ c ∈ rest.head?, isDigit c = false) :
    atoi (left ++ decimal (n : Int) ++ rest) = n := by
  rw [atoi, strtol_decimal hleft n hrest, Int.bmod]
  split <;> omega

theorem atoi_lt (s : Bytes) : atoi s < 2 ^ 31 := by
  rw [atoi, Int.bmod]
  split <;> omega

theorem takeWhile_prefix_append {α : Type} (p : α → Bool) (s t : List α) :
    s.takeWhile p <+: (s ++ t).takeWhile p := by
  rw [List.takeWhile_append]
  split
  · exact List.IsPrefix.trans (List.takeWhile_prefix p) (List.prefix_append s _)
  · exact List.prefix_rfl

theorem cstr_append_zero (s t : Bytes) : cstr (s ++ 0 :: t) = cstr s := by
  rw [cstr, cstr, List.takeWhile_append]
  split
  · next h =>
    rw [List.takeWhile_cons_of_neg (by decide), List.append_nil]
    exact (List.IsPrefix.eq_of_length (List.takeWhile_prefix _) h).symm
  · rfl

theorem strstr_length {pat s rest : Bytes} (h : strstr pat s = some rest) :
    pat.length ≤ s.length := by
  induction s with
  | nil =>
      rw [strstr] at h
      split at h
      · simp_all
      · cases h
  | cons c s ih =>
      rw [strstr] at h
      split at h
      · next hpat => exact (List.isPrefixOf_iff_prefix.mp hpat).length_le
      · exact (ih h).trans (Nat.le_succ _)

theorem strstr_starts {pat s rest : Bytes} (h : strstr pat s = some rest) : pat <+: rest := by
  induction s with
  | nil =>
      rw [strstr] at h
      split at h
      · next hpat => exact hpat ▸ List.nil_prefix
      · cases h
  | cons c s ih =>
      rw [strstr] at h
      split at h
      · next hpat => exact Option.some.inj h ▸ List.isPrefixOf_iff_prefix.mp hpat
      · exact ih h

theorem strstr_append {pat s rest : Bytes} (h : strstr pat s = some rest) (t : Bytes) :
    strstr pat (s ++ t) = some (rest ++ t) := by
  induction s with
  | nil =>
      rw [strstr] at h
      split at h
      · next hpat =>
        obtain rfl := Option.some.inj h
        subst hpat
        cases t <;> simp [strstr]
      · cases h
  | cons c s ih =>
      rw [strstr] at h
      rw [List.cons_append, strstr]
      split at h
      · next hpat =>
        obtain rfl := Option.some.inj h
        rw [if_pos]
        · rfl
        · exact List.isPrefixOf_iff_prefix.mpr
            ((List.isPrefixOf_iff_prefix.mp hpat).trans (List.prefix_append (c :: s) t))
      · next hpat =>
        rw [if_neg]
        · exact ih h
        · intro hlater
          have hshort : pat.length ≤ (c :: s).length := (strstr_length h).trans (Nat.le_succ _)
          have hprefix := List.prefix_of_prefix_length_le (List.isPrefixOf_iff_prefix.mp hlater)
            (List.prefix_append (c :: s) t) hshort
          exact hpat (List.isPrefixOf_iff_prefix.mpr hprefix)

end CString

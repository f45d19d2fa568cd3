import Mathlib.Algebra.Group.Int.Defs
import Mathlib.Algebra.Group.Nat.Defs
import Mathlib.Data.List.Basic

namespace Printing

-- A buffer that C prints into piece by piece, and the length asked for so far.
structure Printer (α : Type*) where
  buf : List α
  n : Nat

variable {α : Type*}

-- `sizeof(buf) - n` is a size_t: past the end it wraps round.
def Printer.size (p : Printer α) : Nat := (((p.buf.length : Int) - p.n) % 2 ^ 64).toNat

def Printer.write (p : Printer α) (xs : List α) : Option (List α) :=
  if p.n + xs.length ≤ p.buf.length then
    some (p.buf.take p.n ++ xs ++ p.buf.drop (p.n + xs.length))
  else none

def Printer.memcpy (p : Printer α) (xs : List α) : Option (Printer α) :=
  (p.write xs).map fun buf => ⟨buf, p.n + xs.length⟩

def Printer.snprintf (nul : α) (p : Printer α) (text : List α) : Option (Printer α) :=
  (p.write (if p.size = 0 then [] else text.take (p.size - 1) ++ [nul])).map fun buf =>
    ⟨buf, p.n + text.length⟩

def printAll (nul : α) : Printer α → List (List α) → Option (Printer α)
  | p, [] => some p
  | p, text :: texts => (p.snprintf nul text).bind fun p => printAll nul p texts

structure Printer.Holds (p : Printer α) (cap : Nat) (xs : List α) : Prop where
  n : p.n = xs.length
  first : p.buf.take p.n = xs
  length : p.buf.length = cap

theorem Printer.Holds.fresh (buf : List α) : Printer.Holds ⟨buf, 0⟩ buf.length [] :=
  ⟨rfl, rfl, rfl⟩

section Holds

variable {p : Printer α} {cap : Nat} {xs : List α}

theorem Printer.Holds.size (h : p.Holds cap xs) (hcap : cap < 2 ^ 64) (hlt : xs.length < cap) :
    p.size = cap - xs.length := by
  rw [Printer.size, h.n, h.length]
  omega

theorem Printer.Holds.write (h : p.Holds cap xs) {ys : List α}
    (hroom : xs.length + ys.length ≤ cap) {text : List α} (htext : text <+: ys) :
    ∃ buf, p.write ys = some buf ∧
      Printer.Holds ⟨buf, p.n + text.length⟩ cap (xs ++ text) := by
  have hlen : p.n + ys.length ≤ p.buf.length := by rwa [h.n, h.length]
  refine ⟨_, if_pos hlen, ?_, ?_, ?_⟩
  · rw [List.length_append, h.n]
  · obtain ⟨rest, rfl⟩ := htext
    have hfirst : (xs ++ text).length = p.n + text.length := by rw [List.length_append, h.n]
    dsimp only
    rw [h.first, ← hfirst, ← List.append_assoc, List.append_assoc, List.take_left]
  · have htake : (p.buf.take p.n).length = p.n := List.length_take_of_le (by omega)
    simp only [List.length_append, htake, List.length_drop]
    rw [← h.length]
    omega

theorem Printer.Holds.memcpy (h : p.Holds cap xs) (ys : List α)
    (hroom : xs.length + ys.length ≤ cap) :
    ∃ p', p.memcpy ys = some p' ∧ p'.Holds cap (xs ++ ys) := by
  obtain ⟨buf, hbuf, hholds⟩ := h.write hroom (List.prefix_refl ys)
  exact ⟨_, by rw [Printer.memcpy, hbuf, Option.map_some], hholds⟩

theorem Printer.Holds.snprintf (h : p.Holds cap xs) (hcap : cap < 2 ^ 64) (text : List α)
    (hroom : xs.length + text.length < cap) (nul : α) :
    ∃ p', p.snprintf nul text = some p' ∧ p'.Holds cap (xs ++ text) := by
  have hsize := h.size hcap (by omega)
  have hwhole : text.take (p.size - 1) = text := List.take_of_length_le (by omega)
  have hterminated : xs.length + (text ++ [nul]).length ≤ cap := by
    rw [List.length_append, List.length_singleton]
    omega
  obtain ⟨buf, hbuf, hholds⟩ := h.write hterminated (List.prefix_append text [nul])
  refine ⟨_, ?_, hholds⟩
  rw [Printer.snprintf, if_neg (by omega), hwhole, hbuf, Option.map_some]

theorem Printer.Holds.printAll (h : p.Holds cap xs) (hcap : cap < 2 ^ 64)
    (texts : List (List α)) (hroom : xs.length + texts.flatten.length < cap) (nul : α) :
    ∃ p', printAll nul p texts = some p' ∧ p'.Holds cap (xs ++ texts.flatten) := by
  induction texts generalizing p xs with
  | nil => exact ⟨p, rfl, by rwa [List.flatten_nil, List.append_nil]⟩
  | cons text texts ih =>
      rw [List.flatten_cons, List.length_append] at hroom
      obtain ⟨p₁, hp₁, hholds⟩ := h.snprintf hcap text (by omega) nul
      obtain ⟨p₂, hp₂, hholds₂⟩ := ih hholds (by rw [List.length_append]; omega)
      refine ⟨p₂, ?_, ?_⟩
      · rw [Printing.printAll, hp₁, Option.bind_some, hp₂]
      · rwa [List.flatten_cons, ← List.append_assoc]

end Holds

-- Before every piece there is room for all of it and its terminator; behind the last, for `body`.
structure PrintedWhole (nul : α) (buf : List α) (texts : List (List α)) (body : List α) : Prop where
  each : ∀ before text after, texts = before ++ text :: after →
    ∃ p, printAll nul ⟨buf, 0⟩ before = some p ∧ p.n < buf.length ∧
      p.size = buf.length - p.n ∧ text.length < p.size
  last : ∃ p, (printAll nul ⟨buf, 0⟩ texts).bind (fun p => p.memcpy body) = some p ∧
    p.n < buf.length ∧ p.buf.take p.n = texts.flatten ++ body

theorem printedWhole_of_length {buf : List α} {texts : List (List α)} {body : List α}
    (hbuf : buf.length < 2 ^ 64) (h : texts.flatten.length + body.length < buf.length) (nul : α) :
    PrintedWhole nul buf texts body where
  each := by
    rintro before text after rfl
    simp only [List.flatten_append, List.flatten_cons, List.length_append] at h
    obtain ⟨p, hp, hholds⟩ := (Printer.Holds.fresh buf).printAll hbuf before
      (by rw [List.length_nil]; omega) nul
    rw [List.nil_append] at hholds
    have hsize := hholds.size hbuf (by omega)
    rw [← hholds.n] at hsize h
    exact ⟨p, hp, by omega, hsize, by omega⟩
  last := by
    obtain ⟨p, hp, hholds⟩ := (Printer.Holds.fresh buf).printAll hbuf texts
      (by rw [List.length_nil]; omega) nul
    rw [List.nil_append] at hholds
    obtain ⟨q, hq, hfull⟩ := hholds.memcpy body (by omega)
    refine ⟨q, by rw [hp, Option.bind_some, hq], ?_, hfull.first⟩
    rw [hfull.n, List.length_append]
    exact h

end Printing

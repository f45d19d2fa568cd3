import Mathlib.Algebra.Group.Int.Defs
import Mathlib.Algebra.Group.Nat.Defs
import Mathlib.Data.List.Basic

abbrev Bytes := List UInt8

instance bytes_lawfulBEq : LawfulBEq Bytes := inferInstance

-- A text is searched byte by byte, not over all 256 of them.
instance bytes_decidableBAll {p : UInt8 → Prop} [DecidablePred p] (text : Bytes) :
    Decidable (∀ c ∈ text, p c) := List.decidableBAll p text

instance byte_decidableForallMem {p : UInt8 → Prop} [DecidablePred p] (c : Option UInt8) :
    Decidable (∀ b ∈ c, p b) := Option.decidableForallMem c

namespace CString

def ascii (s : String) : Bytes := s.toList.map fun c => c.toNat.toUInt8

def cstr (mem : Bytes) : Bytes := mem.takeWhile (· ≠ 0)

def lower (c : UInt8) : UInt8 := if 65 ≤ c ∧ c ≤ 90 then c + 32 else c

def strncmp (s pat : Bytes) : Bool := pat.isPrefixOf s

def strncasecmp (s pat : Bytes) : Bool := (pat.map lower).isPrefixOf (s.map lower)

def strstr (pat : Bytes) : Bytes → Option Bytes
  | [] => if pat = [] then some [] else none
  | c :: s => if pat.isPrefixOf (c :: s) then some (c :: s) else strstr pat s

def splitAt (c : UInt8) (s : Bytes) : Option (Bytes × Bytes) :=
  match s.span (· ≠ c) with
  | (_, []) => none
  | (head, _ :: rest) => some (head, rest)

def isSpace (c : UInt8) : Bool := c = 32 || (9 ≤ c && c ≤ 13)

def isDigit (c : UInt8) : Bool := 48 ≤ c && c ≤ 57

def digitsValue (s : Bytes) : Nat :=
  (s.takeWhile isDigit).foldl (fun v c => 10 * v + (c.toNat - 48)) 0

def strtol (s : Bytes) : Int :=
  match s.dropWhile isSpace with
  | 45 :: rest => max (-(digitsValue rest : Int)) (-2 ^ 63)
  | 43 :: rest => min (digitsValue rest : Int) (2 ^ 63 - 1)
  | rest => min (digitsValue rest : Int) (2 ^ 63 - 1)

def atoi (s : Bytes) : Int := (strtol s).bmod (2 ^ 32)

def digit (d : Nat) : UInt8 := if d < 10 then (48 + d).toUInt8 else (87 + d).toUInt8

def decimal : Int → Bytes
  | .ofNat n => (Nat.toDigits 10 n).map fun c => c.toNat.toUInt8
  | .negSucc n => 45 :: (Nat.toDigits 10 (n + 1)).map fun c => c.toNat.toUInt8

def hex8 (w : UInt32) : Bytes :=
  (List.range 8).map fun i => digit (w.toNat / 16 ^ (7 - i) % 16)

end CString

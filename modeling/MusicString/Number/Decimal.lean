/-!
# Decimal numbers as text

* `Decimal.value` and `Decimal.digits` relate a run of decimal digits to the number it denotes;
* `Decimal.ofInt` writes an integer and `Decimal.toInt?` reads one, with either sign in front;
* `Decimal` is a decimal fraction as it is written, a coefficient and a power of ten, and
  `Decimal.parse?` reads its positional and scientific spellings.
-/

namespace MusicString

/-- The decimal fraction `± coefficient · 10 ^ exponent`. -/
structure Decimal where
  negative : Bool
  coefficient : Nat
  exponent : Int
  deriving DecidableEq

namespace Decimal

/-- A power of ten. -/
def tenPow (n : Nat) : Nat :=
  Nat.pow 10 n

/-- The number that a run of decimal digits denotes. -/
def value (digits : List Char) : Nat :=
  Nat.ofDigitChars 10 digits 0

/-- The decimal digits of a number, without leading zeros. -/
def digits (n : Nat) : List Char :=
  Nat.toDigits 10 n

@[simp] theorem value_nil : value [] = 0 := rfl

@[simp] theorem value_digits (n : Nat) : value (digits n) = n :=
  Nat.ofDigitChars_toDigits (by decide) (by decide)

theorem isDigit_of_mem_digits {n : Nat} {c : Char} (h : c ∈ digits n) : c.isDigit = true :=
  Nat.isDigit_of_mem_toDigits (by decide) (by decide) h

/-- An integer as it is written: a minus sign if it is negative, and its digits. -/
def ofInt : Int → List Char
  | .ofNat n => digits n
  | .negSucc n => '-' :: digits (n + 1)

/-- The text of an integer. -/
def text (n : Int) : String :=
  String.ofList (ofInt n)

/-- Whether a text consists of decimal digits, of which there may be none. -/
def allDigits (s : List Char) : Bool :=
  s.all Char.isDigit

/-- The number a text denotes, if it is a non-empty run of decimal digits. -/
def toNat? (s : List Char) : Option Nat :=
  if s ≠ [] ∧ allDigits s then some (value s) else none

/-- A text without the sign that it may start with, and whether that sign is a minus. -/
def splitSign : List Char → Bool × List Char
  | '-' :: s => (true, s)
  | '+' :: s => (false, s)
  | s => (false, s)

/-- An integer of the given sign and size. -/
def signed (negative : Bool) (n : Nat) : Int :=
  if negative then -(n : Int) else n

/-- The integer a text denotes: an optional sign and one or more decimal digits. -/
def toInt? (s : List Char) : Option Int :=
  let (negative, digits) := splitSign s
  (toNat? digits).map (signed negative)

/-- The power of ten a text denotes in scientific spelling: nothing, or `e` and an integer. -/
def exponent? : List Char → Option Int
  | [] => some 0
  | c :: s => if c = 'e' ∨ c = 'E' then toInt? s else none

/-- The decimal fraction with the given digits before and after the point. -/
def ofParts (negative : Bool) (whole fraction : List Char) (exponent : Int) : Decimal :=
  ⟨negative, value (whole ++ fraction), exponent - fraction.length⟩

/-- The digits of a text after its point, if it has one, and what follows them. -/
def splitFraction : List Char → List Char × List Char
  | '.' :: s => s.span Char.isDigit
  | s => ([], s)

/--
Reads a decimal fraction: an optional sign, digits that a point may divide or border, of which
there is at least one, and an optional power of ten.
-/
def parse? (s : List Char) : Option Decimal :=
  let (negative, s) := splitSign s
  let (whole, s) := s.span Char.isDigit
  let (fraction, s) := splitFraction s
  if whole = [] ∧ fraction = [] then none
  else (exponent? s).map (ofParts negative whole fraction)

end Decimal

end MusicString

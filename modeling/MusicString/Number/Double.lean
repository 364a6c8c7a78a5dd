import MusicString.Number.Decimal
import MusicString.Number.Ranged

/-!
# Doubles

A double is a `Float`, the binary floating-point number of 64 bits, with one value for all that is
not a number.  `Double.decode` gives its exact value, which has an integer part and a fraction,
`Double.toLong` casts it to a long, and `Double.ofDecimal` gives the double nearest to a decimal
fraction.
-/

namespace MusicString.Double

/-- The number `± mantissa · 2 ^ exponent`. -/
structure Dyadic where
  negative : Bool
  mantissa : Nat
  exponent : Int
  deriving DecidableEq

/-- A power of two. -/
def twoPow (n : Nat) : Nat :=
  Nat.pow 2 n

/-- What a double stands for. -/
inductive Meaning
  | notANumber
  | infinite (negative : Bool)
  | finite (value : Dyadic)
  deriving DecidableEq

/-- The meaning of a double, read off its sign bit, 11 exponent bits and 52 mantissa bits. -/
def decode (x : Float) : Meaning :=
  let bits : Nat := x.toBits.toNat
  let negative := decide (twoPow 63 ≤ bits)
  let biased : Nat := bits / twoPow 52 % twoPow 11
  let fraction : Nat := bits % twoPow 52
  if biased = 2047 then
    if fraction = 0 then .infinite negative else .notANumber
  else if biased = 0 then .finite ⟨negative, fraction, -1074⟩
  else .finite ⟨negative, twoPow 52 + fraction, (biased : Int) - 1075⟩

/-- The integer part of a dyadic number, which is rounded towards zero. -/
def Dyadic.trunc (d : Dyadic) : Int :=
  let scale := twoPow d.exponent.natAbs
  Decimal.signed d.negative (if 0 ≤ d.exponent then d.mantissa * scale else d.mantissa / scale)

/-- The fraction of a dyadic number, which is what its integer part leaves of it. -/
def Dyadic.fract (d : Dyadic) : Dyadic :=
  { d with mantissa := if 0 ≤ d.exponent then 0 else d.mantissa % twoPow d.exponent.natAbs }

/-- Whether the fraction of a double is zero; a double that is not finite has none. -/
def fractIsZero (x : Float) : Bool :=
  match decode x with
  | .finite d => d.fract.mantissa = 0
  | _ => false

/-- The long nearest to the integer part of a double, and zero for what is not a number. -/
def toLong (x : Float) : Long :=
  match decode x with
  | .notANumber => Long.nearest 0
  | .infinite negative => Long.nearest (Decimal.signed negative (twoPow 63))
  | .finite d => Long.nearest d.trunc

/-- Positive infinity. -/
def infinity : Float :=
  Float.ofBits 0x7FF0000000000000

/--
The double nearest to a decimal fraction, the even one of two that are equally near.  A fraction
too large for any double gives infinity and one too small gives zero.
-/
def ofDecimal (d : Decimal) : Float :=
  let top := (Decimal.digits d.coefficient).length + d.exponent
  let size :=
    if d.coefficient = 0 ∨ top < -400 then 0.0
    else if 400 < top then infinity
    else Float.ofScientific d.coefficient (decide (d.exponent < 0)) d.exponent.natAbs
  if d.negative then -size else size

end MusicString.Double

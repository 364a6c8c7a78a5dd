import MusicString.Number.Double

/-!
# The shortest decimal of a double

The decimal with the fewest digits among those that read back as a given double, and the nearest
to it among those.

The reals that read back as the positive double `m · 2 ^ q` form an interval around it, whose ends
belong to it exactly if `m` is even.  On each decimal grid only the two neighbours of the double
need to be tried, and grids are tried from the coarsest on.
-/

namespace MusicString.Double

/-- Which of two equally near neighbours is taken. -/
inductive Tie
  | up
  | toEven
  deriving DecidableEq

/-- The neighbour taken, of `n` and `n + 1`, when a number lies midway. -/
def Tie.choose : Tie → Nat → Nat
  | .up, n => n + 1
  | .toEven, n => if n % 2 = 0 then n else n + 1

/--
The positive number `mantissa · 2 ^ exponent` together with its closeness to the next smaller
double, which is half as far as the next larger one if `halved`.
-/
structure Positive where
  mantissa : Nat
  exponent : Int
  halved : Bool

/-- The decimal exponent of a positive number: `10 ^ k ≤ v < 10 ^ (k + 1)`. -/
def Positive.magnitude (v : Positive) : Int :=
  let num := v.mantissa * twoPow v.exponent.toNat
  let den := twoPow (-v.exponent).toNat
  if den ≤ num then ((Decimal.digits (num / den)).length : Int) - 1
  else -((Decimal.digits ((den - 1) / num)).length : Int)

/--
The point of the grid of multiples of `10 ^ g` that reads back as `v` and is nearest to it, as a
multiple, if one of the two neighbours of `v` does.

Everything is scaled by a common denominator: the grid point `n` is `n * unit`, and a quarter of
the mantissa's unit is `quarter`.
-/
def Positive.onGrid (tie : Tie) (v : Positive) (g : Int) : Option Nat :=
  let unit := Decimal.tenPow g.toNat * twoPow (2 - v.exponent).toNat
  let quarter := twoPow (v.exponent - 2).toNat * Decimal.tenPow (-g).toNat
  let center := 4 * v.mantissa * quarter
  let upper := (4 * v.mantissa + 2) * quarter
  let lower := (4 * v.mantissa - (if v.halved then 1 else 2)) * quarter
  let inside := fun n =>
    if v.mantissa % 2 = 0 then decide (lower ≤ n * unit ∧ n * unit ≤ upper)
    else decide (lower < n * unit ∧ n * unit < upper)
  let below := center / unit
  match inside below, inside (below + 1) with
  | true, true =>
    let distance := 2 * (center - below * unit)
    some (if distance < unit then below
      else if unit < distance then below + 1
      else tie.choose below)
  | true, false => some below
  | false, true => some (below + 1)
  | false, false => none

/-- The shortest decimal, as a coefficient and a power of ten; seventeen digits always suffice. -/
def Positive.shortest (tie : Tie) (v : Positive) : Nat × Int :=
  let top := v.magnitude
  let hit := fun i : Nat => (v.onGrid tie (top - i)).map fun n => (n, top - (i : Int))
  ((List.range 17).findSome? hit).getD (0, 0)

/-- A run of digits and the place of the point, counted from the first digit. -/
structure Digits where
  digits : List Char
  point : Int

/-- The digits of a dyadic number, none for zero and none superfluous. -/
def Dyadic.shortestDigits (tie : Tie) (d : Dyadic) : Digits :=
  if d.mantissa = 0 then ⟨[], 0⟩
  else
    let halved := decide (d.mantissa = twoPow 52 ∧ -1074 < d.exponent)
    let (n, g) := Positive.shortest tie ⟨d.mantissa, d.exponent, halved⟩
    let run := Decimal.digits n
    ⟨(run.reverse.dropWhile (· = '0')).reverse, run.length + g⟩

end MusicString.Double

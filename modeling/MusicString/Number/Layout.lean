import MusicString.Number.Shortest

/-!
# How doubles are written

A `Layout` holds the choices a printed format makes about doubles; `Layout.write` applies them to
the shortest digits of a double.
-/

namespace MusicString.Double

/-- The choices of a format. -/
structure Layout where
  /-- Which of two equally near shortest decimals is written. -/
  tie : Tie
  /-- The decimal exponents that are written without a power of ten. -/
  positional : Int → Bool
  /-- What follows a whole number that is written without a power of ten. -/
  wholeEnding : String
  /-- The text of infinity. -/
  infinity : String
  /-- The text of what is not a number. -/
  notANumber : String

/-- Zeros in number `n`. -/
def zeros (n : Nat) : String :=
  String.ofList (List.replicate n '0')

/-- Digits with the point at its place, without a power of ten. -/
def Layout.writePositional (l : Layout) (d : Digits) : String :=
  let count : Int := d.digits.length
  if d.point ≤ 0 then "0." ++ zeros (-d.point).toNat ++ String.ofList d.digits
  else if count ≤ d.point then
    String.ofList d.digits ++ zeros (d.point - count).toNat ++ l.wholeEnding
  else
    let (whole, fraction) := d.digits.splitAt d.point.toNat
    String.ofList whole ++ "." ++ String.ofList fraction

/-- Digits with the point after the first one, and a power of ten. -/
def writeScientific (d : Digits) : String :=
  let mantissa :=
    match d.digits with
    | [] => ""
    | [c] => String.ofList [c]
    | c :: rest => String.ofList (c :: '.' :: rest)
  mantissa ++ "e" ++ Decimal.text (d.point - 1)

/-- The text of a finite double without its sign. -/
def Layout.writeSize (l : Layout) (d : Dyadic) : String :=
  let ds := d.shortestDigits l.tie
  if ds.digits = [] then "0" ++ l.wholeEnding
  else if l.positional (ds.point - 1) then l.writePositional ds
  else writeScientific ds

/-- The text of a double. -/
def Layout.write (l : Layout) (x : Float) : String :=
  match decode x with
  | .notANumber => l.notANumber
  | .infinite negative => (if negative then "-" else "") ++ l.infinity
  | .finite d => (if d.negative then "-" else "") ++ l.writeSize d

end MusicString.Double

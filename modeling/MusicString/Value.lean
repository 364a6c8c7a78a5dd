import MusicString.Number.Ranged
import MusicString.Number.Layout

/-!
# Values

A value is a number of one of four kinds: byte, int, long or double.  Values convert between kinds
when nothing is lost: an integer converts to each integer kind that it fits, a whole double
likewise, and every integer converts to the nearest double.
-/

namespace MusicString

/-- The kinds of numbers. -/
inductive Kind
  | byte
  | int
  | long
  | double
  deriving DecidableEq

/-- The name of a kind in messages. -/
def Kind.name : Kind → String
  | .byte => "byte"
  | .int => "int"
  | .long => "long"
  | .double => "double"

/-- Messages write doubles with the fewest digits, never with a power of ten or a fraction zero. -/
def messageDouble : Double.Layout where
  tie := .up
  positional _ := true
  wholeEnding := ""
  infinity := "inf"
  notANumber := "NaN"

/-- A number with its kind. -/
inductive Value
  | byte (n : Byte)
  | int (n : Integer)
  | long (n : Long)
  | double (x : Float)
  deriving DecidableEq

namespace Value

/-- The kind of a value. -/
def kind : Value → Kind
  | byte _ => .byte
  | int _ => .int
  | long _ => .long
  | double _ => .double

/-- The number of a value, as messages write it. -/
def number : Value → String
  | byte n => Decimal.text n.val
  | int n => Decimal.text n.val
  | long n => Decimal.text n.val
  | double x => messageDouble.write x

/-- A value as messages write it: its kind and its number. -/
def text (v : Value) : String :=
  v.kind.name ++ " " ++ v.number

/-- The smallest long. -/
def minLong : Int := -9223372036854775808

/-- The largest long. -/
def maxLong : Int := 9223372036854775807

/--
The long that a double is cast to, if it is whole and no further out than the doubles nearest to the
smallest and to the largest long.
-/
def wholeLong? (x : Float) : Option Long :=
  if x.isFinite ∧ Double.fractIsZero x ∧ Float.ofInt minLong ≤ x ∧ x ≤ Float.ofInt maxLong then
    some (Double.toLong x)
  else none

/-- The integer a value stands for, if it is whole. -/
def integer? : Value → Option Int
  | byte n => some n.val
  | int n => some n.val
  | long n => some n.val
  | double x => (wholeLong? x).map (·.val)

/-- The double nearest to a value. -/
def toDouble : Value → Float
  | byte n => Float.ofInt n.val
  | int n => Float.ofInt n.val
  | long n => Float.ofInt n.val
  | double x => x

/-- Values of one kind whose numbers are equal; no value agrees with what is not a number. -/
def agrees : Value → Value → Bool
  | byte a, byte b => a = b
  | int a, int b => a = b
  | long a, long b => a = b
  | double a, double b => a == b
  | _, _ => false

/-- The value of an integer definition: an int if it fits, else a long. -/
def ofLong (n : Long) : Value :=
  match Ranged.ofInt? n.val with
  | some i => int i
  | none => long n

theorem ofLong_eq (n : Long) : ofLong n =
    if h : -2147483648 ≤ n.val ∧ n.val ≤ 2147483647 then int ⟨n.val, h.1, h.2⟩ else long n := by
  unfold ofLong Ranged.ofInt?
  by_cases h : -2147483648 ≤ n.val ∧ n.val ≤ 2147483647 <;> simp [h]

end Value

/-- The numbers of one kind, which a field of an element can hold. -/
class Scalar (α : Type) where
  /-- The kind of these numbers. -/
  kind : Kind
  /-- The number a value converts to, if it does. -/
  ofValue? : Value → Option α
  /-- A number as a value. -/
  toValue : α → Value

instance : Scalar Byte where
  kind := .byte
  ofValue? v := v.integer?.bind Ranged.ofInt?
  toValue := .byte

instance : Scalar Integer where
  kind := .int
  ofValue? v := v.integer?.bind Ranged.ofInt?
  toValue := .int

instance : Scalar Long where
  kind := .long
  ofValue? v := v.integer?.bind Ranged.ofInt?
  toValue := .long

instance : Scalar Float where
  kind := .double
  ofValue? v := some v.toDouble
  toValue := .double

end MusicString

import MusicString.Read
import MusicString.Expr

/-!
# Reading numbers, references and expressions

Each of these reads either succeeds or sets the cursor back to where it was before it fails.
-/

namespace MusicString.Read

open Text

variable {α : Type}

/-- Takes a run of decimal digits that is a byte. -/
def decimalByte : Read Byte := do
  let start ← get
  let ds ← digits
  if ds = [] then
    unexpected "a decimal byte"
  else
    match Ranged.ofInt? (Decimal.value ds : Int) with
    | some n => return n
    | none =>
      set start
      throw (.grammar (.largeByte (String.ofList ds)) start.pos)

/-- The byte of two hexadecimal digits. -/
def byteOfHex (high low : Char) : Byte :=
  Byte.nearest (16 * hexValue high + hexValue low : Nat)

/-- Takes two hexadecimal digits as a byte. -/
def hexByte : Read Byte := do
  let ds ← chars (some 2) true [.upperHexDigit] []
  return byteOfHex (ds.getD 0 '0') (ds.getD 1 '0')

/-- Takes a byte in radix 10 or 16; another radix is an error. -/
def byte : Nat → Read Byte
  | 10 => decimalByte
  | 16 => hexByte
  | radix => do throw ⟨.unsupportedRadix radix, ← position⟩

/-- Takes a reference `[name]`, if one starts here. -/
def reference : Read (Option String) := do
  let start ← get
  if ← eat '[' then
    let name ← token false [']']
    if ← eat ']' then
      if name = [] then
        set start
        throw (.grammar .emptyReference start.pos)
      else
        return some (String.ofList name)
    else
      let stop ← get
      set start
      throw (stop.unexpected "']' closing the reference")
  else
    return none

/-- The long of the given sign and size, if its size fits a long. -/
def longOfSize? (negative : Bool) (size : Nat) : Option Long :=
  if (size : Int) ≤ Value.maxLong then Ranged.ofInt? (Decimal.signed negative size) else none

/-- Takes an optional minus sign and decimal digits, which without the sign must fit a long. -/
def long (what : String) : Read Long := do
  let start ← get
  let negative ← eat '-'
  let ds ← digits
  if ds = [] then
    set start
    unexpected what
  else
    match longOfSize? negative (Decimal.value ds) with
    | some n => return n
    | none =>
      set start
      throw (.grammar (.largeInteger (String.ofList ds) what) start.pos)

/-- Takes an optional minus sign and decimal digits, as an int. -/
def integer : Read Integer := do
  let start ← get
  let n ← long "an int"
  match Ranged.ofInt? n.val with
  | some i => return i
  | none =>
    set start
    throw (.grammar (.misfit n.val "an int") start.pos)

/-- Takes a point and the digits after it, if a digit follows the point. -/
def fraction : Read (List Char) := do
  if (← peek) = some '.' && (← peekAt 1).any Char.isDigit then
    skip 1
    digits
  else
    return []

theorem fraction_apply (c : Cursor) :
    fraction c =
      if c.peek = some '.' ∧ c.rest[1]?.any Char.isDigit then digits (c.move 1) else .ok [] c := by
  simp [fraction, bind, EStateM.bind]
  split <;> rfl

/-- Takes a decimal number such as `120`, `-0.25` or `.5`. -/
def double : Read Float := do
  let start ← get
  let negative ← eat '-'
  let whole ← digits
  let part ← fraction
  if whole = [] ∧ part = [] then
    set start
    unexpected "a number"
  else
    return Double.ofDecimal (.ofParts negative whole part 0)

/-- Takes a reference, or else a number as `literal` reads it. -/
def expr (literal : Read α) : Read (Expr α) := do
  match ← reference with
  | some name => return .reference name
  | none => return .literal (← literal)

/-- Takes an expression that stands for a byte. -/
def byteExpr : Read (Expr Byte) :=
  expr decimalByte

/-- Takes an expression that stands for an int. -/
def intExpr : Read (Expr Integer) :=
  expr integer

/-- Takes an expression that stands for a long. -/
def longExpr : Read (Expr Long) :=
  expr (long "a long")

/-- Takes an expression that stands for a double. -/
def doubleExpr : Read (Expr Float) :=
  expr double

end MusicString.Read

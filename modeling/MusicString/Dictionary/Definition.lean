import MusicString.Dictionary

/-!
# Definitions

The text of a definition: an optional letter for the role, and a number.  A number with a point is
a double; any other is an int, or a long if it does not fit an int.
-/

namespace MusicString.Definition

/-- The text after the role letter that it may start with, and that role. -/
def splitRole : List Char → Role × List Char
  | [] => (.value, [])
  | c :: s =>
    match Role.ofLetter? c with
    | some role => (role, s)
    | none => (.value, c :: s)

/-- The value a number without a point denotes, if it fits a long. -/
def integer? (s : List Char) : Option Value :=
  (Decimal.toInt? s).bind fun n => (Ranged.ofInt? n).map Value.ofLong

/-- The value a number with a point denotes. -/
def double? (s : List Char) : Option Value :=
  (Decimal.parse? s).map fun d => .double (Double.ofDecimal d)

/-- The entry that the text of a definition denotes. -/
def parse? (s : List Char) : Option Entry :=
  let (role, number) := splitRole s
  (if '.' ∈ number then double? number else integer? number).map (⟨·, role⟩)

end MusicString.Definition

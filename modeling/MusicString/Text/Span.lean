/-!
# Spans of code points

A property of characters is given by a table of closed spans of code points.  Cased letters often
alternate, capital and small, so a table may also list spans of which every second code point has
the property.
-/

namespace MusicString.Text

/-- A closed span of code points, first and last. -/
abbrev Span := Nat × Nat

/-- Whether a code point lies in the span. -/
def Span.holds (s : Span) (n : Nat) : Bool :=
  s.1 ≤ n && n ≤ s.2

/-- Whether a code point is one of the first, third, fifth, … of the span. -/
def Span.alternates (s : Span) (n : Nat) : Bool :=
  s.holds n && (n - s.1) % 2 == 0

theorem Span.holds_iff {s : Span} {n : Nat} : s.holds n = true ↔ s.1 ≤ n ∧ n ≤ s.2 := by
  simp [Span.holds]

end MusicString.Text

import MusicString.Number.Ranged

/-!
# Pitches and lengths of notes

The letters that name pitches, accidentals and lengths.
-/

namespace MusicString

namespace Pitch

/-- The semitones of a letter above C. -/
def offset? : Char → Option Int
  | 'C' => some 0
  | 'D' => some 2
  | 'E' => some 4
  | 'F' => some 5
  | 'G' => some 7
  | 'A' => some 9
  | 'B' => some 11
  | _ => none

/-- The place of a letter on the circle of fifths, counted from C. -/
def fifths? : Char → Option Int
  | 'F' => some (-1)
  | 'C' => some 0
  | 'G' => some 1
  | 'D' => some 2
  | 'A' => some 3
  | 'E' => some 4
  | 'B' => some 5
  | _ => none

/-- Whether a character is a sharp, a flat or a natural. -/
def isAccidental (c : Char) : Bool :=
  c = '#' || c = 'b' || c = 'n'

/--
The semitones after one more accidental, in an int that stays where it is at the ends of its range;
a natural cancels the accidentals before it.
-/
def saturating (total : Integer) : Char → Integer
  | '#' => .nearest (total.val + 1)
  | 'b' => .nearest (total.val - 1)
  | 'n' => .nearest 0
  | _ => total

/-- The int of a run of accidentals. -/
def saturatingTotal (run : List Char) : Integer :=
  run.foldl saturating (.nearest 0)

/-- The semitones of a run of accidentals. -/
def accidentals (run : List Char) : Int :=
  (saturatingTotal run).val

/-- The largest number of sharps or flats on one letter. -/
def maxAccidentals : Int := 12

/-- Whether a note can start with a character: a letter, a rest or a reference. -/
def startsNote (c : Char) : Bool :=
  (offset? c).isSome || c = 'R' || c = '['

theorem offset?_isSome_of_fifths? {c : Char} {fifths : Int} (h : fifths? c = some fifths) :
    ∃ offset, offset? c = some offset := by
  unfold fifths? at h
  split at h <;> cases h <;> exact ⟨_, rfl⟩

theorem startsNote_cases {c : Char} (h : startsNote c = true) :
    (∃ base, offset? c = some base) ∨ c = 'R' ∨ c = '[' := by
  simpa [startsNote, Option.isSome_iff_exists, or_assoc] using h

end Pitch

namespace Length

/-- The length of a letter, in whole notes. -/
def ofLetter? : Char → Option Float
  | 'w' => some 1.0
  | 'h' => some 0.5
  | 'q' => some 0.25
  | 'i' => some 0.125
  | 's' => some 0.0625
  | 't' => some 0.03125
  | 'x' => some 0.015625
  | 'o' => some 0.0078125
  | _ => none

/-- Whether a character is the letter of a length. -/
def isLetter (c : Char) : Bool :=
  (ofLetter? c).isSome

/-- Whether a length can start with a character. -/
def starts (c : Char) : Bool :=
  isLetter c || c = '/'

/-- The length read so far, and the part of it that the next dot halves. -/
structure Sum where
  total : Float := 0.0
  part : Float := 0.0

/-- Adds a letter, or half of the part added last for a dot. -/
def Sum.add (s : Sum) (c : Char) : Sum :=
  let part := (ofLetter? c).getD (s.part / 2.0)
  ⟨s.total + part, part⟩

/-- The length of letters with dots after them. -/
def ofLetters (run : List Char) : Float :=
  (run.foldl Sum.add { }).total

end Length

end MusicString

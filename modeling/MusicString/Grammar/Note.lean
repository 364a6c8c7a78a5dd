import MusicString.Chord
import MusicString.Element
import MusicString.Pitch
import MusicString.Read.Combinator

/-!
# Note tokens

A note is a value, an optional chord, an optional tie from the note before, an optional length, an
optional tuplet, an optional tie to the note after, and velocities; `Eb6h.`, `Cmaj^^w`, `[60]i` and
`C5qa100d40` are notes.  Notes joined by `+`, which sound together, or by `_`, which follow each
other, form a collection.
-/

namespace MusicString.Grammar

open Read

/-- Takes a run of accidentals; too many are an error at `start`. -/
def accidentals (start : Nat) : Read Int := do
  let net := Pitch.accidentals (← run Pitch.isAccidental)
  let most := Pitch.maxAccidentals
  if net.natAbs ≤ most then return net
  else throw (.evaluation (.outOfRange .accidentals net (-most) most) start)

/-- Takes the one or two digits of an octave, if there are any. -/
def octave : Read (Option (Expr Byte)) := do
  let ds ← runUpTo 2 Char.isDigit
  if ds = [] then return none
  return some (.literal (Byte.nearest (Decimal.value ds)))

/-- What a bracketed text names as a note: a number if it consists of digits, else an entry. -/
def namedNote (name : String) (start : Nat) : Read NoteValue :=
  if Decimal.allDigits name.toList then
    match Ranged.ofInt? (Decimal.value name.toList : Int) with
    | some n => return .numeric (.literal n)
    | none => throw (.grammar (.largeNote name) start)
  else return .numeric (.reference name)

/-- Takes the value of a note: a rest, a bracketed number or name, or a letter. -/
def noteValue : Read NoteValue := do
  let start ← position
  match ← peek with
  | some 'R' =>
    skip 1
    return .rest
  | some '[' =>
    match ← reference with
    | some name => namedNote name start
    | none => unexpected "a note"
  | some c =>
    match Pitch.offset? c with
    | some base =>
      skip 1
      let shift ← accidentals start
      return .pitch (base + shift) (← octave)
    | none => unexpected "a note"
  | none => unexpected "a note"

theorem noteValue_of_rest {c : Cursor} (h : c.peek = some 'R') :
    noteValue c = .ok .rest (c.move 1) := by
  simp [noteValue, bind, EStateM.bind, h]
  rfl

theorem noteValue_of_bracket {c : Cursor} (h : c.peek = some '[') :
    noteValue c =
      (do
        match ← reference with
        | some name => namedNote name c.pos
        | none => unexpected "a note" : Read NoteValue) c := by
  simp [noteValue, bind, EStateM.bind, h]

theorem noteValue_of_letter {c : Cursor} {x : Char} {base : Int} (h : c.peek = some x)
    (hx : Pitch.offset? x = some base) :
    noteValue c =
      (do
        let shift ← accidentals c.pos
        return .pitch (base + shift) (← octave) : Read NoteValue) (c.move 1) := by
  have hrest : x ≠ 'R' := by rintro rfl; simp [Pitch.offset?] at hx
  have hbracket : x ≠ '[' := by rintro rfl; simp [Pitch.offset?] at hx
  simp [noteValue, bind, EStateM.bind, h, hx]

theorem noteValue_of_not_start {c : Cursor} (h : c.peek.any Pitch.startsNote = false) :
    noteValue c = .error (c.unexpected "a note") c := by
  cases hx : c.peek with
  | none => simp [noteValue, bind, EStateM.bind, hx]
  | some x =>
    simp [hx, Pitch.startsNote] at h
    simp [noteValue, bind, EStateM.bind, hx, h]

/-- Takes the name of a chord and a mark for each inversion, if a name follows. -/
def chord : Read (Option ChordSpec) := do
  match ← optional (keyword Chord.names) with
  | none => return none
  | some name =>
    let intervals := (Chord.intervals? name).getD []
    let marks ← run (· = '^')
    return some
      { name
        intervals := intervals.map fun i : Nat => .literal (Byte.nearest i)
        inversion := Byte.nearest marks.length }

/-- Takes a length: letters with dots, or a slash and a number of whole notes. -/
def length : Read (Option (Expr Float)) := do
  if ← eat '/' then return some (← doubleExpr)
  else if (← peek).any Length.isLetter then
    let letters ← run fun c => Length.isLetter c || c = '.'
    return some (.literal (Length.ofLetters letters))
  else return none

/-- The largest number in a tuplet. -/
def maxTuplet : Nat := 4294967295

/-- Takes a number of a tuplet. -/
def tupletNumber : Read Nat := do
  let start ← position
  let ds ← digits
  if ds = [] then unexpected "a tuplet number"
  else if Decimal.value ds ≤ maxTuplet then return Decimal.value ds
  else throw (.grammar (.largeTuplet (String.ofList ds)) start)

/-- Takes the mark of a tuplet, with its ratio unless it is a triplet. -/
def tuplet : Read (Option Tuplet) := do
  if ← eat '*' then
    if (← peek).any Char.isDigit then
      let start ← position
      let count ← tupletNumber
      expect ':'
      let span ← tupletNumber
      if count = 0 ∨ span = 0 then throw (.grammar (.zeroTuplet count span) start)
      return some { count, span }
    else return some { }
  else return none

/-- Takes a tie that stands before the length, where it ends at this note if a length follows. -/
def leadingTie (note : NoteElement) : Read NoteElement := do
  if (← peek) = some '-' then
    let ends := (← peekAt 1).any Length.starts
    skip 1
    return if ends then { note with tieEnd := true } else { note with tieStart := true }
  else return note

theorem leadingTie_apply (note : NoteElement) (c : Cursor) :
    leadingTie note c =
      if c.peek = some '-' then
        .ok (if c.rest[1]?.any Length.starts then { note with tieEnd := true }
          else { note with tieStart := true }) (c.move 1)
      else .ok note c := by
  by_cases h : c.peek = some '-' <;> simp [leadingTie, bind, EStateM.bind, h] <;> rfl

/-- Takes one velocity, if one follows. -/
def velocity (note : NoteElement) : Read (Option NoteElement) := do
  if ← eat 'a' then return some { note with attack := some (← byteExpr) }
  else if ← eat 'd' then return some { note with decay := some (← byteExpr) }
  else return none

/-- Takes the chord of a note; a rest has none. -/
def chordOf : NoteValue → Read (Option ChordSpec)
  | .rest => return none
  | _ => chord

/-- Takes what follows the value of a note. -/
def noteFrom (placement : Placement) (value : NoteValue) : Read NoteElement := do
  let chord ← chordOf value
  let base ← leadingTie { value, chord, placement }
  let duration ← length
  let tuplet ← tuplet
  let tied ← eat '-'
  iterate velocity { base with duration, tuplet, tieStart := base.tieStart || tied }

/-- Takes one note. -/
def note (placement : Placement) : Read NoteElement := do
  noteFrom placement (← noteValue)

/-- Takes a joined note, if one follows. -/
def joined (notes : List NoteElement) : Read (Option (List NoteElement)) := do
  if ← eat '+' then return some (notes ++ [← note .parallel])
  else if ← eat '_' then return some (notes ++ [← note .sequential])
  else return none

/-- What a list of joined notes forms. -/
def collect : List NoteElement → Element
  | [note] => .note note
  | notes => .noteCollection notes

/-- Takes a note token: one note, or notes that are joined. -/
def noteToken : Read Element := do
  let first ← note .sequential
  return collect (← iterate joined [first])

end MusicString.Grammar

import MusicString.Cursor
import MusicString.Text.CharClass

/-!
# Reads

A read takes a cursor and either succeeds or fails, in both cases with a cursor at which it
stopped.  This module holds the reads of single characters and of runs of characters.  A read that
fails after it has moved sets the cursor back itself, wherever it fails.
-/

namespace MusicString

open Text

/-- A computation that reads from a cursor. -/
abbrev Read := EStateM ParseError Cursor

namespace Read

variable {α β : Type}

/-- The number of characters before the cursor. -/
def position : Read Nat := do
  return (← get).pos

/-- The next character. -/
def peek : Read (Option Char) := do
  return (← get).peek

/-- The character that follows `n` others. -/
def peekAt (n : Nat) : Read (Option Char) := do
  return (← get).rest[n]?

/-- Whether no character follows. -/
def atEnd : Read Bool := do
  return (← get).rest.isEmpty

/-- Whether a token can end here: at the end, or before white space. -/
def atBoundary : Read Bool := do
  return (← get).peek.all isWhiteSpace

/-- Moves over `n` characters. -/
def skip (n : Nat) : Read Unit :=
  modify (·.move n)

/-- Takes the next character, if there is one. -/
def advance : Read (Option Char) := do
  let next ← peek
  if next.isSome then skip 1
  return next

/-- Takes the next character if it is `c`. -/
def eat (c : Char) : Read Bool := do
  if (← peek) = some c then
    skip 1
    return true
  else
    return false

/-- Fails because something else was wanted here. -/
def unexpected (wanted : String) : Read α := do
  throw ((← get).unexpected wanted)

/-- Takes the next character, which must be `c`. -/
def expect (c : Char) : Read Unit := do
  unless ← eat c do
    unexpected s!"'{c}'"

/-- Takes the longest run of characters with a property. -/
def run (p : Char → Bool) : Read (List Char) := do
  let taken := (← get).rest.takeWhile p
  skip taken.length
  return taken

/-- Takes the longest run of characters with a property, but at most `n`. -/
def runUpTo (n : Nat) (p : Char → Bool) : Read (List Char) := do
  let taken := ((← get).rest.take n).takeWhile p
  skip taken.length
  return taken

/-- Moves over white space. -/
def skipWhiteSpace : Read Unit := do
  let _ ← run isWhiteSpace

/-- Takes a run of decimal digits, which may be empty. -/
def digits : Read (List Char) :=
  run Char.isDigit

/-- Takes what remains of the line; white space at its end is taken, but not returned. -/
def restOfLine : Read (List Char) := do
  return trimEnd (← run (· ≠ '\n'))

/--
Takes the characters up to a delimiter, white space or the end.  The delimiter itself is taken only
if `consume`.
-/
def token (consume : Bool) (delimiters : List Char) : Read (List Char) := do
  let taken ← run fun c => !delimiters.contains c && !isWhiteSpace c
  if consume && (← peek).any delimiters.contains then skip 1
  return taken

/-- Whether a character is in one of the classes or among those wanted by name. -/
def isWanted (classes : List CharClass) (wanted : List Char) (c : Char) : Bool :=
  wanted.contains c || classes.any (·.contains c)

/--
Takes characters that are in one of the classes or wanted by name, at most `count` of them.
If `strict`, exactly `count` must follow; if they do not, nothing is taken and the error stands
where they end.
-/
def chars (count : Option Nat) (strict : Bool) (classes : List CharClass) (wanted : List Char) :
    Read (List Char) := do
  let start ← get
  match count with
  | none => run (isWanted classes wanted)
  | some n =>
    let taken ← runUpTo n (isWanted classes wanted)
    if strict && taken.length ≠ n then
      let stop ← position
      set start
      throw (.grammar (.tooFew n taken.length) stop)
    else
      return taken

@[simp] theorem get_apply (c : Cursor) : (get : Read Cursor) c = .ok c c := rfl

@[simp] theorem position_apply (c : Cursor) : position c = .ok c.pos c := rfl

@[simp] theorem peek_apply (c : Cursor) : peek c = .ok c.peek c := rfl

@[simp] theorem peekAt_apply (n : Nat) (c : Cursor) : peekAt n c = .ok c.rest[n]? c := rfl

@[simp] theorem atEnd_apply (c : Cursor) : atEnd c = .ok c.rest.isEmpty c := rfl

@[simp] theorem atBoundary_apply (c : Cursor) :
    atBoundary c = .ok (c.peek.all isWhiteSpace) c := rfl

@[simp] theorem skip_apply (n : Nat) (c : Cursor) : skip n c = .ok () (c.move n) := rfl

@[simp] theorem unexpected_apply (wanted : String) (c : Cursor) :
    (unexpected wanted : Read α) c = .error (c.unexpected wanted) c := rfl

theorem eat_of_peek {x : Char} {c : Cursor} (h : c.peek = some x) :
    eat x c = .ok true (c.move 1) := by
  simp [eat, bind, EStateM.bind, h]
  rfl

theorem eat_of_not_peek {x : Char} {c : Cursor} (h : c.peek ≠ some x) :
    eat x c = .ok false c := by
  simp [eat, bind, EStateM.bind, h]
  rfl

theorem run_apply (p : Char → Bool) (c : Cursor) :
    run p c = .ok (c.rest.takeWhile p) (c.move (c.rest.takeWhile p).length) := rfl

theorem skipWhiteSpace_apply (c : Cursor) :
    skipWhiteSpace c = .ok () (c.move (c.rest.takeWhile isWhiteSpace).length) := rfl

theorem runUpTo_apply (n : Nat) (p : Char → Bool) (c : Cursor) :
    runUpTo n p c =
      .ok ((c.rest.take n).takeWhile p) (c.move ((c.rest.take n).takeWhile p).length) := rfl

end Read

end MusicString

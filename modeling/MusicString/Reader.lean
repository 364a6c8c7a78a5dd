import MusicString.Rule

/-!
# Readers

A reader is a text with a cursor in it.  It runs reads one after the other, and its cursor can also
be moved back.
-/

namespace MusicString

/-- A text and a place in it. -/
structure Reader where
  text : List Char
  cursor : Cursor

namespace Reader

/-- The reader of a text that starts before its `n`-th character, or at its end. -/
def ofText (text : String) (n : Nat) : Reader :=
  ⟨text.toList, .ofText text.toList n⟩

/-- Moves the cursor before the `n`-th character, or to the end. -/
def rewind (r : Reader) (n : Nat) : Reader :=
  { r with cursor := .ofText r.text n }

/-- Moves the cursor back over one character, if it is not at the start. -/
def unread (r : Reader) : Reader :=
  r.rewind (r.cursor.pos - 1)

/-- Runs a read at the cursor. -/
def run {α : Type} (r : Reader) (read : Read α) : Except ParseError α × Reader :=
  match read r.cursor with
  | .ok a c => (.ok a, { r with cursor := c })
  | .error e c => (.error e, { r with cursor := c })

end Reader

end MusicString

import MusicString.Error

/-!
# Cursors

A cursor is a place in a text: the number of characters before it, and the characters after it.
-/

namespace MusicString

/-- A place in a text. -/
structure Cursor where
  pos : Nat
  rest : List Char
  deriving DecidableEq

namespace Cursor

/-- The place before the `n`-th character of a text, or its end if it is shorter. -/
def ofText (text : List Char) (n : Nat) : Cursor :=
  ⟨min n text.length, text.drop n⟩

/-- The start of a text. -/
def start (text : List Char) : Cursor :=
  ⟨0, text⟩

/-- The place `n` characters further on. -/
def move (c : Cursor) (n : Nat) : Cursor :=
  ⟨c.pos + n, c.rest.drop n⟩

/-- The next character. -/
def peek (c : Cursor) : Option Char :=
  c.rest.head?

/-- The error that something else was wanted at this place. -/
def unexpected (c : Cursor) (wanted : String) : ParseError :=
  .grammar (.unexpected wanted c.peek) c.pos

@[simp] theorem move_zero (c : Cursor) : c.move 0 = c := rfl

@[simp] theorem pos_move (c : Cursor) (n : Nat) : (c.move n).pos = c.pos + n := rfl

@[simp] theorem rest_move (c : Cursor) (n : Nat) : (c.move n).rest = c.rest.drop n := rfl

@[simp] theorem move_move (c : Cursor) (m n : Nat) : (c.move m).move n = c.move (m + n) := by
  simp [move, Nat.add_assoc]

theorem length_pos_of_peek {c : Cursor} {x : Char} (h : c.peek = some x) : 1 ≤ c.rest.length := by
  cases hc : c.rest with
  | nil => simp [peek, hc] at h
  | cons y rest => simp

theorem rest_of_peek {c : Cursor} {x : Char} (h : c.peek = some x) :
    c.rest = x :: (c.move 1).rest := by
  cases hc : c.rest with
  | nil => simp [peek, hc] at h
  | cons y rest => simpa [peek, hc] using h

/-- After the longest run of characters with a property comes one without it, or the end. -/
theorem rest_move_takeWhile (c : Cursor) (p : Char → Bool) :
    (c.move (c.rest.takeWhile p).length).rest = c.rest.dropWhile p := by
  have h := List.takeWhile_append_dropWhile (p := p) (l := c.rest)
  calc c.rest.drop (c.rest.takeWhile p).length
      = (c.rest.takeWhile p ++ c.rest.dropWhile p).drop (c.rest.takeWhile p).length := by rw [h]
    _ = c.rest.dropWhile p := List.drop_left

end Cursor

end MusicString

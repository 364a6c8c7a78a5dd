import MusicString.Text.Span

/-!
# White space

The characters with the Unicode property White_Space, which separate the tokens of a pattern, and
the removal of white space from the ends of a text.
-/

namespace MusicString.Text

/-- The spans of the property White_Space. -/
def whiteSpaceSpans : List Span :=
  [(0x9, 0xD), (0x20, 0x20), (0x85, 0x85), (0xA0, 0xA0), (0x1680, 0x1680), (0x2000, 0x200A),
    (0x2028, 0x2029), (0x202F, 0x202F), (0x205F, 0x205F), (0x3000, 0x3000)]

/-- Whether a character is white space. -/
def isWhiteSpace (c : Char) : Bool :=
  whiteSpaceSpans.any (·.holds c.toNat)

/-- The text without the white space it starts with. -/
def trimStart (s : List Char) : List Char :=
  s.dropWhile isWhiteSpace

/-- The text without the white space it ends in. -/
def trimEnd (s : List Char) : List Char :=
  (s.reverse.dropWhile isWhiteSpace).reverse

/-- The text without white space at either end. -/
def trim (s : List Char) : List Char :=
  trimStart (trimEnd s)

@[simp] theorem trimStart_nil : trimStart [] = [] := rfl

@[simp] theorem trimEnd_nil : trimEnd [] = [] := rfl

end MusicString.Text

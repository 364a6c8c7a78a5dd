import MusicString.Text.WhiteSpace
import MusicString.Text.Alphabetic
import MusicString.Text.Uppercase
import MusicString.Text.Lowercase

/-!
# Character classes

The classes of characters that a read can be restricted to.
-/

namespace MusicString.Text

/-- The sixteen digits of hexadecimal numbers. -/
def hexDigits : List Char :=
  "0123456789ABCDEF".toList

/-- Whether a character is a hexadecimal digit; small letters are none. -/
def isUpperHexDigit (c : Char) : Bool :=
  c.isDigit || ('A' ≤ c && c ≤ 'F')

/-- The number a hexadecimal digit stands for. -/
def hexValue (c : Char) : Nat :=
  if c.isDigit then c.toNat - '0'.toNat else c.toNat - 'A'.toNat + 10

/-- A class of characters. -/
inductive CharClass
  | uppercaseLetter
  | lowercaseLetter
  | letter
  | decimalDigit
  | upperHexDigit
  | whitespace
  deriving DecidableEq

/-- Whether a character belongs to a class. -/
def CharClass.contains : CharClass → Char → Bool
  | uppercaseLetter => isUppercase
  | lowercaseLetter => isLowercase
  | letter => isAlphabetic
  | decimalDigit => Char.isDigit
  | upperHexDigit => isUpperHexDigit
  | whitespace => isWhiteSpace

end MusicString.Text

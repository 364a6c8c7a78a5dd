import MusicString.Number.Layout

/-!
# YAML scalars

A scalar without quotes reads as null, a boolean, an integer, a float or a text.  A text that would
read as something else, or that holds what means something in YAML, is written in quotes.
-/

namespace MusicString.Yaml

/-- The spellings of null. -/
def isNull (s : String) : Bool :=
  s = "" || s = "~" || s = "null" || s = "Null" || s = "NULL"

/-- The boolean a scalar reads as. -/
def toBool? (s : String) : Option Bool :=
  if s = "true" || s = "True" || s = "TRUE" then some true
  else if s = "false" || s = "False" || s = "FALSE" then some false
  else none

/-- Whether a text is a number with superfluous zeros in front, which reads as a text. -/
def isPadded (s : List Char) : Bool :=
  let digits := (Decimal.splitSign s).2
  digits.length > 1 && digits.head? = some '0' && Decimal.allDigits digits

/-- The number a digit stands for in a radix of at most 16. -/
def digitValue? (radix : Nat) (c : Char) : Option Nat :=
  let n :=
    if c.isDigit then c.toNat - '0'.toNat
    else if 'a' ≤ c ∧ c ≤ 'f' then c.toNat - 'a'.toNat + 10
    else if 'A' ≤ c ∧ c ≤ 'F' then c.toNat - 'A'.toNat + 10
    else 16
  if n < radix then some n else none

/-- The number that one or more digits denote in a radix. -/
def numberIn? (radix : Nat) (s : List Char) : Option Nat :=
  if s = [] then none
  else s.foldlM (fun n c => (digitValue? radix c).map (radix * n + ·)) 0

/-- The size of an integer: decimal, or in the radix that a letter after a zero tells. -/
def size? : List Char → Option Nat
  | '0' :: 'x' :: s => numberIn? 16 s
  | '0' :: 'o' :: s => numberIn? 8 s
  | '0' :: 'b' :: s => numberIn? 2 s
  | s => numberIn? 10 s

/-- The sign and the size of the integer that a scalar reads as. -/
def signedSize? (s : String) : Option (Bool × Nat) :=
  let (negative, size) := Decimal.splitSign s.toList
  if isPadded s.toList then none else (size? size).map (negative, ·)

/-- The integer that a scalar reads as where only integers without a minus sign are wanted. -/
def toUnsigned? (s : String) : Option Int :=
  match signedSize? s with
  | some (false, n) => some n
  | _ => none

/-- The integer that a scalar reads as. -/
def toInteger? (s : String) : Option Int :=
  (signedSize? s).map fun (negative, n) => Decimal.signed negative n

/-- Whether an integer fits 128 bits, with a sign if it is negative. -/
def fits128Bits (n : Int) : Bool :=
  -(Double.twoPow 127 : Int) ≤ n && n < Double.twoPow 128

/-- The float of a named infinity, or what is not a number. -/
def namedFloat? (s : String) : Option Float :=
  let infinite := [".inf", ".Inf", ".INF"]
  if infinite.contains s || (infinite.map ("+" ++ ·)).contains s then some Double.infinity
  else if (infinite.map ("-" ++ ·)).contains s then some (-Double.infinity)
  else if [".nan", ".NaN", ".NAN"].contains s then some (0.0 / 0.0)
  else none

/-- The float that a scalar reads as; a number too large for one is none. -/
def toFloat? (s : String) : Option Float :=
  match namedFloat? s with
  | some x => some x
  | none =>
    (Decimal.parse? s.toList).bind fun d =>
      let x := Double.ofDecimal d
      if x.isFinite then some x else none

/-- What a scalar without quotes reads as. -/
inductive Plain
  | null
  | boolean (b : Bool)
  | integer (n : Int)
  | float (x : Float)
  | text (s : String)

/-- Reads a scalar without quotes. -/
def Plain.ofText (s : String) : Plain :=
  if isNull s then .null
  else
    match toBool? s, (toInteger? s).filter fits128Bits, toFloat? s with
    | some b, _, _ => .boolean b
    | none, some n, _ => .integer n
    | none, none, some x => if isPadded s.toList then .text s else .float x
    | none, none, none => .text s

/-- Whether a text reads as itself without quotes, as far as its type goes. -/
def readsAsText (s : String) : Bool :=
  match Plain.ofText s with
  | .text _ => !isPadded s.toList
  | _ => false

/-! ### Quotes -/

/--
Whether a character is written as it is.  Control characters are not, nor are the mark of the byte
order and the last two code points of the basic plane; every character beyond that plane is.
-/
def isPrintable (c : Char) : Bool :=
  let n := c.toNat
  n = 0xA || (0x20 ≤ n && n ≤ 0x7E) || (0xA0 ≤ n && n ≤ 0xFFFD && n ≠ 0xFEFF) || 0x10000 ≤ n

/-- Whether a character breaks a line. -/
def isBreak (c : Char) : Bool :=
  c = '\r' || c = '\n' || c.toNat = 0x85 || c.toNat = 0x2028 || c.toNat = 0x2029

/-- Whether the end, a blank or a line break follows. -/
def blankFollows : List Char → Bool
  | [] => true
  | c :: _ => c = ' ' || c = '\t' || c.toNat = 0 || isBreak c

/-- The characters that mean something at the start of a scalar. -/
def indicators : List Char :=
  "#,[]\x7b\x7d&*!|>'\"%@".toList ++ [Char.ofNat 0x60]

/-- Whether the first character of a scalar means something. -/
def startsWithIndicator : List Char → Bool
  | '-' :: '-' :: '-' :: _ => true
  | '.' :: '.' :: '.' :: _ => true
  | [] => false
  | c :: rest =>
    indicators.contains c || ((c = '-' || c = '?' || c = ':') && blankFollows rest)

/-- Whether a colon before a blank, or a number sign after one, follows the first character. -/
def holdsIndicator : List Char → Bool
  | c :: d :: rest =>
    (d = ':' && blankFollows rest) || (d = '#' && blankFollows [c]) || holdsIndicator (d :: rest)
  | _ => false

/-- Whether a scalar starts or ends in a space. -/
def hasOuterSpace (s : List Char) : Bool :=
  s.head? = some ' ' || s.getLast? = some ' '

/-- Whether a space and a line break stand side by side. -/
def hasSpaceAtBreak : List Char → Bool
  | c :: d :: rest =>
    (c = ' ' && isBreak d) || (isBreak c && d = ' ') || hasSpaceAtBreak (d :: rest)
  | _ => false

/-- Whether only double quotes can hold a text. -/
def needsEscapes (s : List Char) : Bool :=
  s.any (fun c => !isPrintable c) || hasSpaceAtBreak s

/-- Whether a text can be written without quotes. -/
def canBePlain (s : List Char) : Bool :=
  readsAsText (String.ofList s) && !startsWithIndicator s && !holdsIndicator s &&
    !hasOuterSpace s && !s.any isBreak

/--
A text between single quotes: a quote is doubled, and what follows a line break is indented by
`indent` spaces.
-/
def singleQuotedFrom (indent : Nat) (afterBreak : Bool) : List Char → List Char
  | [] => []
  | c :: rest =>
    (if afterBreak && !isBreak c then List.replicate indent ' ' else []) ++
      (if c = '\'' then ['\'', '\''] else [c]) ++ singleQuotedFrom indent (isBreak c) rest

/-- Upper-case hexadecimal digits, filled up with zeros. -/
def hexText (width n : Nat) : List Char :=
  let digits := (Nat.toDigits 16 n).map Char.toUpper
  List.replicate (width - digits.length) '0' ++ digits

/-- The letter that follows a backslash for a character, if it has one. -/
def escapeLetter? (n : Nat) : Option Char :=
  ([(0x0, '0'), (0x7, 'a'), (0x8, 'b'), (0x9, 't'), (0xA, 'n'), (0xB, 'v'), (0xC, 'f'), (0xD, 'r'),
    (0x1B, 'e'), (0x22, '"'), (0x5C, '\\'), (0x85, 'N'), (0xA0, '_'), (0x2028, 'L'),
    (0x2029, 'P')].find? (·.1 = n)).map (·.2)

/-- A character between double quotes; one that has to be escaped lies in the basic plane. -/
def escaped (c : Char) : List Char :=
  let n := c.toNat
  if isPrintable c && !isBreak c && c ≠ '"' && c ≠ '\\' then [c]
  else
    match escapeLetter? n with
    | some letter => ['\\', letter]
    | none => if n ≤ 0xFF then '\\' :: 'x' :: hexText 2 n else '\\' :: 'u' :: hexText 4 n

/--
A text as a scalar: without quotes if that is possible, else in single or double quotes.  Where it
goes on after a line break, it is indented by `indent` spaces.
-/
def quote (indent : Nat) (s : String) : String :=
  let cs := s.toList
  if needsEscapes cs then String.ofList ('"' :: cs.flatMap escaped ++ ['"'])
  else if canBePlain cs then s
  else String.ofList ('\'' :: singleQuotedFrom indent false cs ++ ['\''])

end MusicString.Yaml

import MusicString.Dictionary.Definition
import MusicString.Grammar.Note

/-!
# Tokens

Each kind of token has a rule.  A rule looks at the first character of a token: it declines without
taking anything, or it claims the token, and then any failure is final.  The rules are tried in
order.
-/

namespace MusicString.Grammar

open Read Text

/-- A rule for one kind of token; the dictionary tells what a lone reference stands for. -/
structure TokenRule where
  name : String
  read : Dictionary → Read (Option Element)

/-- The rule for tokens that start with a given character. -/
def marked (name : String) (mark : Char) (body : Read Element) : TokenRule where
  name
  read _ := do
    if ← eat mark then return some (← body)
    else return none

/-- Takes the name that a definition or a property starts with. -/
def name (marks : List Char) (wanted : String) : Read String := do
  let name ← run (isWanted [.letter, .decimalDigit] marks)
  if name = [] then unexpected wanted
  else return String.ofList name

/-- The rest of a definition: a name, an equals sign, and a role with a number. -/
def definition : Read Element := do
  let name ← name ['_'] "a dictionary name"
  expect '='
  let start ← position
  let text ← token false []
  match Definition.parse? text with
  | some entry => return .define name entry
  | none => throw (.grammar (.badDefinition (String.ofList text) name) start)

/-- The rest of a comment, which is the rest of the line. -/
def comment : Read Element := do
  return .comment (String.ofList (trimStart (← restOfLine)))

/-- The rest of a property: a key, an equals sign and a text. -/
def property : Read Element := do
  let key ← name ['_', '.', '-'] "a property key"
  expect '='
  return .property key (String.ofList (← token false []))

/-- The place on the circle of fifths and the semitones of the letter of a key. -/
def keyLetter : Read (Int × Int) := do
  match ← peek with
  | none => unexpected "a key"
  | some c =>
    match Pitch.fifths? c, Pitch.offset? c with
    | some fifths, some offset =>
      skip 1
      return (fifths, offset)
    | _, _ => unexpected "a key letter A-G"

theorem keyLetter_of_letter {c : Cursor} {x : Char} {fifths offset : Int} (h : c.peek = some x)
    (hf : Pitch.fifths? x = some fifths) (ho : Pitch.offset? x = some offset) :
    keyLetter c = .ok (fifths, offset) (c.move 1) := by
  simp [keyLetter, bind, EStateM.bind, h, hf, ho]
  rfl

theorem keyLetter_of_not_letter {c : Cursor} (h : c.peek.bind Pitch.fifths? = none) :
    keyLetter c =
      .error (c.unexpected (if c.peek = none then "a key" else "a key letter A-G")) c := by
  cases hx : c.peek with
  | none => simp [keyLetter, bind, EStateM.bind, hx]
  | some x =>
    rw [hx] at h
    simp [keyLetter, bind, EStateM.bind, hx, show Pitch.fifths? x = none from h]

/-- The scale with the given short name. -/
def scaleOf (name : String) : Scale :=
  if name = "min" then .minor else .major

/-- The key of a letter with accidentals in a scale: its root, and its sharps or flats. -/
def keyOf (fifths offset accidentals : Int) (scale : Scale) : Element :=
  let shift := match scale with
    | .minor => 3
    | .major => 0
  .keySignature (.literal (Byte.nearest ((offset + accidentals) % 12)))
    (.literal (Integer.nearest (fifths + 7 * accidentals - shift))) scale

/-- The rule for key signatures: a letter, accidentals and a scale. -/
def keySignatureRule : TokenRule where
  name := "key signature"
  read _ := do
    let start ← position
    if ← eat 'K' then
      let (fifths, offset) ← keyLetter
      let shift ← accidentals start
      return some (keyOf fifths offset shift (scaleOf (← keyword ["maj", "min"])))
    else return none

/-- The rest of a controller token: a number, an equals sign and a value. -/
def controller : Read Element := do
  let index ← intExpr
  expect '='
  return .controller index (← intExpr)

/-- The rest of a polyphonic pressure token: a note, a comma and a pressure. -/
def polyphonicPressure : Read Element := do
  let note ← byteExpr
  expect ','
  return .polyphonicPressure note (← byteExpr)

/-- Takes a comma and another byte, if a comma follows. -/
def nextByte (bytes : List (Expr Byte)) : Read (Option (List (Expr Byte))) := do
  if ← eat ',' then return some (bytes ++ [← byteExpr])
  else return none

/-- Takes bytes in decimal, divided by commas. -/
def decimalBytes : Read (List (Expr Byte)) := do
  let first ← byteExpr
  iterate nextByte [first]

/-- Takes bytes in pairs of hexadecimal digits. -/
def hexBytes : Read (List (Expr Byte)) := do
  let bytes ← repeated hexByte
  if bytes = [] then unexpected "hex byte pairs"
  else return bytes.map .literal

/-- The rest of a system exclusive token: the radix, a colon and bytes. -/
def systemExclusive : Read Element := do
  let mode ← word ["dec", "hex"] [':'] false
  expect ':'
  if mode = "hex" then return .systemExclusive (← hexBytes)
  else return .systemExclusive (← decimalBytes)

/-- What a lone reference stands for, by the role of its entry. -/
def referenceElement (name : String) : Role → Element
  | .tempo => .tempo (.reference name)
  | .instrument => .instrument (.reference name)
  | .voice => .voice (.reference name)
  | .layer => .layer (.reference name)
  | .value => .note { value := .numeric (.reference name) }

/--
The rule for tokens that are nothing but a reference.  It declines a reference that more of a token
follows, and one that consists of digits.
-/
def referenceRule : TokenRule where
  name := "dictionary reference"
  read d := do
    let start ← get
    match ← reference with
    | none => return none
    | some name =>
      if !(← atBoundary) || Decimal.allDigits name.toList then
        set start
        return none
      match d.get? name with
      | some entry => return some (referenceElement name entry.role)
      | none => throw (.evaluation (.undefinedKey name) start.pos)

/-- The rule for notes. -/
def noteRule : TokenRule where
  name := "note"
  read _ := do
    if (← peek).any Pitch.startsNote then return some (← noteToken)
    else return none

/-- The rules, in the order in which they are tried. -/
def rules : List TokenRule :=
  [marked "dictionary definition" '$' definition,
    marked "comment" '#' comment,
    marked "property" '%' property,
    marked "voice" 'V' (.voice <$> byteExpr),
    marked "layer" 'L' (.layer <$> byteExpr),
    marked "tempo" 'T' (.tempo <$> intExpr),
    marked "instrument" 'I' (.instrument <$> byteExpr),
    keySignatureRule,
    marked "controller" 'X' controller,
    marked "time" '@' (.time <$> longExpr),
    marked "measure" '|' (pure .measure),
    marked "pitch bend" '&' (.pitchBend <$> intExpr),
    marked "channel pressure" '+' (.channelPressure <$> byteExpr),
    marked "polyphonic pressure" '*' polyphonicPressure,
    marked "system exclusive" '^' systemExclusive,
    referenceRule,
    noteRule]

/-- The names of the rules. -/
def ruleNames : List String :=
  rules.map (·.name)

/-- Tries rules in order, up to the first that claims the token. -/
def firstClaim (d : Dictionary) : List TokenRule → Read (Option Element)
  | [] => return none
  | rule :: rest => do
    match ← rule.read d with
    | some element => return some element
    | none => firstClaim d rest

/-- Takes one element. -/
def element (d : Dictionary) : Read Element := do
  match ← firstClaim d rules with
  | some element => return element
  | none =>
    let names := separated ", " ruleNames
    unexpected s!"one of [{names}]"

/-- A token that does not start with the mark of a rule is left to the other rules. -/
theorem firstClaim_of_not_peek {d : Dictionary} {name : String} {mark : Char} {body : Read Element}
    {rest : List TokenRule} {c : Cursor} (h : c.peek ≠ some mark) :
    firstClaim d (marked name mark body :: rest) c = firstClaim d rest c := by
  simp [firstClaim, marked, bind, EStateM.bind, eat_of_not_peek h]
  rfl

/-- A token that starts with the mark of a rule is claimed by it. -/
theorem firstClaim_of_peek {d : Dictionary} {name : String} {mark : Char} {body : Read Element}
    {rest : List TokenRule} {c c' : Cursor} {claimed : Element} (h : c.peek = some mark)
    (hbody : body (c.move 1) = .ok claimed c') :
    firstClaim d (marked name mark body :: rest) c = .ok (some claimed) c' := by
  simp [firstClaim, marked, bind, EStateM.bind, eat_of_peek h, hbody]
  rfl

theorem element_of_claim {d : Dictionary} {c c' : Cursor} {claimed : Element}
    (h : firstClaim d rules c = .ok (some claimed) c') : element d c = .ok claimed c' := by
  simp [element, bind, EStateM.bind, h]
  rfl

end MusicString.Grammar

import MusicString.Value

/-!
# Errors

* `EvalError` says why an element has no event: a name is undefined, an entry does not convert to
  the kind of its field, or a number lies outside its range;
* `ParseError` says why reading or firing a token failed, and where in the pattern.

An error holds its cause; `message` gives the wording of each.
-/

namespace MusicString

/-- The fields whose numbers are checked against a range. -/
inductive Field
  | accidentals
  | note
  | octave
  | attack
  | decay
  | inversion
  | chordNote
  | tempo
  | keySignature
  | controllerIndex
  | controllerValue
  | instrument
  | voice
  | layer
  | time
  | pitchBend
  | pressure
  deriving DecidableEq

/-- The name of a field in messages. -/
def Field.name : Field → String
  | .accidentals => "accidentals"
  | .note => "note"
  | .octave => "octave"
  | .attack => "attack velocity"
  | .decay => "decay velocity"
  | .inversion => "chord inversion"
  | .chordNote => "chord note"
  | .tempo => "tempo"
  | .keySignature => "key signature accidentals"
  | .controllerIndex => "controller index"
  | .controllerValue => "controller value"
  | .instrument => "instrument"
  | .voice => "voice"
  | .layer => "layer"
  | .time => "time"
  | .pitchBend => "pitch bend"
  | .pressure => "pressure"

/-- Why an expression or an element could not be evaluated. -/
inductive EvalError
  /-- A name is not defined. -/
  | undefinedKey (name : String)
  /-- The value of a name does not convert to the kind that is needed. -/
  | incompatibleKind (name : String) (expected : Kind) (found : Value)
  /-- A number lies outside the range of its field. -/
  | outOfRange (field : Field) (value min max : Int)
  /-- A duration is not a positive finite number. -/
  | badDuration (duration : Float)
  deriving DecidableEq

/-- The wording of an evaluation error. -/
def EvalError.message : EvalError → String
  | undefinedKey name => s!"'{name}' is not defined in the dictionary"
  | incompatibleKind name expected found =>
    let (held, wanted) := (found.text, expected.name)
    s!"dictionary entry '{name}' holds {held}, which is not usable as {wanted}"
  | outOfRange field value min max =>
    let (name, v, lo, hi) := (field.name, Decimal.text value, Decimal.text min, Decimal.text max)
    s!"{name} {v} is outside {lo}..={hi}"
  | badDuration duration =>
    let d := messageDouble.write duration
    s!"duration {d} is outside 0 (exclusive)..=inf"

/-- Texts with a separator between them. -/
def separated (separator : String) (texts : List String) : String :=
  separator.intercalate texts

/-- How the text of a pattern fails the grammar. -/
inductive Mismatch
  /-- Something else was wanted than the next character, or than the end. -/
  | unexpected (wanted : String) (found : Option Char)
  /-- Too few characters of the wanted classes follow. -/
  | tooFew (wanted found : Nat)
  /-- A run of digits is too large for a byte. -/
  | largeByte (digits : String)
  /-- A run of digits is too large for any integer of its field. -/
  | largeInteger (digits what : String)
  /-- An integer does not fit its field. -/
  | misfit (value : Int) (what : String)
  /-- A reference names nothing. -/
  | emptyReference
  /-- A number of characters is negative. -/
  | negativeCount (count : Int)
  /-- A token is not in the vocabulary. -/
  | notOneOf (vocabulary : List String) (token : String)
  /-- Every alternative failed, with these messages. -/
  | noAlternative (messages : List String)
  /-- The text of a definition denotes no entry. -/
  | badDefinition (text name : String)
  /-- A note number is too large. -/
  | largeNote (digits : String)
  /-- A number of a tuplet is too large. -/
  | largeTuplet (digits : String)
  /-- A number of a tuplet is zero. -/
  | zeroTuplet (count span : Nat)
  deriving DecidableEq

/-- The wording of a mismatch. -/
def Mismatch.message : Mismatch → String
  | unexpected wanted none => s!"expected {wanted}, found end of input"
  | unexpected wanted (some c) => s!"expected {wanted}, found '{c}'"
  | tooFew wanted found => s!"expected {wanted} matching characters, found {found}"
  | largeByte digits => s!"'{digits}' does not fit in a byte"
  | largeInteger digits what => s!"'{digits}' is too large for {what}"
  | misfit value what => s!"{value} is out of range for {what}"
  | emptyReference => "empty dictionary reference"
  | negativeCount count => s!"negative character count {count}"
  | notOneOf vocabulary token =>
    let words := separated ", " vocabulary
    s!"expected one of [{words}], found '{token}'"
  | noAlternative [] => "no alternative matched"
  | noAlternative messages => separated "; " messages
  | badDefinition text name => s!"'{text}' is not a valid definition for '{name}'"
  | largeNote digits => s!"note number '{digits}' does not fit in a byte"
  | largeTuplet digits => s!"tuplet number '{digits}' is too large"
  | zeroTuplet count span => s!"tuplet {count}:{span} must not contain zero"

/-- The handle of a registered listener. -/
structure ListenerId where
  number : Nat
  deriving DecidableEq

/-- The text of a listener's handle. -/
def ListenerId.text (id : ListenerId) : String :=
  "#" ++ Decimal.text id.number

/-- Why a token failed. -/
inductive Cause
  /-- The text of the token fails the grammar. -/
  | grammar (mismatch : Mismatch)
  /-- The token cannot be evaluated. -/
  | evaluation (error : EvalError)
  /-- A byte was to be read in a radix other than 10 and 16. -/
  | unsupportedRadix (radix : Nat)
  /-- A listener rejected the event of the token. -/
  | rejected (listener : ListenerId) (event reason : String)
  deriving DecidableEq

/-- The kinds of errors. -/
inductive ErrorKind
  | grammar
  | undefinedDictionaryKey
  | incompatibleValueKind
  | unsupportedRadix
  | valueOutOfRange
  | listener
  deriving DecidableEq

/-- The name of a kind of errors. -/
def ErrorKind.name : ErrorKind → String
  | grammar => "grammar error"
  | undefinedDictionaryKey => "undefined dictionary key"
  | incompatibleValueKind => "incompatible value kind"
  | unsupportedRadix => "unsupported radix"
  | valueOutOfRange => "value out of range"
  | listener => "listener error"

/-- The kind of an evaluation error. -/
def EvalError.kind : EvalError → ErrorKind
  | undefinedKey _ => .undefinedDictionaryKey
  | incompatibleKind .. => .incompatibleValueKind
  | outOfRange .. => .valueOutOfRange
  | badDuration _ => .valueOutOfRange

theorem EvalError.kind_ne_listener (e : EvalError) : e.kind ≠ .listener := by
  cases e <;> simp [EvalError.kind]

/-- The kind of a cause. -/
def Cause.kind : Cause → ErrorKind
  | grammar _ => .grammar
  | evaluation e => e.kind
  | unsupportedRadix _ => .unsupportedRadix
  | rejected .. => .listener

/-- The wording of a cause. -/
def Cause.message : Cause → String
  | grammar m => m.message
  | evaluation e => e.message
  | unsupportedRadix radix => s!"radix {radix} is not supported, expected 10 or 16"
  | rejected id event reason =>
    let handle := id.text
    s!"listener {handle} rejected {event} event: {reason}"

/-- The failure of a token: its cause, and the place in the pattern, counted in characters. -/
structure ParseError where
  cause : Cause
  position : Nat
  deriving DecidableEq

namespace ParseError

/-- The kind of a failure. -/
def kind (e : ParseError) : ErrorKind :=
  e.cause.kind

/-- The wording of a failure, without its place. -/
def message (e : ParseError) : String :=
  e.cause.message

/-- A failure in full: place, kind and wording. -/
def text (e : ParseError) : String :=
  let (position, name, message) := (e.position, e.kind.name, e.message)
  s!"[{position}] {name}: {message}"

/-- A failure of the grammar. -/
def grammar (m : Mismatch) (position : Nat) : ParseError :=
  ⟨.grammar m, position⟩

/-- An evaluation error at a place. -/
def evaluation (e : EvalError) (position : Nat) : ParseError :=
  ⟨.evaluation e, position⟩

end ParseError

end MusicString

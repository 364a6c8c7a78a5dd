import MusicString.Dictionary.Standard
import MusicString.Environment
import MusicString.Yaml.Read
import MusicString.Yaml.Scalar

/-!
# Configurations

A configuration gives the defaults that patterns start from and definitions beside the standard
ones.  It is read from a YAML document in which every field may be missing and fields that mean
nothing are passed over.
-/

namespace MusicString

namespace Config

/-- A number in a configuration: an integer stays one. -/
inductive Number
  | integer (n : Long)
  | decimal (x : Float)
  deriving DecidableEq

/-- The value that a number defines. -/
def Number.toValue : Number → Value
  | integer n => .ofLong n
  | decimal x => .double x

/-- A definition in a configuration, alone or with fields of its own. -/
inductive Definition
  | plain (number : Number)
  | withRole (number : Number) (role : Role)
  deriving DecidableEq

/-- The entry of a definition. -/
def Definition.entry : Definition → Entry
  | plain number => ⟨number.toValue, .value⟩
  | withRole number role => ⟨number.toValue, role⟩

end Config

/-- The defaults that patterns start from, and definitions. -/
structure Config where
  octave : Byte := ({ } : Defaults).octave
  chordOctave : Byte := ({ } : Defaults).chordOctave
  duration : Float := ({ } : Defaults).duration
  attack : Byte := ({ } : Defaults).attack
  decay : Byte := ({ } : Defaults).decay
  tempo : Integer := ({ } : Defaults).tempo
  /-- Whether the standard names are defined too. -/
  standardDictionary : Bool := true
  definitions : NameMap Config.Definition := .empty

/-- Why a configuration could not be loaded. -/
inductive ConfigError
  | unreadable
  | invalid
  deriving DecidableEq

namespace Config

/-- The defaults of a configuration. -/
def defaults (c : Config) : Defaults :=
  { octave := c.octave
    chordOctave := c.chordOctave
    duration := c.duration
    attack := c.attack
    decay := c.decay
    tempo := c.tempo }

/-- The dictionary of the definitions alone. -/
def dictionary (c : Config) : Dictionary :=
  .ofList (c.definitions.entries.map fun (name, d) => (name, d.entry))

/-- The environment of a configuration, without listeners. -/
def environment {σ : Type} (c : Config) (state : σ) : Environment σ :=
  let start : Dictionary := if c.standardDictionary then Standard.dictionary else .empty
  (Environment.ofDictionary (start.merge c.dictionary) state).setDefaults c.defaults

/-! ### Reading -/

/--
The number that a scalar denotes.  An integer beyond the longs becomes a decimal if it fits 64 bits
without a sign, and is refused if it does not.
-/
def number? : Yaml → Option Number
  | .scalar s =>
    match Yaml.Plain.ofText s with
    | .integer n =>
      match Ranged.ofInt? n with
      | some long => some (.integer long)
      | none => if 0 ≤ n ∧ n < Double.twoPow 64 then some (.decimal (Float.ofInt n)) else none
    | .float x => some (.decimal x)
    | _ => none
  | _ => none

/-- The value of a field that occurs at most once; it fails if the field occurs again. -/
def single? (fields : List (String × Yaml)) (key : String) : Option (Option Yaml) :=
  match fields.filter (·.1 = key) with
  | [] => some none
  | [field] => some (some field.2)
  | _ => none

/-- The role that a scalar names. -/
def role? : Yaml → Option Role
  | .scalar s => Role.ofName? s
  | _ => none

/-- The definition that a node denotes: a number, or a value with an optional role. -/
def definition? : Yaml → Option Definition
  | .mapping fields => do
    let value ← single? fields "value"
    let role ← single? fields "role"
    let number ← value.bind number?
    match role with
    | none => return .withRole number .value
    | some role => return .withRole number (← role? role)
  | node => (number? node).map .plain

/-- The definitions that a node holds; an empty scalar holds none. -/
def definitions? : Yaml → Option (NameMap Definition)
  | .mapping fields =>
    (fields.mapM fun p : String × Yaml => (definition? p.2).map (p.1, ·)).map .ofList
  | .scalar "" => some .empty
  | _ => none

/-- The text of a scalar. -/
def scalar? : Yaml → Option String
  | .scalar s => some s
  | _ => none

/-- A field of a configuration, as a reader of its node gives it, or what it is if it is missing. -/
def field? {α : Type} (fields : List (String × Yaml)) (key : String) (read : Yaml → Option α)
    (stock : α) : Option α := do
  match ← single? fields key with
  | some node => read node
  | none => return stock

/-- The byte that a scalar denotes. -/
def byte? (node : Yaml) : Option Byte := do
  Ranged.ofInt? (← Yaml.toUnsigned? (← scalar? node))

/-- The int that a scalar denotes. -/
def integer? (node : Yaml) : Option Integer := do
  Ranged.ofInt? (← Yaml.toInteger? (← scalar? node))

/-- The double that a scalar denotes. -/
def double? (node : Yaml) : Option Float := do
  Yaml.toFloat? (← scalar? node)

/-- The boolean that a scalar denotes. -/
def boolean? (node : Yaml) : Option Bool := do
  Yaml.toBool? (← scalar? node)

/-- The configuration that a document describes. -/
def ofYaml? (fields : List (String × Yaml)) : Option Config := do
  let stock : Config := { }
  return {
    octave := ← field? fields "default_octave" byte? stock.octave
    chordOctave := ← field? fields "default_chord_octave" byte? stock.chordOctave
    duration := ← field? fields "default_duration" double? stock.duration
    attack := ← field? fields "default_attack" byte? stock.attack
    decay := ← field? fields "default_decay" byte? stock.decay
    tempo := ← field? fields "default_tempo" integer? stock.tempo
    standardDictionary := ← field? fields "standard_dictionary" boolean? stock.standardDictionary
    definitions := ← field? fields "dictionary" definitions? stock.definitions }

/-- The configuration in a file with the given text; a file that is missing has none. -/
def load : Option String → Except ConfigError Config
  | none => .error .unreadable
  | some text =>
    match (Yaml.document? text).bind ofYaml? with
    | some config => .ok config
    | none => .error .invalid

/-- The configuration in a file that need not exist; one that cannot be used counts as missing. -/
def load? (text : Option String) : Option Config :=
  (load text).toOption

end Config

end MusicString

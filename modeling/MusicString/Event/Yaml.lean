import MusicString.Event
import MusicString.Yaml
import MusicString.Yaml.Scalar

/-!
# Events as YAML

A list of events is written as a sequence of mappings, each with the type of the event first.
-/

namespace MusicString

/--
YAML writes a double with the fewest digits and at least one decimal, and with a power of ten below
`10 ^ -5` and from `10 ^ 16` on.
-/
def yamlDouble : Double.Layout where
  tie := .toEven
  positional e := -5 ≤ e && e < 16
  wholeEnding := ".0"
  infinity := ".inf"
  notANumber := ".nan"

namespace Yaml

/-- A boolean. -/
def boolean (b : Bool) : Yaml :=
  .scalar (if b then "true" else "false")

/-- An integer. -/
def number {lo hi : Int} (n : Ranged lo hi) : Yaml :=
  .scalar (Decimal.text n.val)

/-- A double. -/
def double (x : Float) : Yaml :=
  .scalar (yamlDouble.write x)

/--
The indentation of a text after a line break in it: one level more than its key, which stands in
an item of the list of events.
-/
def continuationIndent : Nat := 4

/-- A text, in quotes if it needs them. -/
def text (s : String) : Yaml :=
  .scalar (quote continuationIndent s)

/-- A sequence of integers. -/
def numbers {lo hi : Int} (ns : List (Ranged lo hi)) : Yaml :=
  .sequence (ns.map number)

end Yaml

/-- A placement as YAML. -/
def Placement.toYaml : Placement → Yaml
  | sequential => .text "sequential"
  | parallel => .text "parallel"

/-- A scale as YAML. -/
def Scale.toYaml : Scale → Yaml
  | major => .text "major"
  | minor => .text "minor"

/-- A value as YAML: its number, tagged with its kind. -/
def Value.toYaml : Value → Yaml
  | byte n => .scalar ("!Byte " ++ Decimal.text n.val)
  | int n => .scalar ("!Int " ++ Decimal.text n.val)
  | long n => .scalar ("!Long " ++ Decimal.text n.val)
  | double x => .scalar ("!Double " ++ yamlDouble.write x)

/-- A chord as YAML. -/
def ChordEvent.toYaml (c : ChordEvent) : Yaml :=
  .mapping
    [("name", .text c.name),
      ("intervals", .numbers c.intervals),
      ("inversion", .number c.inversion),
      ("notes", .numbers c.notes)]

/-- The fields of a note. -/
def NoteEvent.fields (n : NoteEvent) : List (String × Yaml) :=
  [("value", .number n.value),
    ("rest", .boolean n.rest),
    ("duration", .double n.duration),
    ("attack", .number n.attack),
    ("decay", .number n.decay),
    ("tie_start", .boolean n.tieStart),
    ("tie_end", .boolean n.tieEnd),
    ("placement", n.placement.toYaml),
    ("voice", .number n.voice),
    ("layer", .number n.layer),
    ("chord", (n.chord.map (·.toYaml)).getD (.scalar "null"))]

namespace Event

/-- The name of the type of an event. -/
def typeName : Event → String
  | note _ => "note"
  | noteCollection _ => "note_collection"
  | tempo _ => "tempo"
  | keySignature .. => "key_signature"
  | controller .. => "controller"
  | instrument .. => "instrument"
  | voice _ => "voice"
  | layer _ => "layer"
  | measure => "measure"
  | time _ => "time"
  | systemExclusive _ => "system_exclusive"
  | pitchBend .. => "pitch_bend"
  | channelPressure .. => "channel_pressure"
  | polyphonicPressure .. => "polyphonic_pressure"
  | comment _ => "comment"
  | property .. => "property"
  | define .. => "dictionary_add"

/-- The fields of an event, without its type. -/
def fields : Event → List (String × Yaml)
  | note n => n.fields
  | noteCollection notes => [("notes", .sequence (notes.map fun n => .mapping n.fields))]
  | tempo bpm => [("bpm", .number bpm)]
  | keySignature root scale accidentals =>
    [("root", .number root), ("scale", scale.toYaml),
      ("accidentals", .scalar (Decimal.text accidentals))]
  | controller v index value messages =>
    [("voice", .number v), ("index", .number index), ("value", .number value),
      ("messages", .sequence (messages.map fun (number, data) => .numbers [number, data]))]
  | instrument v program => [("voice", .number v), ("program", .number program)]
  | voice v => [("voice", .number v)]
  | layer l => [("layer", .number l)]
  | measure => []
  | time t => [("time", .number t)]
  | systemExclusive bytes => [("bytes", .numbers bytes)]
  | pitchBend v value lsb msb =>
    [("voice", .number v), ("value", .number value), ("lsb", .number lsb), ("msb", .number msb)]
  | channelPressure v pressure => [("voice", .number v), ("pressure", .number pressure)]
  | polyphonicPressure v key pressure =>
    [("voice", .number v), ("note", .number key), ("pressure", .number pressure)]
  | comment t => [("text", .text t)]
  | property key value => [("key", .text key), ("value", .text value)]
  | define name entry =>
    [("name", .text name), ("value", entry.value.toYaml), ("role", .text entry.role.name)]

/-- An event as YAML. -/
def toYaml (e : Event) : Yaml :=
  .mapping (("type", .text e.typeName) :: e.fields)

end Event

/-- The YAML of a list of events. -/
def renderEvents (events : List Event) : String :=
  (Yaml.sequence (events.map (·.toYaml))).render

end MusicString

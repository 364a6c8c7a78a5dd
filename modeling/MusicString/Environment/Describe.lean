import MusicString.Environment

/-!
# Descriptions of environments

A line of text that shows the size of the dictionary, the defaults and the handles of the
listeners.
-/

namespace MusicString

/--
Descriptions write a double with the fewest digits and at least one decimal, and with a power of
ten below `10 ^ -4` and from `10 ^ 16` on.
-/
def describedDouble : Double.Layout where
  tie := .up
  positional e := -4 ≤ e && e < 16
  wholeEnding := ".0"
  infinity := "inf"
  notANumber := "NaN"

/-- A record with its fields, as descriptions write it. -/
def describedRecord (name : String) (fields : List (String × String)) : String :=
  name ++ " \x7b " ++ separated ", " (fields.map fun (k, v) => k ++ ": " ++ v) ++ " \x7d"

/-- The description of defaults. -/
def Defaults.describe (d : Defaults) : String :=
  describedRecord "Defaults"
    [("octave", Decimal.text d.octave.val),
      ("chord_octave", Decimal.text d.chordOctave.val),
      ("duration", describedDouble.write d.duration),
      ("attack", Decimal.text d.attack.val),
      ("decay", Decimal.text d.decay.val),
      ("tempo", Decimal.text d.tempo.val),
      ("voice", Decimal.text d.voice.val),
      ("layer", Decimal.text d.layer.val),
      ("time", Decimal.text d.time.val)]

/-- The description of a listener's handle. -/
def ListenerId.describe (id : ListenerId) : String :=
  "ListenerId(" ++ Decimal.text id.number ++ ")"

/-- The description of an environment. -/
def Environment.describe {σ : Type} (env : Environment σ) : String :=
  describedRecord "Environment"
    [("dictionary_len", Decimal.text env.dictionary.size),
      ("defaults", env.defaults.describe),
      ("listeners", "[" ++ separated ", " (env.listenerIds.map (·.describe)) ++ "]")]

end MusicString

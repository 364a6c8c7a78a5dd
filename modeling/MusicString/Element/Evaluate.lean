import MusicString.Defaults
import MusicString.Event

/-!
# Evaluation

`Element.evaluate` turns an element into an event: it looks up references, fills in defaults and
checks every number against the range of its field.
-/

namespace MusicString

/-- The largest note. -/
def maxNote : Int := 127

/-- The largest octave. -/
def maxOctave : Int := 10

/-- The largest voice. -/
def maxVoice : Int := 15

/-- The largest layer. -/
def maxLayer : Int := 15

/-- The largest data byte of a message. -/
def maxDataByte : Int := 127

/-- The number, if it lies between `min` and `max`. -/
def check {lo hi : Int} (field : Field) (min max : Int) (n : Ranged lo hi) :
    Except EvalError (Ranged lo hi) :=
  if min ≤ n.val ∧ n.val ≤ max then .ok n else .error (.outOfRange field n.val min max)

/-- The integer as a note, if it is one. -/
def checkNote (field : Field) (n : Int) : Except EvalError Byte :=
  if 0 ≤ n ∧ n ≤ maxNote then .ok (.nearest n) else .error (.outOfRange field n 0 maxNote)

namespace ChordSpec

/-- Numbers in ascending order. -/
def ascending (notes : List Nat) : List Nat :=
  notes.mergeSort

/-- The notes with the lowest one an octave higher. -/
def raiseLowest (notes : List Nat) : List Nat :=
  match ascending notes with
  | [] => []
  | lowest :: rest => (lowest + 12) :: rest

/-- The notes after a number of inversions, in ascending order. -/
def invert (inversions : Nat) (notes : List Nat) : List Nat :=
  ascending (Nat.repeat raiseLowest inversions notes)

/-- The chord on a root. -/
def evaluate (c : ChordSpec) (root : Byte) (d : Dictionary) : Except EvalError ChordEvent := do
  let intervals ← c.intervals.mapM (·.eval d)
  if intervals.length ≤ c.inversion.toNat then
    throw (.outOfRange .inversion c.inversion.val 0 (intervals.length - 1 : Nat))
  let tones := intervals.map fun i => root.toNat + i.toNat
  let notes ← (invert c.inversion.toNat tones).mapM fun n : Nat => checkNote .chordNote n
  return { name := c.name, intervals, inversion := c.inversion, notes }

end ChordSpec

/-- The time of a tuplet's note, in proportion to its written length. -/
def Tuplet.ratio (t : Tuplet) : Float :=
  Float.ofNat t.span / Float.ofNat t.count

namespace NoteElement

/-- The number of a note; a rest has the number zero. -/
def evaluateValue (n : NoteElement) (d : Dictionary) (defaults : Defaults) :
    Except EvalError Byte :=
  match n.value with
  | .rest => return .nearest 0
  | .numeric number => do check .note 0 maxNote (← number.eval d)
  | .pitch offset octave => do
    let octave ← match octave with
      | some octave => check .octave 0 maxOctave (← octave.eval d)
      | none => pure (if n.chord.isSome then defaults.chordOctave else defaults.octave)
    checkNote .note (octave.val * 12 + offset)

/-- The duration of a note, which must be positive and finite. -/
def evaluateDuration (n : NoteElement) (d : Dictionary) (defaults : Defaults) :
    Except EvalError Float := do
  let length ← match n.duration with
    | some duration => duration.eval d
    | none => pure defaults.duration
  let duration := match n.tuplet with
    | some tuplet => length * tuplet.ratio
    | none => length
  if 0.0 < duration && duration.isFinite then return duration
  else throw (.badDuration duration)

/-- A velocity; only one that is written is checked. -/
def evaluateVelocity (field : Field) (written : Option (Expr Byte)) (default : Byte)
    (d : Dictionary) : Except EvalError Byte :=
  match written with
  | some velocity => do check field 0 maxDataByte (← velocity.eval d)
  | none => return default

/-- The event of a note. -/
def evaluate (n : NoteElement) (d : Dictionary) (defaults : Defaults) :
    Except EvalError NoteEvent := do
  let value ← n.evaluateValue d defaults
  let duration ← n.evaluateDuration d defaults
  let attack ← evaluateVelocity .attack n.attack defaults.attack d
  let decay ← evaluateVelocity .decay n.decay defaults.decay d
  let chord ← match n.chord with
    | some chord => some <$> chord.evaluate value d
    | none => pure none
  return {
    value
    rest := decide (n.value = .rest)
    duration
    attack
    decay
    tieStart := n.tieStart
    tieEnd := n.tieEnd
    placement := n.placement
    voice := defaults.voice
    layer := defaults.layer
    chord }

end NoteElement

/-- The messages that set a controller: coarse and fine ones if its number has 14 bits. -/
def controllerMessages (index value : Integer) : Except EvalError (List (Byte × Byte)) :=
  if maxDataByte < index.val then do
    let value ← check .controllerValue 0 max14Bit value
    return [(msb index.val, msb value.val), (lsb index.val, lsb value.val)]
  else do
    let value ← check .controllerValue 0 maxDataByte value
    return [(.nearest index.val, .nearest value.val)]

/-- The event of an element. -/
def Element.evaluate (d : Dictionary) (defaults : Defaults) : Element → Except EvalError Event
  | note n => return .note (← n.evaluate d defaults)
  | noteCollection notes => return .noteCollection (← notes.mapM (·.evaluate d defaults))
  | tempo bpm => return .tempo (← check .tempo 1 2147483647 (← bpm.eval d))
  | keySignature root fifths scale => do
    let root ← root.eval d
    let fifths ← check .keySignature (-7) 7 (← fifths.eval d)
    return .keySignature (.nearest (root.val % 12)) scale fifths.val
  | controller index value => do
    let index ← check .controllerIndex 0 max14Bit (← index.eval d)
    let value ← value.eval d
    return .controller defaults.voice index value (← controllerMessages index value)
  | instrument program =>
    return .instrument defaults.voice (← check .instrument 0 maxDataByte (← program.eval d))
  | voice v => return .voice (← check .voice 0 maxVoice (← v.eval d))
  | layer l => return .layer (← check .layer 0 maxLayer (← l.eval d))
  | measure => return .measure
  | time t => return .time (← check .time 0 Value.maxLong (← t.eval d))
  | systemExclusive bytes => return .systemExclusive (← bytes.mapM (·.eval d))
  | pitchBend value => do
    let value ← check .pitchBend 0 max14Bit (← value.eval d)
    return .pitchBend defaults.voice value (lsb value.val) (msb value.val)
  | channelPressure pressure =>
    return .channelPressure defaults.voice (← check .pressure 0 maxDataByte (← pressure.eval d))
  | polyphonicPressure key pressure => do
    let key ← check .note 0 maxNote (← key.eval d)
    let pressure ← check .pressure 0 maxDataByte (← pressure.eval d)
    return .polyphonicPressure defaults.voice key pressure
  | comment text => return .comment text
  | property key value => return .property key value
  | define name entry => return .define name entry

end MusicString

import MusicString.Expr

/-!
# Elements

An element is what a token says, before its references are looked up and its omitted fields filled.
-/

namespace MusicString

/-- Whether a note follows the one before it or sounds with it. -/
inductive Placement
  | sequential
  | parallel
  deriving DecidableEq

/-- The two scales of key signatures. -/
inductive Scale
  | major
  | minor
  deriving DecidableEq

/-- What a note token names. -/
inductive NoteValue
  /-- A letter with accidentals, in semitones above C, and the octave if one is written. -/
  | pitch (offset : Int) (octave : Option (Expr Byte))
  /-- A note by its number. -/
  | numeric (number : Expr Byte)
  | rest
  deriving DecidableEq

/-- A chord on a note: its name, its intervals in semitones, and how often it is inverted. -/
structure ChordSpec where
  name : String
  intervals : List (Expr Byte)
  inversion : Byte
  deriving DecidableEq

/-- The ratio of a tuplet: `count` notes in the time of `span`. -/
structure Tuplet where
  count : Nat := 3
  span : Nat := 2
  deriving DecidableEq

/-- A note; a field that is `none` takes the default of the environment. -/
structure NoteElement where
  value : NoteValue
  chord : Option ChordSpec := none
  duration : Option (Expr Float) := none
  tuplet : Option Tuplet := none
  attack : Option (Expr Byte) := none
  decay : Option (Expr Byte) := none
  tieStart : Bool := false
  tieEnd : Bool := false
  placement : Placement := .sequential
  deriving DecidableEq

/-- What a token says. -/
inductive Element
  | note (note : NoteElement)
  | noteCollection (notes : List NoteElement)
  | tempo (bpm : Expr Integer)
  | keySignature (root : Expr Byte) (fifths : Expr Integer) (scale : Scale)
  | controller (index value : Expr Integer)
  | instrument (program : Expr Byte)
  | voice (voice : Expr Byte)
  | layer (layer : Expr Byte)
  | measure
  | time (time : Expr Long)
  | systemExclusive (bytes : List (Expr Byte))
  | pitchBend (value : Expr Integer)
  | channelPressure (pressure : Expr Byte)
  | polyphonicPressure (note pressure : Expr Byte)
  | comment (text : String)
  | property (key value : String)
  | define (name : String) (entry : Entry)
  deriving DecidableEq

end MusicString

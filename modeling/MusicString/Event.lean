import MusicString.Element

/-!
# Events

An event is what an element amounts to once it is evaluated: it holds plain numbers only.
-/

namespace MusicString

/-- A sounding chord: its notes are in ascending order. -/
structure ChordEvent where
  name : String
  intervals : List Byte
  inversion : Byte
  notes : List Byte
  deriving DecidableEq

/-- A sounding note or a rest; the duration is in whole notes. -/
structure NoteEvent where
  value : Byte
  rest : Bool
  duration : Float
  attack : Byte
  decay : Byte
  tieStart : Bool
  tieEnd : Bool
  placement : Placement
  voice : Byte
  layer : Byte
  chord : Option ChordEvent
  deriving DecidableEq

/-- What happens at a token. -/
inductive Event
  | note (note : NoteEvent)
  | noteCollection (notes : List NoteEvent)
  | tempo (bpm : Integer)
  | keySignature (root : Byte) (scale : Scale) (accidentals : Int)
  /-- The messages are pairs of a controller number and a data byte. -/
  | controller (voice : Byte) (index value : Integer) (messages : List (Byte × Byte))
  | instrument (voice program : Byte)
  | voice (voice : Byte)
  | layer (layer : Byte)
  | measure
  | time (time : Long)
  | systemExclusive (bytes : List Byte)
  | pitchBend (voice : Byte) (value : Integer) (lsb msb : Byte)
  | channelPressure (voice pressure : Byte)
  | polyphonicPressure (voice note pressure : Byte)
  | comment (text : String)
  | property (key value : String)
  | define (name : String) (entry : Entry)
  deriving DecidableEq

/-- The name of the kind of an event. -/
def Event.kind : Event → String
  | note _ => "note"
  | noteCollection _ => "note collection"
  | tempo _ => "tempo"
  | keySignature .. => "key signature"
  | controller .. => "controller"
  | instrument .. => "instrument"
  | voice _ => "voice"
  | layer _ => "layer"
  | measure => "measure"
  | time _ => "time"
  | systemExclusive _ => "system exclusive"
  | pitchBend .. => "pitch bend"
  | channelPressure .. => "channel pressure"
  | polyphonicPressure .. => "polyphonic pressure"
  | comment _ => "comment"
  | property .. => "property"
  | define .. => "dictionary add"

/-- The note of an event that is a single note. -/
def Event.note? : Event → Option NoteEvent
  | note n => some n
  | _ => none

end MusicString

import MusicString.Event

/-!
# Listeners

A listener is told of events through callbacks, of which it overrides those it cares about; each
callback is told the fields of the events of its kind.  A single note goes to the callback for its
kind of note and, if that is not overridden, to the callback for all notes.  A collection goes, if
its callback is not overridden, note by note to the callbacks for notes.  What listeners do is
change a state, and they may reject an event with a reason.
-/

namespace MusicString

/-- The callbacks of a listener. -/
inductive Callback
  | note
  | sequentialNote
  | parallelNote
  | chord
  | noteCollection
  | tempo
  | keySignature
  | controller
  | instrument
  | voice
  | layer
  | measure
  | time
  | pitchBend
  | channelPressure
  | polyphonicPressure
  | systemExclusive
  | comment
  | property
  | define
  deriving DecidableEq

/-- What a callback is told. -/
abbrev Callback.Payload : Callback → Type
  | note | sequentialNote | parallelNote | chord => NoteEvent
  | noteCollection => List NoteEvent
  | tempo => Integer
  | keySignature => Byte × Scale × Int
  | controller => Byte × Integer × Integer × List (Byte × Byte)
  | instrument => Byte × Byte
  | voice => Byte
  | layer => Byte
  | measure => Unit
  | time => Long
  | pitchBend => Byte × Integer × Byte × Byte
  | channelPressure => Byte × Byte
  | polyphonicPressure => Byte × Byte × Byte
  | systemExclusive => List Byte
  | comment => String
  | property => String × String
  | define => String × Entry

/-- A callback with what it is told. -/
structure Invocation where
  callback : Callback
  payload : callback.Payload

/-- A change of a state of type `σ` that may reject with a reason. -/
abbrev Action (σ : Type) := EStateM String σ

/-- A listener: what it does in each callback that it overrides. -/
structure Listener (σ : Type) where
  override? : (callback : Callback) → Option (callback.Payload → Action σ Unit)

/-- A note goes to the callback for its kind of note. -/
def NoteEvent.entry (n : NoteEvent) : Invocation :=
  if n.chord.isSome then ⟨.chord, n⟩
  else
    match n.placement with
    | .sequential => ⟨.sequentialNote, n⟩
    | .parallel => ⟨.parallelNote, n⟩

/-- The callback that an event enters through, with the fields of the event. -/
def Event.entry : Event → Invocation
  | note n => n.entry
  | noteCollection notes => ⟨.noteCollection, notes⟩
  | tempo bpm => ⟨.tempo, bpm⟩
  | keySignature root scale accidentals => ⟨.keySignature, (root, scale, accidentals)⟩
  | controller v index value messages => ⟨.controller, (v, index, value, messages)⟩
  | instrument v program => ⟨.instrument, (v, program)⟩
  | voice v => ⟨.voice, v⟩
  | layer l => ⟨.layer, l⟩
  | measure => ⟨.measure, ()⟩
  | time t => ⟨.time, t⟩
  | systemExclusive bytes => ⟨.systemExclusive, bytes⟩
  | pitchBend v value lsb msb => ⟨.pitchBend, (v, value, lsb, msb)⟩
  | channelPressure v pressure => ⟨.channelPressure, (v, pressure)⟩
  | polyphonicPressure v key pressure => ⟨.polyphonicPressure, (v, key, pressure)⟩
  | comment text => ⟨.comment, text⟩
  | property key value => ⟨.property, (key, value)⟩
  | define name entry => ⟨.define, (name, entry)⟩

namespace Listener

variable {σ : Type}

/-- Invokes a callback, or does something else if it is not overridden. -/
def call (l : Listener σ) (i : Invocation) (otherwise : Action σ Unit) : Action σ Unit :=
  match l.override? i.callback with
  | some act => act i.payload
  | none => otherwise

/-- Tells a listener of a note. -/
def visitNote (l : Listener σ) (n : NoteEvent) : Action σ Unit :=
  l.call n.entry (l.call ⟨.note, n⟩ (pure ()))

/-- Tells a listener of notes one by one, until it rejects one. -/
def visitNotes (l : Listener σ) : List NoteEvent → Action σ Unit
  | [] => pure ()
  | n :: notes => do
    l.visitNote n
    l.visitNotes notes

/-- Tells a listener of an event. -/
def deliver (l : Listener σ) : Event → Action σ Unit
  | .note n => l.visitNote n
  | .noteCollection notes => l.call ⟨.noteCollection, notes⟩ (l.visitNotes notes)
  | event => l.call event.entry (pure ())

/-- An event goes to the callback that it enters through, and to no other if this is overridden. -/
theorem deliver_of_override {l : Listener σ} {event : Event}
    {act : event.entry.callback.Payload → Action σ Unit}
    (h : l.override? event.entry.callback = some act) :
    l.deliver event = act event.entry.payload := by
  have hcall (otherwise : Action σ Unit) :
      l.call event.entry otherwise = act event.entry.payload := by
    rw [call, h]
  cases event <;> exact hcall _

/--
The listener that records every event.  It overrides the callback for all notes and none of those
for a kind of note, and each callback makes an event of its kind again.
-/
def recorder (record : Event → σ → σ) : Listener σ where
  override?
    | .note => some fun n => modify (record (.note n))
    | .sequentialNote | .parallelNote | .chord => none
    | .noteCollection => some fun notes => modify (record (.noteCollection notes))
    | .tempo => some fun bpm => modify (record (.tempo bpm))
    | .keySignature => some fun (root, scale, accidentals) =>
      modify (record (.keySignature root scale accidentals))
    | .controller => some fun (v, index, value, messages) =>
      modify (record (.controller v index value messages))
    | .instrument => some fun (v, program) => modify (record (.instrument v program))
    | .voice => some fun v => modify (record (.voice v))
    | .layer => some fun l => modify (record (.layer l))
    | .measure => some fun () => modify (record .measure)
    | .time => some fun t => modify (record (.time t))
    | .pitchBend => some fun (v, value, lsb, msb) => modify (record (.pitchBend v value lsb msb))
    | .channelPressure => some fun (v, pressure) => modify (record (.channelPressure v pressure))
    | .polyphonicPressure => some fun (v, key, pressure) =>
      modify (record (.polyphonicPressure v key pressure))
    | .systemExclusive => some fun bytes => modify (record (.systemExclusive bytes))
    | .comment => some fun text => modify (record (.comment text))
    | .property => some fun (key, value) => modify (record (.property key value))
    | .define => some fun (name, entry) => modify (record (.define name entry))

end Listener

end MusicString

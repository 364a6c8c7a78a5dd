import MusicString.Listener

/-!
# Probes

A probe is a listener that leaves a trace of the callbacks it receives, and that rejects one chosen
call.  Probes and logs of events work side by side in a `Studio`.
-/

namespace MusicString

/-- What a trace tells of a call. -/
inductive Detail
  | nothing
  | number (n : Int)
  | long (n : Long)
  | bytes (bytes : List Byte)
  | text (text : String)
  deriving DecidableEq

/-- The part of what a callback is told that a trace tells. -/
def Invocation.detail : Invocation → Detail
  | ⟨.note, n⟩ | ⟨.sequentialNote, n⟩ | ⟨.parallelNote, n⟩ | ⟨.chord, n⟩ => .number n.value.val
  | ⟨.noteCollection, notes⟩ => .number notes.length
  | ⟨.tempo, bpm⟩ => .number bpm.val
  | ⟨.keySignature, (_, _, accidentals)⟩ => .number accidentals
  | ⟨.controller, (_, index, _, _)⟩ => .number index.val
  | ⟨.instrument, (_, program)⟩ => .number program.val
  | ⟨.voice, v⟩ => .number v.val
  | ⟨.layer, l⟩ => .number l.val
  | ⟨.measure, ()⟩ => .nothing
  | ⟨.time, t⟩ => .long t
  | ⟨.systemExclusive, bytes⟩ => .bytes bytes
  | ⟨.pitchBend, (_, value, _, _)⟩ => .number value.val
  | ⟨.channelPressure, (_, pressure)⟩ => .number pressure.val
  | ⟨.polyphonicPressure, (_, key, _)⟩ => .number key.val
  | ⟨.comment, text⟩ => .text text
  | ⟨.property, (key, _)⟩ => .text key
  | ⟨.define, (name, _)⟩ => .text name

/-- A call in a trace: who was called, how, and with what. -/
structure Call where
  label : String
  callback : Callback
  detail : Detail
  deriving DecidableEq

/-- What numbered listeners keep together, with the latest first. -/
structure Studio where
  /-- The events of all logs, each with the number of its log. -/
  recorded : List (Nat × Event) := []
  /-- The listeners whose calls are counted, by their numbers and once for each call. -/
  counted : List Nat := []
  /-- The calls of probes. -/
  traced : List Call := []

namespace Studio

/-- Adds an event to a log. -/
def record (i : Nat) (event : Event) (s : Studio) : Studio :=
  { s with recorded := (i, event) :: s.recorded }

/-- The events of a log, in order. -/
def log (s : Studio) (i : Nat) : List Event :=
  (s.recorded.filterMap fun p => if p.1 = i then some p.2 else none).reverse

/-- Empties a log. -/
def clearLog (s : Studio) (i : Nat) : Studio :=
  { s with recorded := s.recorded.filter (·.1 ≠ i) }

/-- The calls traced, in order. -/
def trace (s : Studio) : List Call :=
  s.traced.reverse

/-- Empties the trace. -/
def clearTrace (s : Studio) : Studio :=
  { s with traced := [] }

/-- The listener that keeps the log with the given number. -/
def logger (i : Nat) : Listener Studio :=
  .recorder (record i)

end Studio

/-- The call that a probe rejects: the `nth` of a callback, counted from zero. -/
structure Rejection where
  callback : Callback
  nth : Nat
  message : String

/-- A probe: the callbacks that it overrides, and the call that it rejects, if any. -/
structure Probe where
  label : String
  overridden : Callback → Bool
  rejection : Option Rejection := none

namespace Probe

/-- Adds a call to the trace. -/
def leaveTrace (p : Probe) (i : Invocation) : Action Studio Unit :=
  modify fun s => { s with traced := ⟨p.label, i.callback, i.detail⟩ :: s.traced }

/-- Counts a call of the listener with the given number, and tells how many were counted before. -/
def countCall (i : Nat) : Action Studio Nat := do
  let calls := (← get).counted.count i
  modify fun s => { s with counted := i :: s.counted }
  return calls

/-- What the probe with the given number does when a callback is invoked. -/
def act (p : Probe) (number : Nat) (i : Invocation) : Action Studio Unit := do
  if let some r := p.rejection then
    if r.callback = i.callback then
      if (← countCall number) = r.nth then throw r.message
  p.leaveTrace i

/-- The listener of a probe with the given number. -/
def listener (p : Probe) (number : Nat) : Listener Studio where
  override? callback :=
    if p.overridden callback then some fun payload => p.act number ⟨callback, payload⟩ else none

end Probe

end MusicString

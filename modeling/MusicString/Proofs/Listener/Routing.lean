import MusicString.Listener

/-!
# The callbacks that an event reaches

Which of its callbacks a listener overrides decides where an event arrives.  To see this, the
listener is *traced*: the same callbacks are overridden and do the same, and each notes down that it
was invoked and what it was told.  Callbacks that are not overridden leave no trace of their own,
but what they hand on does.

* `Event.Enters`: the callback for each kind of event, and what it is told;
* `Listener.traced`, `Listener.observe`: what comes of an event, and the invocations on the way;
* `Listener.observeAll`: events one after the other, up to the first that is rejected;
* `Listener.observe_routing`: where every event arrives, for any set of overridden callbacks.
-/

namespace MusicString

/--
The callback that an event enters through, with what it is told: the fields of the event.  A note
with a chord goes to the callback for chords, and any other note to the one for its placement.
-/
inductive Event.Enters : Event → Invocation → Prop
  | chord {n : NoteEvent} : n.chord.isSome → Enters (.note n) ⟨.chord, n⟩
  | sequentialNote {n : NoteEvent} : n.chord = none → n.placement = .sequential →
    Enters (.note n) ⟨.sequentialNote, n⟩
  | parallelNote {n : NoteEvent} : n.chord = none → n.placement = .parallel →
    Enters (.note n) ⟨.parallelNote, n⟩
  | noteCollection (notes : List NoteEvent) :
    Enters (.noteCollection notes) ⟨.noteCollection, notes⟩
  | tempo (bpm : Integer) : Enters (.tempo bpm) ⟨.tempo, bpm⟩
  | keySignature (root : Byte) (scale : Scale) (accidentals : Int) :
    Enters (.keySignature root scale accidentals) ⟨.keySignature, (root, scale, accidentals)⟩
  | controller (v : Byte) (index value : Integer) (messages : List (Byte × Byte)) :
    Enters (.controller v index value messages) ⟨.controller, (v, index, value, messages)⟩
  | instrument (v program : Byte) : Enters (.instrument v program) ⟨.instrument, (v, program)⟩
  | voice (v : Byte) : Enters (.voice v) ⟨.voice, v⟩
  | layer (l : Byte) : Enters (.layer l) ⟨.layer, l⟩
  | measure : Enters .measure ⟨.measure, ()⟩
  | time (t : Long) : Enters (.time t) ⟨.time, t⟩
  | systemExclusive (bytes : List Byte) : Enters (.systemExclusive bytes) ⟨.systemExclusive, bytes⟩
  | pitchBend (v : Byte) (value : Integer) (lsb msb : Byte) :
    Enters (.pitchBend v value lsb msb) ⟨.pitchBend, (v, value, lsb, msb)⟩
  | channelPressure (v pressure : Byte) :
    Enters (.channelPressure v pressure) ⟨.channelPressure, (v, pressure)⟩
  | polyphonicPressure (v key pressure : Byte) :
    Enters (.polyphonicPressure v key pressure) ⟨.polyphonicPressure, (v, key, pressure)⟩
  | comment (text : String) : Enters (.comment text) ⟨.comment, text⟩
  | property (key value : String) : Enters (.property key value) ⟨.property, (key, value)⟩
  | define (name : String) (entry : Entry) : Enters (.define name entry) ⟨.define, (name, entry)⟩

/-- Every event enters through exactly one callback. -/
theorem Event.enters_iff {event : Event} {i : Invocation} : event.Enters i ↔ i = event.entry := by
  constructor
  · intro h
    cases h with
    | chord hchord => exact (if_pos hchord).symm
    | sequentialNote hchord hplacement =>
      simp [Event.entry, NoteEvent.entry, hchord, hplacement]
    | parallelNote hchord hplacement =>
      simp [Event.entry, NoteEvent.entry, hchord, hplacement]
    | _ => rfl
  · rintro rfl
    cases event with
    | note n =>
      show (Event.note n).Enters n.entry
      unfold NoteEvent.entry
      split
      case isTrue hchord => exact .chord hchord
      case isFalse hchord =>
        have hnone : n.chord = none := by simpa using hchord
        split
        case h_1 hplacement => exact .sequentialNote hnone hplacement
        case h_2 hplacement => exact .parallelNote hnone hplacement
    | _ => constructor

namespace Listener

variable {σ : Type} {l : Listener σ}

/-! ### Where an event arrives -/

/-- A note is handed on to the callback for all notes. -/
theorem deliver_note_of_none {n : NoteEvent} (h : l.override? n.entry.callback = none) :
    l.deliver (.note n) = l.call ⟨.note, n⟩ (pure ()) := by
  rw [deliver, visitNote, call, h]

/-- A collection is taken apart. -/
theorem deliver_noteCollection_of_none {notes : List NoteEvent}
    (h : l.override? .noteCollection = none) :
    l.deliver (.noteCollection notes) = l.visitNotes notes := by
  rw [deliver, call, h]

/-- An event other than a note or a collection comes to nothing. -/
theorem deliver_of_none {event : Event} (hnote : ∀ n, event ≠ .note n)
    (hnotes : ∀ notes, event ≠ .noteCollection notes)
    (h : l.override? event.entry.callback = none) : l.deliver event = pure () := by
  have hcall : l.call event.entry (pure ()) = pure () := by
    rw [call, h]
  cases event with
  | note n => exact absurd rfl (hnote n)
  | noteCollection notes => exact absurd rfl (hnotes notes)
  | _ => exact hcall

/-! ### Traces -/

/-- A result whose state also holds invocations. -/
def withCalls (calls : List Invocation) :
    EStateM.Result String σ Unit → EStateM.Result String (σ × List Invocation) Unit
  | .ok _ s => .ok () (s, calls)
  | .error reason s => .error reason (s, calls)

/-- An action that also notes down an invocation, whether it succeeds or fails. -/
def noting (call : Invocation) (x : Action σ Unit) : Action (σ × List Invocation) Unit :=
  fun (s, calls) => withCalls (calls ++ [call]) (x s)

/-- The listener that does what `l` does, and notes down the callbacks that are invoked. -/
def traced (l : Listener σ) : Listener (σ × List Invocation) where
  override? callback :=
    (l.override? callback).map fun act payload => noting ⟨callback, payload⟩ (act payload)

theorem override?_traced (l : Listener σ) (callback : Callback) :
    l.traced.override? callback =
      (l.override? callback).map fun act payload => noting ⟨callback, payload⟩ (act payload) := rfl

/-- What comes of an event, and the invocations of overridden callbacks on the way. -/
def observe (l : Listener σ) (event : Event) (s : σ) :
    EStateM.Result String σ Unit × List Invocation :=
  match l.traced.deliver event (s, []) with
  | .ok _ (s', calls) => (.ok () s', calls)
  | .error reason (s', calls) => (.error reason s', calls)

/-- What comes of events one after the other, of which those after a rejected one are left out. -/
def observeAll (l : Listener σ) :
    List Event → σ → EStateM.Result String σ Unit × List Invocation
  | [], s => (.ok () s, [])
  | event :: later, s =>
    match l.observe event s with
    | (.ok _ s', calls) => ((l.observeAll later s').1, calls ++ (l.observeAll later s').2)
    | (.error reason s', calls) => (.error reason s', calls)

/-- `x` does what `y` does and notes down invocations, which do not depend on earlier ones. -/
def Notes (x : Action (σ × List Invocation) Unit) (y : Action σ Unit) : Prop :=
  ∃ new : σ → List Invocation, ∀ s calls, x (s, calls) = withCalls (calls ++ new s) (y s)

theorem notes_pure : Notes (σ := σ) (pure ()) (pure ()) :=
  ⟨fun _ => [], fun _ _ => by rw [List.append_nil]; rfl⟩

theorem Notes.bind {x x' : Action (σ × List Invocation) Unit} {y y' : Action σ Unit}
    (h : Notes x y) (h' : Notes x' y') : Notes (do x; x') (do y; y') := by
  obtain ⟨new, hnew⟩ := h
  obtain ⟨new', hnew'⟩ := h'
  refine ⟨fun s => new s ++ match y s with
    | .ok _ s' => new' s'
    | .error _ _ => [], fun s calls => ?_⟩
  show EStateM.bind x (fun _ => x') (s, calls) = withCalls _ (EStateM.bind y (fun _ => y') s)
  simp only [EStateM.bind, hnew]
  cases y s with
  | ok _ s' => simp only [withCalls, hnew', List.append_assoc]
  | error reason s' => simp only [withCalls, List.append_nil]

theorem Notes.call {x : Action (σ × List Invocation) Unit} {y : Action σ Unit} (h : Notes x y)
    (i : Invocation) : Notes (l.traced.call i x) (l.call i y) := by
  unfold Listener.call
  rw [override?_traced]
  cases l.override? i.callback with
  | some act => exact ⟨fun _ => [i], fun _ _ => rfl⟩
  | none => exact h

theorem notes_visitNotes (notes : List NoteEvent) :
    Notes (l.traced.visitNotes notes) (l.visitNotes notes) := by
  induction notes with
  | nil => exact notes_pure
  | cons n notes ih => exact ((notes_pure.call _).call _).bind ih

theorem notes_deliver (event : Event) : Notes (l.traced.deliver event) (l.deliver event) := by
  cases event with
  | note n => exact (notes_pure.call _).call _
  | noteCollection notes => exact (notes_visitNotes notes).call _
  | _ => exact notes_pure.call _

theorem observe_eq {event : Event} {new : σ → List Invocation}
    (h : ∀ s calls, l.traced.deliver event (s, calls) =
      withCalls (calls ++ new s) (l.deliver event s)) (s : σ) :
    l.observe event s = (l.deliver event s, new s) := by
  unfold observe
  rw [h]
  cases l.deliver event s <;> rfl

/-- Tracing a listener changes nothing. -/
theorem observe_fst (event : Event) (s : σ) : (l.observe event s).1 = l.deliver event s := by
  obtain ⟨new, hnew⟩ := notes_deliver (l := l) event
  rw [observe_eq hnew]

/-- What is noted down comes after what was there. -/
theorem deliver_traced (event : Event) (s : σ) (calls : List Invocation) :
    l.traced.deliver event (s, calls) =
      withCalls (calls ++ (l.observe event s).2) (l.observe event s).1 := by
  obtain ⟨new, hnew⟩ := notes_deliver (l := l) event
  rw [observe_eq hnew, hnew]

theorem override?_traced_of_none {callback : Callback} (h : l.override? callback = none) :
    l.traced.override? callback = none := by
  rw [override?_traced, h, Option.map_none]

/-! ### Routing -/

/-- An event that arrives at one callback leaves one invocation. -/
theorem observe_of_noting {event : Event} {invocation : Invocation} {x : Action σ Unit}
    (h : l.traced.deliver event = noting invocation x) (s : σ) :
    l.observe event s = (x s, [invocation]) := by
  unfold observe
  rw [h, noting]
  cases x s <;> rfl

theorem observe_of_override {event : Event} {act : event.entry.callback.Payload → Action σ Unit}
    (h : l.override? event.entry.callback = some act) (s : σ) :
    l.observe event s = (act event.entry.payload s, [event.entry]) := by
  have htraced := override?_traced l event.entry.callback
  rw [h, Option.map_some] at htraced
  exact observe_of_noting (deliver_of_override htraced) s

theorem observe_of_none {event : Event} (hnote : ∀ n, event ≠ .note n)
    (hnotes : ∀ notes, event ≠ .noteCollection notes)
    (h : l.override? event.entry.callback = none) (s : σ) :
    l.observe event s = (.ok () s, []) := by
  unfold observe
  rw [deliver_of_none hnote hnotes (override?_traced_of_none h)]
  rfl

theorem observe_note_of_none {n : NoteEvent} (h : l.override? n.entry.callback = none) (s : σ) :
    l.observe (.note n) s =
      match l.override? .note with
      | some act => (act n s, [⟨.note, n⟩])
      | none => (.ok () s, []) := by
  have htraced := deliver_note_of_none (override?_traced_of_none h)
  rw [call, override?_traced] at htraced
  cases hnote : l.override? .note with
  | some act =>
    rw [hnote, Option.map_some] at htraced
    exact observe_of_noting htraced s
  | none =>
    rw [hnote, Option.map_none] at htraced
    rw [observe, htraced]
    rfl

/-- Telling of notes one by one, in a listener that is traced. -/
theorem visitNotes_traced (notes : List NoteEvent) (s : σ) (calls : List Invocation) :
    l.traced.visitNotes notes (s, calls) =
      withCalls (calls ++ (l.observeAll (notes.map .note) s).2)
        (l.observeAll (notes.map .note) s).1 := by
  induction notes generalizing s calls with
  | nil => rw [List.map_nil, observeAll, List.append_nil]; rfl
  | cons n notes ih =>
    have hfirst : l.traced.visitNote n (s, calls) = _ := deliver_traced (.note n) s calls
    show EStateM.bind (l.traced.visitNote n) (fun _ => l.traced.visitNotes notes) (s, calls) = _
    rw [EStateM.bind, hfirst, List.map_cons, observeAll]
    rcases l.observe (.note n) s with ⟨_ | _, new⟩
    · simp only [withCalls, ih, List.append_assoc]
    · rfl

theorem observe_noteCollection_of_none {notes : List NoteEvent}
    (h : l.override? .noteCollection = none) (s : σ) :
    l.observe (.noteCollection notes) s = l.observeAll (notes.map .note) s := by
  unfold observe
  rw [deliver_noteCollection_of_none (override?_traced_of_none h), visitNotes_traced,
    List.nil_append]
  rcases l.observeAll (notes.map .note) s with ⟨_ | _, new⟩ <;> rfl

/-- The events after a rejected one do not reach the listener. -/
theorem observeAll_of_rejected {before : List Event} {event : Event} {reason : String} {s s₁ s₂ : σ}
    (hbefore : (l.observeAll before s).1 = .ok () s₁)
    (hevent : l.deliver event s₁ = .error reason s₂) (after : List Event) :
    l.observeAll (before ++ event :: after) s =
      (.error reason s₂, (l.observeAll before s).2 ++ (l.observe event s₁).2) := by
  induction before generalizing s with
  | nil =>
    cases hbefore
    rw [← observe_fst] at hevent
    simp only [List.nil_append, observeAll]
    generalize l.observe event s₁ = x at hevent
    obtain ⟨_, calls⟩ := x
    cases hevent
    rfl
  | cons first rest ih =>
    rw [List.cons_append, observeAll, observeAll]
    rw [observeAll] at hbefore
    generalize l.observe first s = x at hbefore ⊢
    obtain ⟨_ | _, calls⟩ := x
    · simp only [ih hbefore, List.append_assoc]
    · cases hbefore

/--
**Routing.**  Whatever callbacks a listener overrides, every event enters through exactly one of
them, which is told its fields.  If the callback is overridden, it is invoked, and nothing else is.
If not, a note goes on unchanged to the callback for all notes, a collection amounts to its notes
one by one, of which those after a rejected one do not reach the listener, and any other event comes
to nothing.
-/
theorem observe_routing (l : Listener σ) (event : Event) (s : σ) :
    (l.observe event s).1 = l.deliver event s ∧
      (∀ i, event.Enters i ↔ i = event.entry) ∧
      match l.override? event.entry.callback, event with
      | some act, _ => l.observe event s = (act event.entry.payload s, [event.entry])
      | none, .note n =>
        l.observe event s =
          match l.override? .note with
          | some act => (act n s, [⟨.note, n⟩])
          | none => (.ok () s, [])
      | none, .noteCollection notes =>
        l.observe event s = l.observeAll (notes.map .note) s ∧
          ∀ before n after reason s₁ s₂, notes = before ++ n :: after →
            (l.observeAll (before.map .note) s).1 = .ok () s₁ →
            l.deliver (.note n) s₁ = .error reason s₂ →
            l.observe event s = (.error reason s₂,
              (l.observeAll (before.map .note) s).2 ++ (l.observe (.note n) s₁).2)
      | none, _ => l.observe event s = (.ok () s, []) := by
  refine ⟨observe_fst event s, fun i => Event.enters_iff, ?_⟩
  cases h : l.override? event.entry.callback with
  | some act => exact observe_of_override h s
  | none =>
    cases event with
    | note n => exact observe_note_of_none h s
    | noteCollection notes =>
      have hall : l.observe (.noteCollection notes) s = l.observeAll (notes.map .note) s :=
        observe_noteCollection_of_none h s
      refine ⟨hall, fun before n after reason s₁ s₂ hnotes hbefore hn => ?_⟩
      rw [hall, hnotes, List.map_append, List.map_cons]
      exact observeAll_of_rejected hbefore hn _
    | _ => exact observe_of_none (by simp) (by simp) h s

/-- A listener that counts notes and rejects those that sound together with the one before. -/
theorem observe_routing_rejected :
    let note (placement : Placement) : NoteEvent :=
      ⟨.nearest 60, false, 0.25, .nearest 64, .nearest 64, false, false, placement, .nearest 0,
        .nearest 0, none⟩
    let l : Listener Nat := ⟨fun
      | .note => some fun _ => modify (· + 1)
      | .parallelNote => some fun _ => throw "one at a time"
      | _ => none⟩
    let collection : Event :=
      .noteCollection [note .sequential, note .sequential, note .parallel, note .sequential]
    l.override? collection.entry.callback = none ∧
      l.observe collection 0 = (.error "one at a time" 2,
        [⟨.note, note .sequential⟩, ⟨.note, note .sequential⟩,
          ⟨.parallelNote, note .parallel⟩]) := by
  intro note l collection
  obtain ⟨-, -, hnotes⟩ := observe_routing l collection 0
  exact ⟨rfl, hnotes.2 [note .sequential, note .sequential] (note .parallel) [note .sequential]
    "one at a time" 2 2 rfl rfl rfl⟩

end Listener

end MusicString

import MusicString.Proofs.Environment.Firing

/-!
# Offers to listeners

To see what listeners are offered, each of them is *watched*: another listener stands in its place
that passes every event on and notes down the offer, and whether it was rejected.  Watching changes
nothing else, and what it notes down is in order: an event is offered to all listeners in the order
of their registration, or up to the first that rejects it.

* `Offer`, `Listener.watched`, `Environment.watched`;
* `Environment.fire_watched`: the offers that firing an element makes;
* `Environment.keeps_receiveAll`: what each listener keeps of the shared state, a run keeps;
* `Environment.LogsAt`: a listener that records all events in a log of its own.
-/

namespace MusicString

/--
An event as it was offered to a listener, which is named by its place in the order of registration,
with the reason if the listener rejected it.
-/
structure Offer where
  listener : Nat
  event : Event
  rejection : Option String
  deriving DecidableEq

/-- The events that the listener in the given place was offered, in order. -/
def Offer.eventsTo (place : Nat) (offers : List Offer) : List Event :=
  (offers.filter (·.listener = place)).map (·.event)

/-- The offers of an event to listeners from a place on, all of which take it. -/
def Offer.taken (event : Event) (place count : Nat) : List Offer :=
  (List.range' place count).map (⟨·, event, none⟩)

theorem Offer.taken_zero (event : Event) (place : Nat) : taken event place 0 = [] := rfl

theorem Offer.taken_succ (event : Event) (place count : Nat) :
    taken event place (count + 1) = ⟨place, event, none⟩ :: taken event (place + 1) count := by
  rw [taken, List.range'_succ, List.map_cons, taken]

/-- The event that a callback is told of, which is a note for each of the callbacks for notes. -/
def Invocation.event : Invocation → Event
  | ⟨.note, n⟩ | ⟨.sequentialNote, n⟩ | ⟨.parallelNote, n⟩ | ⟨.chord, n⟩ => .note n
  | ⟨.noteCollection, notes⟩ => .noteCollection notes
  | ⟨.tempo, bpm⟩ => .tempo bpm
  | ⟨.keySignature, (root, scale, accidentals)⟩ => .keySignature root scale accidentals
  | ⟨.controller, (v, index, value, messages)⟩ => .controller v index value messages
  | ⟨.instrument, (v, program)⟩ => .instrument v program
  | ⟨.voice, v⟩ => .voice v
  | ⟨.layer, l⟩ => .layer l
  | ⟨.measure, ()⟩ => .measure
  | ⟨.time, t⟩ => .time t
  | ⟨.pitchBend, (v, value, lsb, msb)⟩ => .pitchBend v value lsb msb
  | ⟨.channelPressure, (v, pressure)⟩ => .channelPressure v pressure
  | ⟨.polyphonicPressure, (v, key, pressure)⟩ => .polyphonicPressure v key pressure
  | ⟨.systemExclusive, bytes⟩ => .systemExclusive bytes
  | ⟨.comment, text⟩ => .comment text
  | ⟨.property, (key, value)⟩ => .property key value
  | ⟨.define, (name, entry)⟩ => .define name entry

/-- A note enters through one of the callbacks for a kind of note. -/
theorem NoteEvent.entry_cases (n : NoteEvent) :
    n.entry = ⟨.chord, n⟩ ∨ n.entry = ⟨.sequentialNote, n⟩ ∨ n.entry = ⟨.parallelNote, n⟩ := by
  unfold NoteEvent.entry
  split
  · exact .inl rfl
  · cases n.placement with
    | sequential => exact .inr (.inl rfl)
    | parallel => exact .inr (.inr rfl)

/-- What a callback is told tells the event. -/
@[simp] theorem Event.event_entry (event : Event) : event.entry.event = event := by
  cases event with
  | note n => rcases n.entry_cases with h | h | h <;> rw [Event.entry, h] <;> rfl
  | _ => rfl

namespace Listener

variable {σ : Type}

/-- The listener that does what `l` does, and notes down each offer. -/
def watched (place : Nat) (l : Listener σ) : Listener (σ × List Offer) where
  override? callback := some fun payload (s, offers) =>
    let event := Invocation.event ⟨callback, payload⟩
    match l.deliver event s with
    | .ok _ s' => .ok () (s', offers ++ [⟨place, event, none⟩])
    | .error reason s' => .error reason (s', offers ++ [⟨place, event, some reason⟩])

/-- Every event enters a watched listener as it is, notes and collections too. -/
theorem deliver_watched (place : Nat) (l : Listener σ) (event : Event) (s : σ)
    (offers : List Offer) :
    (l.watched place).deliver event (s, offers) =
      match l.deliver event s with
      | .ok _ s' => .ok () (s', offers ++ [⟨place, event, none⟩])
      | .error reason s' => .error reason (s', offers ++ [⟨place, event, some reason⟩]) := by
  have hevent : Invocation.event ⟨event.entry.callback, event.entry.payload⟩ = event :=
    event.event_entry
  have hdeliver : (l.watched place).deliver event = _ := deliver_of_override rfl
  simp only [hdeliver, hevent]

/-- A recorder takes every event and records it unchanged, whichever way the event is routed. -/
theorem deliver_recorder (record : Event → σ → σ) (event : Event) :
    (recorder record).deliver event = modify (record event) := by
  cases event with
  | note n =>
    -- A note arrives through the callback for all notes, whatever kind of note it is.
    rcases n.entry_cases with h | h | h <;> rw [deliver, visitNote, h] <;> rfl
  | _ => rfl

end Listener

/-! ### What a rejection says -/

/-- The names of the kinds of events. -/
inductive Event.Named : Event → String → Prop
  | note (n : NoteEvent) : Named (.note n) "note"
  | noteCollection (notes : List NoteEvent) : Named (.noteCollection notes) "note collection"
  | tempo (bpm : Integer) : Named (.tempo bpm) "tempo"
  | keySignature (root : Byte) (scale : Scale) (accidentals : Int) :
    Named (.keySignature root scale accidentals) "key signature"
  | controller (v : Byte) (index value : Integer) (messages : List (Byte × Byte)) :
    Named (.controller v index value messages) "controller"
  | instrument (v program : Byte) : Named (.instrument v program) "instrument"
  | voice (v : Byte) : Named (.voice v) "voice"
  | layer (l : Byte) : Named (.layer l) "layer"
  | measure : Named .measure "measure"
  | time (t : Long) : Named (.time t) "time"
  | systemExclusive (bytes : List Byte) : Named (.systemExclusive bytes) "system exclusive"
  | pitchBend (v : Byte) (value : Integer) (lsb msb : Byte) :
    Named (.pitchBend v value lsb msb) "pitch bend"
  | channelPressure (v pressure : Byte) : Named (.channelPressure v pressure) "channel pressure"
  | polyphonicPressure (v key pressure : Byte) :
    Named (.polyphonicPressure v key pressure) "polyphonic pressure"
  | comment (text : String) : Named (.comment text) "comment"
  | property (key value : String) : Named (.property key value) "property"
  | define (name : String) (entry : Entry) : Named (.define name entry) "dictionary add"

theorem Event.named_iff {event : Event} {name : String} :
    event.Named name ↔ name = event.kind := by
  constructor
  · rintro ⟨⟩ <;> rfl
  · rintro rfl
    cases event <;> constructor

/-- A rejection names the listener by `#` and the digits of its number. -/
theorem message_rejected (id : ListenerId) (kind reason : String) :
    (Cause.rejected id kind reason).message =
      "listener #" ++ toString id.number ++ " rejected " ++ kind ++ " event: " ++ reason := by
  have htext : id.text = "#" ++ toString id.number := rfl
  simp only [Cause.message, htext]
  rfl

namespace Environment

variable {σ : Type}

/-- Listeners from a place on, each of them watched. -/
def watchFrom (place : Nat) :
    List (ListenerId × Listener σ) → List (ListenerId × Listener (σ × List Offer))
  | [] => []
  | (id, l) :: rest => (id, l.watched place) :: watchFrom (place + 1) rest

/-- The environment with all listeners watched, after the given offers. -/
def watched (env : Environment σ) (offers : List Offer) : Environment (σ × List Offer) where
  base := env.base
  dictionary := env.dictionary
  initial := env.initial
  defaults := env.defaults
  listeners := watchFrom 0 env.listeners
  nextId := env.nextId
  state := (env.state, offers)

theorem watched_apply (env : Environment σ) (event : Event) (offers : List Offer) :
    (env.watched offers).apply event = (env.apply event).watched offers := by
  cases event <;> rfl

theorem mem_watchFrom {place : Nat} {listeners : List (ListenerId × Listener σ)}
    {entry : ListenerId × Listener (σ × List Offer)} (h : entry ∈ watchFrom place listeners) :
    ∃ (j : Nat) (id : ListenerId) (l : Listener σ), listeners[j]? = some (id, l) ∧
      entry.2 = l.watched (place + j) := by
  induction listeners generalizing place with
  | nil => cases h
  | cons first rest ih =>
    rcases List.mem_cons.1 h with rfl | h
    · exact ⟨0, first.1, first.2, rfl, rfl⟩
    · obtain ⟨j, id, l, hl, hentry⟩ := ih h
      refine ⟨j + 1, id, l, hl, ?_⟩
      rw [hentry, Nat.add_assoc, Nat.add_comm 1]

/-! ### Offers in order -/

/-- All listeners from a place on are offered an event, or those up to the first that rejects it. -/
theorem offer_watchFrom (event : Event) (position place : Nat)
    (listeners : List (ListenerId × Listener σ)) (s : σ) (offers : List Offer) :
    (∃ s', offer event position listeners s = .ok () s' ∧
      offer event position (watchFrom place listeners) (s, offers) =
        .ok () (s', offers ++ Offer.taken event place listeners.length)) ∨
    ∃ j id l reason s', listeners[j]? = some (id, l) ∧
      offer event position listeners s = .error ⟨.rejected id event.kind reason, position⟩ s' ∧
      offer event position (watchFrom place listeners) (s, offers) =
        .error ⟨.rejected id event.kind reason, position⟩
          (s', offers ++ Offer.taken event place j ++ [⟨place + j, event, some reason⟩]) := by
  induction listeners generalizing place s offers with
  | nil => exact .inl ⟨s, rfl, by rw [List.length_nil, Offer.taken_zero, List.append_nil]; rfl⟩
  | cons entry rest ih =>
    obtain ⟨id, l⟩ := entry
    simp only [watchFrom, offer, Listener.deliver_watched]
    cases hl : l.deliver event s with
    | error reason s' =>
      exact .inr ⟨0, id, l, reason, s', rfl, rfl, by simp [Offer.taken_zero]⟩
    | ok _ s' =>
      -- The first listener has taken the event, and the others follow.
      rcases ih (place + 1) s' (offers ++ [⟨place, event, none⟩]) with
        ⟨s'', hoffer, hwatched⟩ | ⟨j, id', l', reason, s'', hl', hoffer, hwatched⟩
      · refine .inl ⟨s'', hoffer, ?_⟩
        simp only [hwatched, List.length_cons, Offer.taken_succ, List.append_assoc,
          List.singleton_append]
      · refine .inr ⟨j + 1, id', l', reason, s'', hl', hoffer, ?_⟩
        simp only [hwatched, Offer.taken_succ, List.append_assoc, List.cons_append,
          List.nil_append, Nat.add_assoc, Nat.add_comm 1]

theorem finalState_offer (event : Event) (position : Nat)
    (listeners : List (ListenerId × Listener σ)) (s : σ) :
    finalState (offer event position listeners) s = finalState (offer event 0 listeners) s := by
  rcases offer_cases event position listeners s with h | ⟨id, reason, h⟩ <;>
    rw [finalState, h]

/-- Firing while the listeners are watched: what it does otherwise, and the offers it makes. -/
theorem fire_watched (element : Element) (position : Nat) (env : Environment σ)
    (offers : List Offer) :
    (∃ e, env.evaluate element = .error e ∧
      fire element position env = .error (.evaluation e position) env ∧
      fire element position (env.watched offers) =
        .error (.evaluation e position) (env.watched offers)) ∨
    ∃ event, env.evaluate element = .ok event ∧
      ((fire element position env = .ok event (env.receive event) ∧
        fire element position (env.watched offers) = .ok event ((env.receive event).watched
          (offers ++ Offer.taken event 0 env.listeners.length))) ∨
      ∃ j id l reason, env.listeners[j]? = some (id, l) ∧
        fire element position env =
          .error ⟨.rejected id event.kind reason, position⟩ (env.receive event) ∧
        fire element position (env.watched offers) =
          .error ⟨.rejected id event.kind reason, position⟩ ((env.receive event).watched
            (offers ++ Offer.taken event 0 j ++ [⟨j, event, some reason⟩]))) := by
  have hevaluate : (env.watched offers).evaluate element = env.evaluate element := rfl
  cases heval : env.evaluate element with
  | error e =>
    refine .inl ⟨e, rfl, ?_, ?_⟩
    · simp [fire, heval]
    · simp [fire, hevaluate, heval]
  | ok event =>
    refine .inr ⟨event, rfl, ?_⟩
    have hlisteners : ((env.apply event).watched offers).listeners = watchFrom 0 env.listeners := by
      rw [watched, listeners_apply]
    have hstate : ((env.apply event).watched offers).state = (env.state, offers) := by
      rw [watched, state_apply]
    rcases offer_watchFrom event position 0 env.listeners env.state offers with
      ⟨s', hoffer, hwatched⟩ | ⟨j, id, l, reason, s', hl, hoffer, hwatched⟩
    · have hs' : finalState (offer event 0 env.listeners) env.state = s' := by
        rw [← finalState_offer event position, finalState, hoffer]
      refine .inl ⟨?_, ?_⟩
      · simp [fire, heval, hoffer, receive, hs']
      · simp only [fire, hevaluate, heval, watched_apply, hlisteners, hstate, hwatched]
        simp [watched, receive, hs']
    · have hs' : finalState (offer event 0 env.listeners) env.state = s' := by
        rw [← finalState_offer event position, finalState, hoffer]
      rw [Nat.zero_add] at hwatched
      refine .inr ⟨j, id, l, reason, hl, ?_, ?_⟩
      · simp [fire, heval, hoffer, receive, hs']
      · simp only [fire, hevaluate, heval, watched_apply, hlisteners, hstate, hwatched]
        simp [watched, receive, hs']

/-! ### What listeners keep -/

section Keeps

variable {p : σ → Prop}

theorem keeps_offer {event : Event} {position : Nat} {listeners : List (ListenerId × Listener σ)}
    (h : ∀ entry ∈ listeners, ∀ s, p s → p (finalState (entry.2.deliver event) s)) {s : σ}
    (hs : p s) : p (finalState (offer event position listeners) s) := by
  induction listeners generalizing s with
  | nil => exact hs
  | cons entry rest ih =>
    obtain ⟨hentry, hrest⟩ := List.forall_mem_cons.1 h
    have hdeliver := hentry s hs
    unfold finalState at hdeliver ⊢
    unfold offer
    cases hl : entry.2.deliver event s with
    | ok _ s' =>
      rw [hl] at hdeliver
      exact ih hrest hdeliver
    | error reason s' =>
      rw [hl] at hdeliver
      exact hdeliver

/-- What each listener keeps of the state that they share holds after any events. -/
theorem keeps_receiveAll {env : Environment σ}
    (h : ∀ entry ∈ env.listeners, ∀ event s, p s → p (finalState (entry.2.deliver event) s))
    (events : List Event) (hs : p env.state) : p (env.receiveAll events).state := by
  induction events generalizing env with
  | nil => exact hs
  | cons event later ih =>
    rw [receiveAll_cons]
    refine ih ?_ (keeps_offer (fun entry hentry => h entry hentry event) hs)
    rwa [listeners_receive]

end Keeps

/-! ### Logs -/

/--
The listener in the given place records all events in a log, at the end of what is there, and no
other listener changes this log.
-/
structure LogsAt (env : Environment σ) (place : Nat) (log : σ → List Event) : Prop where
  records : ∃ id record, env.listeners[place]? = some (id, .recorder record) ∧
    ∀ event s, log (record event s) = log s ++ [event]
  others : ∀ j id l, j ≠ place → env.listeners[j]? = some (id, l) →
    ∀ event s, log (finalState (l.deliver event) s) = log s

theorem eventsTo_append (place : Nat) (offers later : List Offer) :
    Offer.eventsTo place (offers ++ later) =
      Offer.eventsTo place offers ++ Offer.eventsTo place later := by
  simp [Offer.eventsTo]

/-- A log holds what it held before, and the events that its listener was offered since. -/
theorem LogsAt.log_watched {env : Environment σ} {place : Nat} {log : σ → List Event}
    (h : env.LogsAt place log) (events : List Event) :
    log ((env.watched []).receiveAll events).state.1 =
      log env.state ++ Offer.eventsTo place ((env.watched []).receiveAll events).state.2 := by
  refine keeps_receiveAll
    (p := fun s : σ × List Offer => log s.1 = log env.state ++ Offer.eventsTo place s.2)
    (fun entry hentry event s hs => ?_) events (List.append_nil _).symm
  obtain ⟨j, id, l, hl, hentry⟩ := mem_watchFrom hentry
  rw [Nat.zero_add] at hentry
  -- One more offer: the log grows if it is made to the recorder, and is left alone otherwise.
  have hlog : log (finalState (l.deliver event) s.1) =
      log s.1 ++ if j = place then [event] else [] := by
    by_cases hj : j = place
    · obtain ⟨id', record, hrecorder, hrecord⟩ := h.records
      rw [hj, hrecorder] at hl
      cases hl
      rw [if_pos hj, Listener.deliver_recorder]
      exact hrecord event s.1
    · rw [if_neg hj, List.append_nil]
      exact h.others j id l hj hl event s.1
  have hoffered (rejection : Option String) :
      Offer.eventsTo place [⟨j, event, rejection⟩] = if j = place then [event] else [] := by
    by_cases hj : j = place <;> simp [Offer.eventsTo, hj]
  rw [hentry]
  unfold finalState at hlog ⊢
  rw [Listener.deliver_watched]
  cases hdeliver : l.deliver event s.1 <;> rw [hdeliver] at hlog <;>
    simp only [hlog, hs, eventsTo_append, hoffered, List.append_assoc]

end Environment

end MusicString

import MusicString.Proofs.Element.Evaluate
import MusicString.Proofs.Pattern.Firing

/-!
# Replaying events

All that firing elements and reading patterns leaves of an environment can be told from the events
that came of it, also those that a listener rejected: the last event of each kind gives the current
tempo, voice, layer and time, and the definitions among the events make up the dictionary.  Every
event that belongs to a voice or a layer carries the one that was current before it.

* `Effect`, `Environment.Call`: what calls on an environment do, whether they succeed or fail;
* `latest`: what the last event of a kind tells;
* `Event.Stamped`, `Environment.stamped_of_evaluate`;
* `Environment.Call.replay`: the state after calls, and the stamps of their events.
-/

namespace MusicString

/-! ### Effects -/

/-- What is done to an environment: how it is left, and the events that come of it. -/
structure Effect (σ : Type) where
  after : Environment σ → Environment σ
  events : Environment σ → List Event

namespace Effect

variable {σ : Type}

/-- One effect, then another. -/
def andThen (first second : Effect σ) : Effect σ where
  after env := second.after (first.after env)
  events env := first.events env ++ second.events (first.after env)

theorem after_andThen (first second : Effect σ) (env : Environment σ) :
    (first.andThen second).after env = second.after (first.after env) := rfl

theorem events_andThen (first second : Effect σ) (env : Environment σ) :
    (first.andThen second).events env = first.events env ++ second.events (first.after env) := rfl

/-- Effects in order. -/
def inOrder (effects : List (Effect σ)) : Effect σ :=
  effects.foldr andThen ⟨id, fun _ => []⟩

/-- What holds of each effect, and of one effect after another, holds of effects in order. -/
theorem inOrder_induction {p : Effect σ → Prop} {effects : List (Effect σ)}
    (hnone : p ⟨id, fun _ => []⟩)
    (hthen : ∀ first second, p first → p second → p (first.andThen second))
    (h : ∀ effect ∈ effects, p effect) : p (inOrder effects) := by
  induction effects with
  | nil => exact hnone
  | cons effect rest ih =>
    obtain ⟨heffect, hrest⟩ := List.forall_mem_cons.1 h
    exact hthen effect _ heffect (ih hrest)

/-- An effect that consists in the events that the environment receives. -/
def Replays (effect : Effect σ) : Prop :=
  ∀ env, effect.after env = env.receiveAll (effect.events env) ∧ env.Yields (effect.events env)

theorem Replays.andThen {first second : Effect σ} (hfirst : first.Replays)
    (hsecond : second.Replays) : (first.andThen second).Replays := by
  intro env
  obtain ⟨hafter, hyields⟩ := hfirst env
  obtain ⟨hafter', hyields'⟩ := hsecond (first.after env)
  rw [hafter] at hafter' hyields'
  rw [after_andThen, events_andThen, hafter, Environment.receiveAll_append]
  exact ⟨hafter', Environment.yields_append.2 ⟨hyields, hyields'⟩⟩

end Effect

/-- A call on an environment: an element is fired, or a pattern is read without a reset. -/
inductive Environment.Call
  | fire (element : Element) (position : Nat)
  | fragment (text : String)

namespace Environment.Call

variable {σ : Type}

/-- What a call does, whether it succeeds or fails. -/
def effect : Call → Effect σ
  | fire element position => ⟨finalState (Environment.fire element position), (·.fired element)⟩
  | fragment text => ⟨finalState (Pattern.parseFragment text), Pattern.fired text⟩

theorem replays_effect (call : Call) : (call.effect : Effect σ).Replays := by
  intro env
  cases call with
  | fire element position =>
    exact ⟨Environment.finalState_fire element position env, Environment.yields_fired env element⟩
  | fragment text =>
    exact ⟨Pattern.finalState_fireUpTo _ _ env, Pattern.yields_firedUpTo _ _ env⟩

end Environment.Call

/-! ### The last event of a kind -/

namespace Event

/-- The tempo that an event sets. -/
def tempo? : Event → Option Integer
  | tempo bpm => some bpm
  | _ => none

/-- The voice that an event sets. -/
def voice? : Event → Option Byte
  | voice v => some v
  | _ => none

/-- The layer that an event sets. -/
def layer? : Event → Option Byte
  | layer l => some l
  | _ => none

/-- The time that an event sets. -/
def time? : Event → Option Long
  | time t => some t
  | _ => none

/-- The name that an event defines, with its entry. -/
def definition? : Event → Option (String × Entry)
  | define name entry => some (name, entry)
  | _ => none

end Event

/-- What the last event of a kind tells, or the start if there is none. -/
def latest {α : Type} (told : Event → Option α) (start : α) (events : List Event) : α :=
  (events.filterMap told).getLast?.getD start

theorem latest_nil {α : Type} (told : Event → Option α) (start : α) :
    latest told start [] = start := rfl

theorem latest_cons {α : Type} (told : Event → Option α) (start : α) (event : Event)
    (events : List Event) :
    latest told start (event :: events) = latest told ((told event).getD start) events := by
  unfold latest
  cases htold : told event with
  | none => simp [htold]
  | some a => simp [htold, List.getLast?_cons]

/-- The defaults after events: the last ones of four kinds count, and the rest stays. -/
def Defaults.after (defaults : Defaults) (events : List Event) : Defaults :=
  { defaults with
    tempo := latest Event.tempo? defaults.tempo events
    voice := latest Event.voice? defaults.voice events
    layer := latest Event.layer? defaults.layer events
    time := latest Event.time? defaults.time events }

namespace Environment

variable {σ : Type}

theorem defaults_apply (env : Environment σ) (event : Event) :
    (env.apply event).defaults = env.defaults.after [event] := by
  cases event <;> rfl

theorem dictionary_apply (env : Environment σ) (event : Event) :
    (env.apply event).dictionary = env.dictionary.insertAll event.definition?.toList := by
  cases event <;> rfl

theorem defaults_receiveAll (env : Environment σ) (events : List Event) :
    (env.receiveAll events).defaults = env.defaults.after events := by
  induction events generalizing env with
  | nil => rfl
  | cons event later ih =>
    rw [receiveAll_cons, ih, defaults_receive, defaults_apply]
    simp only [Defaults.after, latest_cons, latest_nil]

theorem dictionary_receiveAll (env : Environment σ) (events : List Event) :
    (env.receiveAll events).dictionary =
      env.dictionary.insertAll (events.filterMap Event.definition?) := by
  induction events generalizing env with
  | nil => rfl
  | cons event later ih =>
    rw [receiveAll_cons, ih, dictionary_receive, dictionary_apply]
    cases hdef : event.definition? with
    | none => rw [List.filterMap_cons_none hdef]; rfl
    | some binding => rw [List.filterMap_cons_some hdef]; rfl

theorem unchanged_receiveAll (env : Environment σ) (events : List Event) :
    (env.receiveAll events).base = env.base ∧ (env.receiveAll events).initial = env.initial ∧
      (env.receiveAll events).listeners = env.listeners := by
  induction events generalizing env with
  | nil => exact ⟨rfl, rfl, rfl⟩
  | cons event later ih => simpa using ih (env.receive event)

end Environment

/-! ### Stamps -/

/-- An event that carries the given voice and layer, as far as it carries any. -/
def Event.Stamped (voice layer : Byte) : Event → Prop
  | note n => n.voice = voice ∧ n.layer = layer
  | noteCollection notes => ∀ n ∈ notes, n.voice = voice ∧ n.layer = layer
  | controller v .. => v = voice
  | instrument v _ => v = voice
  | pitchBend v .. => v = voice
  | channelPressure v _ => v = voice
  | polyphonicPressure v .. => v = voice
  | _ => True

/-- An element is evaluated for the current voice and layer. -/
theorem Element.Evaluates.stamped {element : Element} {d : Dictionary} {defaults : Defaults}
    {event : Event} (h : element.Evaluates d defaults event) :
    event.Stamped defaults.voice defaults.layer := by
  cases h with
  | note hnote => exact ⟨hnote.voice, hnote.layer⟩
  | noteCollection hnotes =>
    intro event hmem
    obtain ⟨n, -, hnote⟩ := hnotes event hmem
    exact ⟨hnote.voice, hnote.layer⟩
  | controller | instrument | pitchBend | channelPressure | polyphonicPressure => rfl
  | _ => trivial

namespace Environment

variable {σ : Type}

/-- Each of the events that follow from one another carries the voice and layer before it. -/
theorem Yields.stamped {env : Environment σ} {before later : List Event} {event : Event}
    (h : env.Yields (before ++ event :: later)) :
    event.Stamped (latest Event.voice? env.defaults.voice before)
      (latest Event.layer? env.defaults.layer before) := by
  -- The element was evaluated with the defaults that the events before it have left.
  obtain ⟨-, ⟨element, heval⟩, -⟩ := yields_append.1 h
  have hstamped := (Element.evaluate_eq_ok heval).stamped
  rwa [defaults_receiveAll] at hstamped

end Environment

namespace Environment.Call

variable {σ : Type}

/--
**The state after calls** is told by their events, the last definition of a name and the last event
of each kind being the ones that count.  The events are stamped with the voice and layer before
them.  What fails to be evaluated or read changes nothing.
-/
theorem replay (calls : List Call) (env : Environment σ) :
    let effect : Effect σ := .inOrder (calls.map effect)
    let events := effect.events env
    let final := effect.after env
    final = env.receiveAll events ∧
      final.dictionary = env.dictionary.insertAll (events.filterMap Event.definition?) ∧
      (∀ name, final.dictionary.get? name =
        (((events.filterMap Event.definition?).reverse.find? (·.1 = name)).map (·.2)).or
          (env.dictionary.get? name)) ∧
      final.defaults =
        { env.defaults with
          tempo := latest Event.tempo? env.defaults.tempo events
          voice := latest Event.voice? env.defaults.voice events
          layer := latest Event.layer? env.defaults.layer events
          time := latest Event.time? env.defaults.time events } ∧
      final.base = env.base ∧ final.initial = env.initial ∧
      final.listenerIds = env.listenerIds ∧
      (∀ before event later, events = before ++ event :: later →
        event.Stamped (latest Event.voice? env.defaults.voice before)
          (latest Event.layer? env.defaults.layer before)) ∧
      (∀ element position e, final.evaluate element = .error e →
        finalState (Environment.fire element position) final = final) ∧
      (∀ n c e c', Pattern.nextToken final.dictionary c = .error e c' →
        finalState (Pattern.fireUpTo n c) final = final) := by
  intro effect events final
  have hreplays : effect.Replays := by
    refine Effect.inOrder_induction (fun env => ⟨rfl, trivial⟩)
      (fun first second hfirst hsecond => hfirst.andThen hsecond) fun e he => ?_
    obtain ⟨call, -, rfl⟩ := List.mem_map.1 he
    exact call.replays_effect
  obtain ⟨hfinal, hyields⟩ := hreplays env
  change final = env.receiveAll events at hfinal
  change env.Yields events at hyields
  obtain ⟨hbase, hinitial, hlisteners⟩ := env.unchanged_receiveAll events
  have hdictionary := env.dictionary_receiveAll events
  have hids : (env.receiveAll events).listenerIds = env.listenerIds := by
    rw [listenerIds, hlisteners, listenerIds]
  rw [← hfinal] at hdictionary hbase hinitial hids
  refine ⟨hfinal, hdictionary, ?_, ?_, hbase, hinitial, hids, ?_, ?_, ?_⟩
  · intro name
    rw [hdictionary]
    exact NameMap.get?_insertAll env.dictionary _ name
  · rw [hfinal]
    exact env.defaults_receiveAll events
  · intro before event later hevents
    rw [hevents] at hyields
    exact hyields.stamped
  · intro element position e heval
    rw [finalState_fire, fired_of_error heval, receiveAll_nil]
  · intro n c e c' hnext
    cases n with
    | zero => rfl
    | succ n => rw [finalState, Pattern.fireUpTo_succ, hnext]

end Environment.Call

end MusicString

import MusicString.Proofs.Environment.Replay
import MusicString.Proofs.Event.WellFormed

/-!
# Operations on environments

Whatever is done with an environment whose defaults are in range, they stay in range, and all events
that come of it are well formed.  Only the tempo, the voice, the layer and the time of the defaults
ever change, and an event has passed its checks before it sets any of them.

* `Environment.InRange`, `Environment.Yields.inRange`;
* `Environment.Operation`: all that can be done with an environment;
* `Environment.Operation.wellFormed_inOrder`: the events of any operations are well formed.
-/

namespace MusicString

namespace Environment

variable {σ : Type}

/-- Defaults in range, both the current ones and those of later patterns. -/
def InRange (env : Environment σ) : Prop :=
  env.initial.InRange ∧ env.defaults.InRange

/-- A well-formed event leaves the defaults in range. -/
theorem InRange.receive {env : Environment σ} (h : env.InRange) {event : Event}
    (hevent : event.WellFormed) : (env.receive event).InRange := by
  obtain ⟨hinitial, hattack, hdecay, hvoice, hlayer⟩ := h
  refine ⟨by rwa [initial_receive], ?_⟩
  rw [defaults_receive]
  cases event with
  | voice v => exact ⟨hattack, hdecay, hevent, hlayer⟩
  | layer l => exact ⟨hattack, hdecay, hvoice, hevent⟩
  | _ => exact ⟨hattack, hdecay, hvoice, hlayer⟩

/-- Events that follow from one another are well formed and leave the defaults in range. -/
theorem Yields.inRange {env : Environment σ} {events : List Event} (hyields : env.Yields events)
    (h : env.InRange) :
    (env.receiveAll events).InRange ∧ ∀ event ∈ events, event.WellFormed := by
  induction events generalizing env with
  | nil => exact ⟨h, fun event hmem => absurd hmem List.not_mem_nil⟩
  | cons event later ih =>
    obtain ⟨⟨element, heval⟩, hlater⟩ := hyields
    have hevent : event.WellFormed := (Element.evaluate_eq_ok heval).wellFormed h.2
    obtain ⟨hafter, hevents⟩ := ih hlater (h.receive hevent)
    exact ⟨hafter, List.forall_mem_cons.2 ⟨hevent, hevents⟩⟩

end Environment

/-- An effect that keeps the defaults in range and gives well-formed events only. -/
def Effect.Sound {σ : Type} (effect : Effect σ) : Prop :=
  ∀ env, env.InRange →
    (effect.after env).InRange ∧ ∀ event ∈ effect.events env, event.WellFormed

namespace Effect

variable {σ : Type}

theorem Sound.andThen {first second : Effect σ} (hfirst : first.Sound) (hsecond : second.Sound) :
    (first.andThen second).Sound := by
  intro env h
  obtain ⟨hafter, hevents⟩ := hfirst env h
  obtain ⟨hafter', hevents'⟩ := hsecond (first.after env) hafter
  refine ⟨hafter', fun event hmem => ?_⟩
  rw [events_andThen] at hmem
  exact (List.mem_append.1 hmem).elim (hevents event) (hevents' event)

theorem Replays.sound {effect : Effect σ} (h : effect.Replays) : effect.Sound := by
  intro env hrange
  obtain ⟨hafter, hyields⟩ := h env
  rw [hafter]
  exact hyields.inRange hrange

/-- A change that gives no events. -/
def silent (change : Environment σ → Environment σ) : Effect σ :=
  ⟨change, fun _ => []⟩

theorem sound_silent {change : Environment σ → Environment σ}
    (h : ∀ env, env.InRange → (change env).InRange) : (silent change).Sound :=
  fun env hrange => ⟨h env hrange, fun _ hmem => absurd hmem List.not_mem_nil⟩

end Effect

namespace Environment

/-- What can be done with an environment. -/
inductive Operation (σ : Type)
  /-- Fires an element, or reads a pattern without a reset. -/
  | call (call : Call)
  /-- Reads a pattern after a reset. -/
  | parse (text : String)
  | define (name : String) (entry : Entry)
  | reset
  | addListener (l : Listener σ)
  | removeListener (id : ListenerId)
  | clearListeners

namespace Operation

variable {σ : Type}

/-- What an operation does, whether it succeeds or fails. -/
def effect : Operation σ → Effect σ
  | call c => c.effect
  | parse text => ⟨finalState (Pattern.parse text), fun env => Pattern.fired text env.reset⟩
  | define name entry => .silent (·.define name entry)
  | reset => .silent (·.reset)
  | addListener l => .silent fun env => (env.addListener l).2
  | removeListener id => .silent fun env => (env.removeListener id).2
  | clearListeners => .silent (·.clearListeners)

/-- Reading a pattern is a reset and then reading it as a fragment. -/
theorem effect_parse (text : String) :
    (parse text : Operation σ).effect = reset.effect.andThen (Call.fragment text).effect := rfl

theorem sound_effect (op : Operation σ) : op.effect.Sound := by
  have hreset : (reset : Operation σ).effect.Sound :=
    Effect.sound_silent fun env h => ⟨h.1, h.1⟩
  cases op with
  | call c => exact c.replays_effect.sound
  | parse text =>
    rw [effect_parse]
    exact hreset.andThen (Call.replays_effect _).sound
  | reset => exact hreset
  | _ => exact Effect.sound_silent fun env h => h

/-- **Well-formed events.**  All events of operations are well formed if the defaults are in range. -/
theorem wellFormed_inOrder (ops : List (Operation σ)) {env : Environment σ} (h : env.InRange) :
    ((Effect.inOrder (ops.map effect)).after env).InRange ∧
      ∀ event ∈ (Effect.inOrder (ops.map effect)).events env, event.WellFormed := by
  have hsound : (Effect.inOrder (ops.map effect)).Sound := by
    refine Effect.inOrder_induction (fun env h => ⟨h, fun _ hmem => absurd hmem List.not_mem_nil⟩)
      (fun first second hfirst hsecond => hfirst.andThen hsecond) fun e he => ?_
    obtain ⟨op, -, rfl⟩ := List.mem_map.1 he
    exact op.sound_effect
  exact hsound env h

theorem wellFormed_inOrder_voice :
    (ofDictionary .empty () : Environment Unit).InRange ∧
      Event.voice (.nearest 3) ∈ (Effect.inOrder (List.map effect
        [.define "Solo" ⟨.byte (.nearest 3), .voice⟩,
          .call (.fire (.voice (.reference "Solo")) 0)])).events
        (ofDictionary .empty () : Environment Unit) ∧
      (Event.voice (.nearest 3)).WellFormed := by
  have hrange : (ofDictionary .empty () : Environment Unit).InRange :=
    ⟨⟨by decide, by decide, by decide, by decide⟩, ⟨by decide, by decide, by decide, by decide⟩⟩
  refine ⟨hrange, ?hmem, (wellFormed_inOrder _ hrange).2 _ ?hmem⟩
  exact List.mem_singleton.2 rfl

end Operation

end Environment

end MusicString

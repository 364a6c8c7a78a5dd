import MusicString.Proofs.Element.Names
import MusicString.Proofs.Environment.Replay

/-!
# Environments whose listeners take every event

Where no listener ever rejects an event, what comes of an element can be told from the dictionary
and the defaults: whatever the listeners are and whatever they have been told, they only listen.
Two environments of this kind that agree on some names stay in step as long as the same elements are
fired in both and these elements refer to no other names.

* `Environment.NeverRejects`, `Environment.fire_of_neverRejects`;
* `Environment.InStep`: two environments between which no element of the given names can tell;
* `Environment.inStep_fire`: firing an element keeps them in step.
-/

namespace MusicString

/-- What a computation returns or fails with, whatever state it leaves. -/
def outcome {ε σ α : Type} (x : EStateM ε σ α) (s : σ) : Except ε α :=
  match x s with
  | .ok a _ => .ok a
  | .error e _ => .error e

section

variable {ε σ α : Type} {x : EStateM ε σ α} {s : σ}

theorem outcome_of_ok {a : α} {s' : σ} (h : x s = .ok a s') : outcome x s = .ok a := by
  rw [outcome, h]

theorem eq_of_outcome_eq_ok {a : α} (h : outcome x s = .ok a) : x s = .ok a (finalState x s) := by
  cases hx : x s with
  | ok b s' =>
    rw [outcome_of_ok hx] at h
    cases h
    rw [finalState_of_ok hx]
  | error e s' =>
    rw [outcome, hx] at h
    cases h

theorem eq_of_outcome_eq_error {e : ε} (h : outcome x s = .error e) :
    x s = .error e (finalState x s) := by
  cases hx : x s with
  | ok a s' =>
    rw [outcome, hx] at h
    cases h
  | error e' s' =>
    rw [outcome, hx] at h
    cases h
    rw [finalState_of_error hx]

end

namespace Environment

variable {σ τ : Type} {env : Environment σ}

/-- The listeners take every event, whatever events they have been offered before. -/
def NeverRejects (env : Environment σ) : Prop :=
  ∀ (earlier : List Event) (event : Event) (position : Nat),
    ∃ s, offer event position env.listeners (env.receiveAll earlier).state = .ok () s

/-- What listeners make of events depends on the listeners and on their state. -/
theorem state_receiveAll_congr {other : Environment σ}
    (hlisteners : env.listeners = other.listeners) (hstate : env.state = other.state)
    (events : List Event) :
    (env.receiveAll events).state = (other.receiveAll events).state := by
  induction events generalizing env other with
  | nil => exact hstate
  | cons event later ih =>
    refine ih (by rwa [listeners_receive, listeners_receive]) ?_
    show finalState (offer event 0 env.listeners) env.state =
      finalState (offer event 0 other.listeners) other.state
    rw [hlisteners, hstate]

namespace NeverRejects

theorem congr {other : Environment σ} (h : env.NeverRejects)
    (hlisteners : env.listeners = other.listeners) (hstate : env.state = other.state) :
    other.NeverRejects := by
  intro earlier event position
  rw [← hlisteners, ← state_receiveAll_congr hlisteners hstate]
  exact h earlier event position

theorem receiveAll (h : env.NeverRejects) (events : List Event) :
    (env.receiveAll events).NeverRejects := by
  intro earlier event position
  rw [← receiveAll_append, (env.unchanged_receiveAll events).2.2]
  exact h (events ++ earlier) event position

theorem receive (h : env.NeverRejects) (event : Event) : (env.receive event).NeverRejects :=
  h.receiveAll [event]

end NeverRejects

/-- Listeners that take every event in every state never reject one. -/
theorem neverRejects_of_listeners
    (h : ∀ entry ∈ env.listeners, ∀ event s, ∃ s', entry.2.deliver event s = .ok () s') :
    env.NeverRejects := by
  intro earlier event position
  generalize (env.receiveAll earlier).state = s
  generalize env.listeners = listeners at h
  induction listeners generalizing s with
  | nil => exact ⟨s, rfl⟩
  | cons entry rest ih =>
    obtain ⟨hentry, hrest⟩ := List.forall_mem_cons.1 h
    obtain ⟨s', hdeliver⟩ := hentry event s
    obtain ⟨s'', hoffer⟩ := ih s' hrest
    exact ⟨s'', by simp only [offer, hdeliver, hoffer]⟩

/-- Where no listener rejects, firing fails only if the element has no event. -/
theorem fire_of_neverRejects (h : env.NeverRejects) (element : Element) (position : Nat) :
    fire element position env =
      match env.evaluate element with
      | .error e => .error (.evaluation e position) env
      | .ok event => .ok event (env.receive event) := by
  rcases fire_cases element position env with
    ⟨e, heval, hfire⟩ | ⟨event, heval, hfire | ⟨id, reason, hfire⟩⟩
  · rw [heval, hfire]
  · rw [heval, hfire]
  · obtain ⟨s, hoffer⟩ := h [] event position
    have hlisteners : offer event position (env.apply event).listeners (env.apply event).state =
        .ok () s := by
      rwa [listeners_apply, state_apply]
    simp only [fire, heval, hlisteners] at hfire
    cases hfire

/-! ### Two environments in step -/

/--
Two environments between which no element that refers to the given names can tell: they agree on
these names and have the same defaults, and their listeners only listen.
-/
structure InStep (names : Set String) (env : Environment σ) (other : Environment τ) : Prop where
  dictionary : Dictionary.AgreeOn names env.dictionary other.dictionary
  defaults : env.defaults = other.defaults
  left : env.NeverRejects
  right : other.NeverRejects

variable {names : Set String} {other : Environment τ}

theorem InStep.evaluate_eq (h : InStep names env other) {element : Element}
    (he : element.RefersTo names) : env.evaluate element = other.evaluate element := by
  rw [evaluate, evaluate, ← h.defaults]
  exact Element.evaluate_congr h.dictionary he env.defaults

/-- An event has the same effect on both. -/
theorem InStep.receive (h : InStep names env other) (event : Event) :
    InStep names (env.receive event) (other.receive event) where
  dictionary := by
    rw [dictionary_receive, dictionary_receive, dictionary_apply, dictionary_apply]
    exact h.dictionary.insertAll _
  defaults := by
    rw [defaults_receive, defaults_receive, defaults_apply, defaults_apply, h.defaults]
  left := h.left.receive event
  right := h.right.receive event

/-- Runs that return the same or fail alike, and leave environments that are in step. -/
inductive RunsInStep {α : Type} (names : Set String) :
    EStateM.Result ParseError (Environment σ) α → EStateM.Result ParseError (Environment τ) α → Prop
  | ok {a : α} {env : Environment σ} {other : Environment τ} :
    InStep names env other → RunsInStep names (.ok a env) (.ok a other)
  | error {e : ParseError} {env : Environment σ} {other : Environment τ} :
    InStep names env other → RunsInStep names (.error e env) (.error e other)

section

variable {α : Type} {run : Run σ α} {run' : Run τ α}

theorem RunsInStep.outcome_eq (h : RunsInStep names (run env) (run' other)) :
    outcome run env = outcome run' other := by
  unfold outcome
  generalize run env = x at h
  generalize run' other = y at h
  cases h with
  | ok _ => rfl
  | error _ => rfl

theorem RunsInStep.finalState (h : RunsInStep names (run env) (run' other)) :
    InStep names (MusicString.finalState run env) (MusicString.finalState run' other) := by
  unfold MusicString.finalState
  generalize run env = x at h
  generalize run' other = y at h
  cases h with
  | ok hstep => exact hstep
  | error hstep => exact hstep

end

/-- One element: it is fired in both with the same result. -/
theorem inStep_fire (h : InStep names env other) {element : Element} (he : element.RefersTo names)
    (position : Nat) :
    RunsInStep names (fire element position env) (fire element position other) := by
  rw [fire_of_neverRejects h.left, fire_of_neverRejects h.right, ← h.evaluate_eq he]
  cases env.evaluate element with
  | error e => exact .error h
  | ok event => exact .ok (h.receive event)

end Environment

end MusicString

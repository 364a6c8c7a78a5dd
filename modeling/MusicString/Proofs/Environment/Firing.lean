import MusicString.Environment

/-!
# What firing an element does

Firing an element either fails to evaluate it and changes nothing, or gives its event to the
environment, which *receives* it: it takes the effect of the event and offers it to its listeners,
up to the first that rejects it.

* `Environment.receive`, `Environment.receiveAll`;
* `Environment.fire_cases`: all that firing can do;
* `Environment.Yields`: events that follow from one another by evaluation, each in the environment
  that has received those before it.
-/

namespace MusicString

/-- The state that a computation leaves, whether it succeeds or fails. -/
def finalState {ε σ α : Type} (x : EStateM ε σ α) (s : σ) : σ :=
  match x s with
  | .ok _ s' => s'
  | .error _ s' => s'

theorem finalState_of_ok {ε σ α : Type} {x : EStateM ε σ α} {s s' : σ} {a : α}
    (h : x s = .ok a s') : finalState x s = s' := by
  rw [finalState, h]

theorem finalState_of_error {ε σ α : Type} {x : EStateM ε σ α} {s s' : σ} {e : ε}
    (h : x s = .error e s') : finalState x s = s' := by
  rw [finalState, h]

namespace Environment

variable {σ : Type}

/-- The environment after an event has taken effect and was offered to the listeners. -/
def receive (env : Environment σ) (event : Event) : Environment σ :=
  { env.apply event with state := finalState (offer event 0 env.listeners) env.state }

/-- The environment after events, in order. -/
def receiveAll (env : Environment σ) (events : List Event) : Environment σ :=
  events.foldl receive env

/-- The events that come of firing an element: one, if it can be evaluated. -/
def fired (env : Environment σ) (element : Element) : List Event :=
  (env.evaluate element).toOption.toList

theorem fired_of_ok {env : Environment σ} {element : Element} {event : Event}
    (h : env.evaluate element = .ok event) : env.fired element = [event] := by
  rw [fired, h]
  rfl

theorem fired_of_error {env : Environment σ} {element : Element} {e : EvalError}
    (h : env.evaluate element = .error e) : env.fired element = [] := by
  rw [fired, h]
  rfl

@[simp] theorem receiveAll_nil (env : Environment σ) : env.receiveAll [] = env := rfl

@[simp] theorem receiveAll_cons (env : Environment σ) (event : Event) (events : List Event) :
    env.receiveAll (event :: events) = (env.receive event).receiveAll events := rfl

theorem receiveAll_append (env : Environment σ) (events later : List Event) :
    env.receiveAll (events ++ later) = (env.receiveAll events).receiveAll later :=
  List.foldl_append

/-! ### What an event leaves alone -/

@[simp] theorem base_receive (env : Environment σ) (event : Event) :
    (env.receive event).base = env.base :=
  env.base_apply event

@[simp] theorem initial_receive (env : Environment σ) (event : Event) :
    (env.receive event).initial = env.initial :=
  env.initial_apply event

@[simp] theorem listeners_receive (env : Environment σ) (event : Event) :
    (env.receive event).listeners = env.listeners :=
  env.listeners_apply event

@[simp] theorem dictionary_receive (env : Environment σ) (event : Event) :
    (env.receive event).dictionary = (env.apply event).dictionary := rfl

@[simp] theorem defaults_receive (env : Environment σ) (event : Event) :
    (env.receive event).defaults = (env.apply event).defaults := rfl

/-! ### Firing -/

/-- The state that an offer leaves does not depend on the position of the token. -/
theorem offer_cases (event : Event) (position : Nat) (listeners : List (ListenerId × Listener σ))
    (s : σ) :
    offer event position listeners s = .ok () (finalState (offer event 0 listeners) s) ∨
      ∃ id reason, offer event position listeners s =
        .error ⟨.rejected id event.kind reason, position⟩
          (finalState (offer event 0 listeners) s) := by
  induction listeners generalizing s with
  | nil => exact .inl rfl
  | cons entry rest ih =>
    obtain ⟨id, l⟩ := entry
    unfold finalState offer
    cases hl : l.deliver event s with
    | ok _ s' =>
      simp only
      exact ih s'
    | error reason s' => exact .inr ⟨id, reason, rfl⟩

theorem fire_of_error {element : Element} {env : Environment σ} {e : EvalError}
    (h : env.evaluate element = .error e) (position : Nat) :
    fire element position env = .error (.evaluation e position) env := by
  unfold fire
  rw [h]

/-- Firing fails and changes nothing, or the event is received, and perhaps rejected. -/
theorem fire_cases (element : Element) (position : Nat) (env : Environment σ) :
    (∃ e, env.evaluate element = .error e ∧
      fire element position env = .error (.evaluation e position) env) ∨
    ∃ event, env.evaluate element = .ok event ∧
      (fire element position env = .ok event (env.receive event) ∨
        ∃ id reason, fire element position env =
          .error ⟨.rejected id event.kind reason, position⟩ (env.receive event)) := by
  cases heval : env.evaluate element with
  | error e => exact .inl ⟨e, rfl, fire_of_error heval position⟩
  | ok event =>
    refine .inr ⟨event, rfl, ?_⟩
    rcases offer_cases event position env.listeners env.state with hoffer | ⟨id, reason, hoffer⟩
    · left
      simp [fire, heval, hoffer, receive]
    · right
      exact ⟨id, reason, by simp [fire, heval, hoffer, receive]⟩

theorem finalState_fire (element : Element) (position : Nat) (env : Environment σ) :
    finalState (fire element position) env = env.receiveAll (env.fired element) := by
  rcases fire_cases element position env with
    ⟨e, heval, hfire⟩ | ⟨event, heval, hfire | ⟨id, reason, hfire⟩⟩
  · simp [finalState, hfire, fired_of_error heval]
  · simp [finalState, hfire, fired_of_ok heval]
  · simp [finalState, hfire, fired_of_ok heval]

/-- Every event is that of some element, evaluated when the events before it were received. -/
def Yields : Environment σ → List Event → Prop
  | _, [] => True
  | env, event :: later =>
    (∃ element, env.evaluate element = .ok event) ∧ Yields (env.receive event) later

theorem yields_fired (env : Environment σ) (element : Element) :
    env.Yields (env.fired element) := by
  cases heval : env.evaluate element with
  | error e =>
    rw [fired_of_error heval]
    trivial
  | ok event =>
    rw [fired_of_ok heval]
    exact ⟨⟨element, heval⟩, trivial⟩

theorem yields_append {env : Environment σ} {events later : List Event} :
    env.Yields (events ++ later) ↔
      env.Yields events ∧ (env.receiveAll events).Yields later := by
  induction events generalizing env with
  | nil => simp [Yields]
  | cons event events ih => simp [Yields, ih, and_assoc]

end Environment

end MusicString

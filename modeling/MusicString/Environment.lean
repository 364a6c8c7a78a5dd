import MusicString.Element.Evaluate
import MusicString.Listener

/-!
# Environments

An environment is all that a pattern is read against: dictionaries, defaults and the registered
listeners.  Firing an element evaluates it, takes its effect on the environment, and offers its
event to the listeners in the order of their registration, until one rejects it.
-/

namespace MusicString

/-- Dictionaries, defaults and listeners, with the state that the listeners share. -/
structure Environment (σ : Type) where
  /-- The dictionary that every pattern starts from. -/
  base : Dictionary
  /-- The dictionary in which names are looked up. -/
  dictionary : Dictionary
  /-- The defaults that every pattern starts from. -/
  initial : Defaults
  /-- The defaults that elements are evaluated with. -/
  defaults : Defaults
  /-- The listeners, in the order of their registration. -/
  listeners : List (ListenerId × Listener σ)
  /-- The number of the next handle. -/
  nextId : Nat
  /-- What the listeners act on. -/
  state : σ

/-- A computation that changes an environment and may fail. -/
abbrev Run (σ : Type) := EStateM ParseError (Environment σ)

namespace Environment

variable {σ : Type}

/-- The environment with the given dictionary, stock defaults and no listeners. -/
def ofDictionary (d : Dictionary) (state : σ) : Environment σ where
  base := d
  dictionary := d
  initial := { }
  defaults := { }
  listeners := []
  nextId := 0
  state

/-- Replaces the defaults, also those that later patterns start from. -/
def setDefaults (env : Environment σ) (defaults : Defaults) : Environment σ :=
  { env with initial := defaults, defaults }

/-- Defines a name for this pattern and all later ones. -/
def define (env : Environment σ) (name : String) (entry : Entry) : Environment σ :=
  { env with
    base := env.base.insert name entry
    dictionary := env.dictionary.insert name entry }

/-- Goes back to the start of a pattern; the listeners stay. -/
def reset (env : Environment σ) : Environment σ :=
  { env with dictionary := env.base, defaults := env.initial }

/-- Registers a listener after the others. -/
def addListener (env : Environment σ) (l : Listener σ) : ListenerId × Environment σ :=
  let id : ListenerId := ⟨env.nextId⟩
  (id, { env with listeners := env.listeners ++ [(id, l)], nextId := env.nextId + 1 })

/-- The handles of the registered listeners, in order. -/
def listenerIds (env : Environment σ) : List ListenerId :=
  env.listeners.map (·.1)

/-- Removes the listener with the given handle, and tells whether there are fewer then. -/
def removeListener (env : Environment σ) (id : ListenerId) : Bool × Environment σ :=
  let kept := env.listeners.filter (·.1 ≠ id)
  (kept.length ≠ env.listeners.length, { env with listeners := kept })

/-- Removes all listeners. -/
def clearListeners (env : Environment σ) : Environment σ :=
  { env with listeners := [] }

/-- The definitions that the current pattern has added or changed. -/
def added (env : Environment σ) : List (String × Entry) :=
  env.dictionary.changesFrom env.base

/-- The event of an element here; nothing changes. -/
def evaluate (env : Environment σ) (element : Element) : Except EvalError Event :=
  element.evaluate env.dictionary env.defaults

/-- The effect of an event on the environment. -/
def apply (env : Environment σ) : Event → Environment σ
  | .define name entry => { env with dictionary := env.dictionary.insert name entry }
  | .tempo bpm => { env with defaults.tempo := bpm }
  | .voice v => { env with defaults.voice := v }
  | .layer l => { env with defaults.layer := l }
  | .time t => { env with defaults.time := t }
  | _ => env

/-- Offers an event to listeners in order, up to the first that rejects it. -/
def offer (event : Event) (position : Nat) :
    List (ListenerId × Listener σ) → EStateM ParseError σ Unit
  | [] => pure ()
  | (id, l) :: rest => fun s =>
    match l.deliver event s with
    | .ok _ s => offer event position rest s
    | .error reason s => .error ⟨.rejected id event.kind reason, position⟩ s

/-- Fires an element that stands at a position: evaluates it, takes its effect and offers it. -/
def fire (element : Element) (position : Nat) : Run σ Event := fun env =>
  match env.evaluate element with
  | .error e => .error (.evaluation e position) env
  | .ok event =>
    let env := env.apply event
    match offer event position env.listeners env.state with
    | .ok _ state => .ok event { env with state }
    | .error e state => .error e { env with state }

@[simp] theorem base_apply (env : Environment σ) (event : Event) :
    (env.apply event).base = env.base := by
  cases event <;> rfl

@[simp] theorem initial_apply (env : Environment σ) (event : Event) :
    (env.apply event).initial = env.initial := by
  cases event <;> rfl

@[simp] theorem listeners_apply (env : Environment σ) (event : Event) :
    (env.apply event).listeners = env.listeners := by
  cases event <;> rfl

@[simp] theorem state_apply (env : Environment σ) (event : Event) :
    (env.apply event).state = env.state := by
  cases event <;> rfl

/-- There are fewer listeners exactly if the handle was registered. -/
theorem removeListener_fst (env : Environment σ) (id : ListenerId) :
    (env.removeListener id).1 = env.listenerIds.contains id := by
  rw [Bool.eq_iff_iff, List.contains_iff_mem, listenerIds, List.mem_map, removeListener]
  simp [List.length_filter_eq_length_iff]

@[simp] theorem reset_reset (env : Environment σ) : env.reset.reset = env.reset := rfl

@[simp] theorem listenerIds_addListener (env : Environment σ) (l : Listener σ) :
    (env.addListener l).2.listenerIds = env.listenerIds ++ [(env.addListener l).1] := by
  simp [addListener, listenerIds]

@[simp] theorem listenerIds_clearListeners (env : Environment σ) :
    env.clearListeners.listenerIds = [] := rfl

end Environment

end MusicString

import Mathlib.Data.List.Induction
import MusicString.Config
import MusicString.Proofs.Environment.Operation

/-!
# The dictionaries of an environment and its past

An environment has two dictionaries: the *base*, from which every pattern starts, and the *working*
one, in which names are looked up.  Definitions that are made from outside go into both, those of
elements into the working one, which goes back to the base at each restart.  The past of an
environment, as far as its dictionaries are concerned, is a list of occurrences, and it tells what
both hold under each name.

* `Environment.Request`: all that can be asked of an environment;
* `Occurrence`, `Environment.Request.history`: what happens meanwhile;
* `Dictionaries.takeAll`: the dictionaries after a history, and what they hold under a name;
* `Environment.Origin`: the ways to make an environment;
* `Environment.Request.dictionaries_history`: where the two dictionaries differ, and why.
-/

namespace MusicString

/-! ### What happens to dictionaries -/

/-- What can happen to the dictionaries of an environment. -/
inductive Occurrence
  /-- A pattern starts, or the environment is reset. -/
  | restart
  /-- A name is defined for all patterns. -/
  | define (name : String) (entry : Entry)
  /-- An element is fired, whether or not a listener rejects its event. -/
  | event (event : Event)

namespace Occurrence

/-- The entry that a name is given for all patterns. -/
def definition? (name : String) : Occurrence → Option Entry
  | define other entry => if other = name then some entry else none
  | _ => none

/-- Whether an occurrence settles anew what a name stands for. -/
def settles (name : String) : Occurrence → Bool
  | restart => true
  | define other _ => other = name
  | event e => e.definition?.any (·.1 = name)

end Occurrence

/-- The entry that a name was given last for all patterns. -/
def lastDefinition? (name : String) (history : List Occurrence) : Option Entry :=
  (history.filterMap (·.definition? name)).getLast?

/--
An element that defines the name was fired, and since then nothing has settled anew what the name
stands for: there was no restart, and no other definition of it by an element or from outside.
-/
def LastDefinedByEvent (name : String) (entry : Entry) (history : List Occurrence) : Prop :=
  ∃ before after, history = before ++ .event (.define name entry) :: after ∧
    ∀ occurrence ∈ after, occurrence.settles name = false

theorem LastDefinedByEvent.snoc {name : String} {entry : Entry} {history : List Occurrence}
    (h : LastDefinedByEvent name entry history) {occurrence : Occurrence}
    (ho : occurrence.settles name = false) :
    LastDefinedByEvent name entry (history ++ [occurrence]) := by
  obtain ⟨before, after, rfl, hafter⟩ := h
  refine ⟨before, after ++ [occurrence], by simp, ?_⟩
  exact List.forall_mem_append.2 ⟨hafter, List.forall_mem_singleton.2 ho⟩

/-- The two dictionaries of an environment. -/
structure Dictionaries where
  base : Dictionary
  working : Dictionary

namespace Dictionaries

/-- The dictionaries after an occurrence. -/
def take (ds : Dictionaries) : Occurrence → Dictionaries
  | .restart => { ds with working := ds.base }
  | .define name entry => ⟨ds.base.insert name entry, ds.working.insert name entry⟩
  | .event e => { ds with working := ds.working.insertAll e.definition?.toList }

/-- The dictionaries after a history. -/
def takeAll (ds : Dictionaries) (history : List Occurrence) : Dictionaries :=
  history.foldl take ds

theorem takeAll_append (ds : Dictionaries) (history later : List Occurrence) :
    ds.takeAll (history ++ later) = (ds.takeAll history).takeAll later :=
  List.foldl_append

/-- Events leave the base alone. -/
theorem takeAll_events (ds : Dictionaries) (events : List Event) :
    ds.takeAll (events.map .event) =
      { ds with working := ds.working.insertAll (events.filterMap Event.definition?) } := by
  induction events generalizing ds with
  | nil => rfl
  | cons event later ih =>
    show (ds.take (.event event)).takeAll (later.map .event) = _
    rw [ih]
    cases hdefinition : event.definition? with
    | none => simp [take, hdefinition, NameMap.insertAll]
    | some binding => simp [take, hdefinition, NameMap.insertAll]

/-- The base holds what a name was given last, or what it held at the start. -/
theorem get?_base_takeAll (ds : Dictionaries) (history : List Occurrence) (name : String) :
    (ds.takeAll history).base.get? name =
      (lastDefinition? name history).or (ds.base.get? name) := by
  induction history using List.reverseRecOn with
  | nil => rfl
  | append_singleton history occurrence ih =>
    rw [takeAll_append]
    cases occurrence with
    | define other entry =>
      show ((ds.takeAll history).base.insert other entry).get? name = _
      rw [NameMap.get?_insert, ih]
      by_cases hname : name = other
      · simp [lastDefinition?, Occurrence.definition?, hname]
      · simp [lastDefinition?, Occurrence.definition?, hname, Ne.symm hname]
    | restart => simpa [takeAll, take, lastDefinition?, Occurrence.definition?] using ih
    | event e => simpa [takeAll, take, lastDefinition?, Occurrence.definition?] using ih

/-- What does not settle anew what a name stands for leaves it alone in both dictionaries. -/
theorem get?_take_of_not_settles (ds : Dictionaries) {occurrence : Occurrence} {name : String}
    (h : occurrence.settles name = false) :
    (ds.take occurrence).base.get? name = ds.base.get? name ∧
      (ds.take occurrence).working.get? name = ds.working.get? name := by
  cases occurrence with
  | restart => cases h
  | define other entry =>
    have hne : name ≠ other := fun heq => absurd heq.symm (of_decide_eq_false h)
    simp [take, NameMap.get?_insert, hne]
  | event e =>
    refine ⟨rfl, ?_⟩
    change e.definition?.any (·.1 = name) = false at h
    cases hdefinition : e.definition? with
    | none => simp [take, hdefinition, NameMap.insertAll]
    | some binding =>
      rw [hdefinition] at h
      have hne : name ≠ binding.1 := fun heq => absurd heq.symm (of_decide_eq_false h)
      simp [take, hdefinition, NameMap.insertAll, NameMap.get?_insert, hne]

/--
The working dictionary holds a name as the base does, or as an element has defined it that was fired
since anything else has settled what the name stands for.
-/
theorem get?_working_takeAll (start : Dictionary) (history : List Occurrence) (name : String) :
    let ds := (⟨start, start⟩ : Dictionaries).takeAll history
    ds.working.get? name = ds.base.get? name ∨
      ∃ entry, ds.working.get? name = some entry ∧ LastDefinedByEvent name entry history := by
  induction history using List.reverseRecOn with
  | nil => exact .inl rfl
  | append_singleton history occurrence ih =>
    intro ds
    have hds : ds = ((⟨start, start⟩ : Dictionaries).takeAll history).take occurrence :=
      takeAll_append _ _ _
    rw [hds]
    cases hsettles : occurrence.settles name with
    | false =>
      obtain ⟨hbase, hworking⟩ := get?_take_of_not_settles _ hsettles
      rw [hbase, hworking]
      exact ih.imp_right fun ⟨entry, hentry, hlast⟩ => ⟨entry, hentry, hlast.snoc hsettles⟩
    | true =>
      cases occurrence with
      | restart => exact .inl rfl
      | define other entry =>
        obtain rfl := of_decide_eq_true hsettles
        simp [take, NameMap.get?_insert]
      | event e =>
        cases e with
        | define other entry =>
          obtain rfl := of_decide_eq_true hsettles
          refine .inr ⟨entry, ?_, history, [], rfl, List.forall_mem_nil _⟩
          exact (NameMap.get?_insert _ _ _ _).trans (if_pos rfl)
        | _ => cases hsettles

end Dictionaries

/-! ### Requests and their history -/

namespace Environment

variable {σ : Type}

/-- Both dictionaries of an environment. -/
def dictionaries (env : Environment σ) : Dictionaries :=
  ⟨env.base, env.dictionary⟩

theorem dictionaries_receiveAll (env : Environment σ) (events : List Event) :
    (env.receiveAll events).dictionaries = env.dictionaries.takeAll (events.map .event) := by
  rw [Dictionaries.takeAll_events, dictionaries, dictionaries, dictionary_receiveAll,
    (env.unchanged_receiveAll events).1]

/-- What an operation does to the dictionaries before any event comes of it. -/
def Operation.opening : Operation σ → List Occurrence
  | parse _ | reset => [.restart]
  | define name entry => [.define name entry]
  | call _ | addListener _ | removeListener _ | clearListeners => []

/-- What can be asked of an environment. -/
inductive Request (σ : Type)
  | operation (op : Operation σ)
  /-- Evaluates an element without firing it. -/
  | evaluate (element : Element)
  | setDefaults (defaults : Defaults)

namespace Request

/-- What a request does, whether it succeeds or fails. -/
def effect : Request σ → Effect σ
  | operation op => op.effect
  | evaluate _ => .silent id
  | setDefaults defaults => .silent (·.setDefaults defaults)

/-- What happens to the dictionaries of an environment during a request. -/
def occurrences (env : Environment σ) : Request σ → List Occurrence
  | operation op => op.opening ++ (op.effect.events env).map .event
  | _ => []

/-- What happens to the dictionaries of an environment during requests. -/
def history : List (Request σ) → Environment σ → List Occurrence
  | [], _ => []
  | request :: later, env => request.occurrences env ++ history later (request.effect.after env)

/-- One request. -/
theorem dictionaries_after (request : Request σ) (env : Environment σ) :
    (request.effect.after env).dictionaries =
      env.dictionaries.takeAll (request.occurrences env) := by
  cases request with
  | evaluate | setDefaults => rfl
  | operation op =>
    cases op with
    | call c =>
      show (c.effect.after env).dictionaries = _
      rw [(c.replays_effect env).1, dictionaries_receiveAll]
      rfl
    | parse text =>
      show ((Call.fragment text).effect.after env.reset).dictionaries = _
      rw [((Call.fragment text).replays_effect env.reset).1, dictionaries_receiveAll]
      rfl
    | _ => rfl

/-- Requests in order: their history tells the dictionaries. -/
theorem dictionaries_inOrder (requests : List (Request σ)) (env : Environment σ) :
    ((Effect.inOrder (requests.map effect)).after env).dictionaries =
      env.dictionaries.takeAll (history requests env) := by
  induction requests generalizing env with
  | nil => rfl
  | cons request later ih =>
    show ((Effect.inOrder (later.map effect)).after (request.effect.after env)).dictionaries = _
    rw [ih, dictionaries_after, history, Dictionaries.takeAll_append]

end Request

/-! ### Where environments come from -/

/-- The value of a configured number: an int if 32 bits hold it, else a long, or else a double. -/
def configuredValue : Config.Number → Value
  | .integer n =>
    if h : -2147483648 ≤ n.val ∧ n.val ≤ 2147483647 then .int ⟨n.val, h.1, h.2⟩ else .long n
  | .decimal x => .double x

/-- The ways to make an environment. -/
inductive Origin
  | standard
  | dictionary (d : Dictionary)
  | config (c : Config)

namespace Origin

/-- The environment of an origin. -/
def environment (state : σ) : Origin → Environment σ
  | standard => ofDictionary Standard.dictionary state
  | dictionary d => ofDictionary d state
  | config c => c.environment state

/-- What a name stands for at the start. -/
def entry? (name : String) : Origin → Option Entry
  | standard => Standard.dictionary.get? name
  | dictionary d => d.get? name
  | config c =>
    match c.definitions.get? name with
    | some (.plain number) => some ⟨configuredValue number, .value⟩
    | some (.withRole number role) => some ⟨configuredValue number, role⟩
    | none => if c.standardDictionary then Standard.dictionary.get? name else none

theorem toValue_eq (number : Config.Number) : number.toValue = configuredValue number := by
  cases number with
  | integer n => exact Value.ofLong_eq n
  | decimal x => rfl

/-- At the start the working dictionary is the base. -/
theorem dictionaries_environment (origin : Origin) (state : σ) :
    (origin.environment state).dictionaries =
      ⟨(origin.environment state).base, (origin.environment state).base⟩ := by
  cases origin <;> rfl

theorem get?_base_environment (origin : Origin) (state : σ) (name : String) :
    (origin.environment state).base.get? name = origin.entry? name := by
  cases origin with
  | standard | dictionary => simp only [environment, ofDictionary, entry?]
  | config c =>
    show (NameMap.merge (if c.standardDictionary then Standard.dictionary else .empty)
      c.dictionary).get? name = _
    rw [NameMap.get?_merge, Config.dictionary, NameMap.get?_ofList_map, entry?]
    rcases c.definitions.get? name with _ | number | ⟨number, role⟩
    · rw [Option.map_none, Option.none_or]
      split <;> rfl
    · simp only [Option.map_some, Option.some_or, Config.Definition.entry, toValue_eq]
    · simp only [Option.map_some, Option.some_or, Config.Definition.entry, toValue_eq]

end Origin

/--
**Base and working dictionary.**  After any requests, the base holds what each name was given last
for all patterns, or what it stood for at the start.  All names of the base are in the working
dictionary too, and where the two differ on a name, the working one holds the definition by an
element that was fired, with no restart and no other definition of the name since then.
-/
theorem Request.dictionaries_history (origin : Origin) (state : σ) (requests : List (Request σ))
    (name : String) :
    let start := origin.environment state
    let past := history requests start
    let env := (Effect.inOrder (requests.map effect)).after start
    env.base.get? name = (lastDefinition? name past).or (origin.entry? name) ∧
      (env.base.contains name → env.dictionary.contains name) ∧
      (env.dictionary.get? name ≠ env.base.get? name →
        ∃ entry, env.dictionary.get? name = some entry ∧
          LastDefinedByEvent name entry past) := by
  intro start past env
  have hdictionaries : env.dictionaries =
      (⟨start.base, start.base⟩ : Dictionaries).takeAll past := by
    rw [← origin.dictionaries_environment state]
    exact dictionaries_inOrder requests start
  have hbase := Dictionaries.get?_base_takeAll ⟨start.base, start.base⟩ past name
  have hworking := Dictionaries.get?_working_takeAll start.base past name
  rw [← hdictionaries] at hbase hworking
  refine ⟨?_, ?_, hworking.resolve_left⟩
  · rw [← origin.get?_base_environment state]
    exact hbase
  · intro hcontains
    rcases hworking with heq | ⟨entry, hentry, -⟩
    · exact (congrArg Option.isSome heq).trans hcontains
    · exact congrArg Option.isSome hentry

end Environment

end MusicString

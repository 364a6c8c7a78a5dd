import Mathlib.Data.List.Nodup
import MusicString.Proofs.Environment.History

/-!
# The handles of listeners

An environment gives a handle to each listener that is added, and the handle is what removes it
again.  Handles are numbered in the order in which they are given out, also over removals, so that a
handle is never given out twice and a handle that is out of date removes nothing.

* `Registration`, `Environment.Request.registrations`: what happens to the registered listeners;
* `Registry.takeAll`: the listeners after that, and which of them are still there;
* `Environment.Request.handles_inOrder`: the handles that requests give out;
* `Environment.Request.handles_history`: what handles tell of the listeners of an environment.
-/

namespace MusicString

variable {σ : Type}

/-! ### What happens to the registered listeners -/

/-- What can happen to the listeners of an environment. -/
inductive Registration (σ : Type)
  /-- A listener is added, and the handle is given out for it. -/
  | added (id : ListenerId) (l : Listener σ)
  /-- The listener with the handle is removed, if there is one. -/
  | removed (id : ListenerId)
  | cleared

namespace Registration

/-- The handle that is given out. -/
def handle? : Registration σ → Option ListenerId
  | added id _ => some id
  | _ => none

/-- Whether the listener with the given handle does not stay. -/
def removes (id : ListenerId) : Registration σ → Bool
  | added _ _ => false
  | removed other => other = id
  | cleared => true

end Registration

/-- The registered listeners in order, and the number of the next handle. -/
structure Registry (σ : Type) where
  listeners : List (ListenerId × Listener σ)
  nextId : Nat

namespace Registry

/-- The listeners after a registration. -/
def take (r : Registry σ) : Registration σ → Registry σ
  | .added id l => ⟨r.listeners ++ [(id, l)], r.nextId + 1⟩
  | .removed id => { r with listeners := r.listeners.filter (·.1 ≠ id) }
  | .cleared => { r with listeners := [] }

/-- The listeners after registrations. -/
def takeAll (r : Registry σ) (log : List (Registration σ)) : Registry σ :=
  log.foldl take r

theorem takeAll_append (r : Registry σ) (log later : List (Registration σ)) :
    r.takeAll (log ++ later) = (r.takeAll log).takeAll later :=
  List.foldl_append

theorem takeAll_snoc (r : Registry σ) (log : List (Registration σ)) (last : Registration σ) :
    r.takeAll (log ++ [last]) = (r.takeAll log).take last :=
  r.takeAll_append log [last]

/-- A registration adds at most the listener that it is about, and removes those that it must. -/
theorem mem_take {r : Registry σ} {registration : Registration σ} {id : ListenerId}
    {l : Listener σ} : (id, l) ∈ (r.take registration).listeners ↔
      registration = .added id l ∨
        (id, l) ∈ r.listeners ∧ registration.removes id = false := by
  cases registration with
  | added other l' =>
    simp only [take, Registration.removes, List.mem_append, List.mem_singleton, Prod.mk.injEq,
      Registration.added.injEq, and_true]
    tauto
  | removed other => simp [take, Registration.removes, eq_comm (a := id)]
  | cleared => simp [take, Registration.removes]

/-- The listeners that are registered are those that were added and not removed since. -/
theorem mem_takeAll {n : Nat} {log : List (Registration σ)} {id : ListenerId} {l : Listener σ} :
    (id, l) ∈ ((⟨[], n⟩ : Registry σ).takeAll log).listeners ↔
      ∃ before after, log = before ++ .added id l :: after ∧
        ∀ registration ∈ after, registration.removes id = false := by
  induction log using List.reverseRecOn with
  | nil => simp [takeAll]
  | append_singleton log last ih =>
    rw [takeAll_snoc, mem_take, ih]
    constructor
    · rintro (rfl | ⟨⟨before, after, rfl, hafter⟩, hlast⟩)
      · exact ⟨log, [], rfl, List.forall_mem_nil _⟩
      · refine ⟨before, after ++ [last], by simp, ?_⟩
        exact List.forall_mem_append.2 ⟨hafter, List.forall_mem_singleton.2 hlast⟩
    · rintro ⟨before, after, hlog, hafter⟩
      -- The listener was added last, or something else has happened since then.
      rcases List.eq_nil_or_concat after with rfl | ⟨after, last', rfl⟩
      · exact .inl (List.singleton_inj.1 (List.append_inj' hlog rfl).2)
      · rw [List.concat_eq_append] at hlog hafter
        rw [← List.cons_append, ← List.append_assoc] at hlog
        obtain ⟨rfl, hlast⟩ := List.append_inj' hlog rfl
        cases hlast
        obtain ⟨hafter, hlast⟩ := List.forall_mem_append.1 hafter
        exact .inr ⟨⟨before, after, rfl, hafter⟩, hlast _ List.mem_cons_self⟩

/-- The listeners that are registered are in the order in which they were added. -/
theorem ids_sublist (n : Nat) (log : List (Registration σ)) :
    (((⟨[], n⟩ : Registry σ).takeAll log).listeners.map (·.1)).Sublist
      (log.filterMap Registration.handle?) := by
  induction log using List.reverseRecOn with
  | nil => exact .slnil
  | append_singleton log last ih =>
    rw [takeAll_snoc, List.filterMap_append]
    cases last with
    | added id l =>
      rw [take, List.map_append]
      exact ih.append (.refl _)
    | removed id =>
      refine .trans ?_ (List.sublist_append_left _ _)
      exact (List.filter_sublist.map _).trans ih
    | cleared => exact List.nil_sublist _

end Registry

namespace Environment

/-- The listeners of an environment. -/
def registry (env : Environment σ) : Registry σ :=
  ⟨env.listeners, env.nextId⟩

/-- Events leave the listeners registered as they are. -/
theorem registry_receiveAll (env : Environment σ) (events : List Event) :
    (env.receiveAll events).registry = env.registry := by
  induction events generalizing env with
  | nil => rfl
  | cons event later ih =>
    rw [receiveAll_cons, ih]
    cases event <;> rfl

theorem registry_finalState_fire (element : Element) (position : Nat) (env : Environment σ) :
    (finalState (fire element position) env).registry = env.registry := by
  rw [finalState_fire, registry_receiveAll]

theorem registry_finalState_parseFragment (text : String) (env : Environment σ) :
    (finalState (Pattern.parseFragment text) env).registry = env.registry := by
  rw [Pattern.parseFragment, Pattern.finalState_fireUpTo, registry_receiveAll]

theorem registry_finalState_parse (text : String) (env : Environment σ) :
    (finalState (Pattern.parse text) env).registry = env.registry :=
  registry_finalState_parseFragment text env.reset

theorem registry_environment (origin : Origin) (state : σ) :
    (origin.environment state).registry = ⟨[], 0⟩ := by
  cases origin <;> rfl

/-- A listener is removed if its handle is registered, and else nothing changes. -/
theorem removeListener_cases {env : Environment σ} (hids : env.listenerIds.Nodup)
    (id : ListenerId) :
    (id ∈ env.listenerIds ∧ ∃ before l after, env.listeners = before ++ (id, l) :: after ∧
      env.removeListener id = (true, { env with listeners := before ++ after })) ∨
    (id ∉ env.listenerIds ∧ env.removeListener id = (false, env)) := by
  have hothers {entries : List (ListenerId × Listener σ)} (h : id ∉ entries.map (·.1)) :
      entries.filter (·.1 ≠ id) = entries := by
    refine List.filter_eq_self.2 fun entry hentry => decide_eq_true fun heq => h ?_
    exact List.mem_map.2 ⟨entry, hentry, heq⟩
  have hanswer := env.removeListener_fst id
  by_cases hid : id ∈ env.listenerIds
  · refine .inl ⟨hid, ?_⟩
    obtain ⟨⟨_, l⟩, hl, rfl⟩ := List.mem_map.1 hid
    obtain ⟨before, after, hlisteners⟩ := List.append_of_mem hl
    -- No other listener has the handle, so all others stay.
    have hrest := hids
    rw [listenerIds, hlisteners, List.map_append, List.map_cons, List.nodup_middle,
      List.nodup_cons, List.mem_append, not_or] at hrest
    refine ⟨before, l, after, hlisteners, Prod.ext ?_ ?_⟩
    · rw [hanswer, List.contains_iff_mem.2 hid]
    · simp only [removeListener]
      rw [hlisteners, List.filter_append, List.filter_cons_of_neg (by simp), hothers hrest.1.1,
        hothers hrest.1.2]
  · refine .inr ⟨hid, Prod.ext ?_ ?_⟩
    · rw [hanswer, Bool.eq_false_iff.2 (mt List.contains_iff_mem.1 hid)]
    · simp only [removeListener]
      rw [hothers hid]

/-! ### Requests and the handles that they give out -/

namespace Request

/-- What happens to the listeners of an environment during a request. -/
def registrations (env : Environment σ) : Request σ → List (Registration σ)
  | operation (.addListener l) => [.added (env.addListener l).1 l]
  | operation (.removeListener id) => [.removed id]
  | operation .clearListeners => [.cleared]
  | _ => []

/-- What happens to the listeners of an environment during requests. -/
def registrationsOf : List (Request σ) → Environment σ → List (Registration σ)
  | [], _ => []
  | request :: later, env =>
    request.registrations env ++ registrationsOf later (request.effect.after env)

/-- One request. -/
theorem registry_after (request : Request σ) (env : Environment σ) :
    (request.effect.after env).registry = env.registry.takeAll (request.registrations env) := by
  cases request with
  | evaluate | setDefaults => rfl
  | operation op =>
    cases op with
    | call c =>
      cases c with
      | fire element position => exact registry_finalState_fire element position env
      | fragment text => exact registry_finalState_parseFragment text env
    | parse text => exact registry_finalState_parse text env
    | _ => rfl

/-- Requests in order: what happened during them tells the listeners. -/
theorem registry_inOrder (requests : List (Request σ)) (env : Environment σ) :
    ((Effect.inOrder (requests.map effect)).after env).registry =
      env.registry.takeAll (registrationsOf requests env) := by
  induction requests generalizing env with
  | nil => rfl
  | cons request later ih =>
    show ((Effect.inOrder (later.map effect)).after (request.effect.after env)).registry = _
    rw [ih, registry_after, registrationsOf, Registry.takeAll_append]

/-- One request gives out no handle, or the next one. -/
theorem handles_registrations (request : Request σ) (env : Environment σ) :
    ((request.registrations env).filterMap Registration.handle? = [] ∧
      (request.effect.after env).nextId = env.nextId) ∨
    ((request.registrations env).filterMap Registration.handle? = [⟨env.nextId⟩] ∧
      (request.effect.after env).nextId = env.nextId + 1) := by
  have hnext := congrArg Registry.nextId (registry_after request env)
  cases request with
  | operation op =>
    cases op with
    | addListener l => exact .inr ⟨rfl, hnext⟩
    | _ => exact .inl ⟨rfl, hnext⟩
  | _ => exact .inl ⟨rfl, hnext⟩

/-- Requests give out handles with consecutive numbers, whatever they remove meanwhile. -/
theorem handles_inOrder (requests : List (Request σ)) (env : Environment σ) :
    ∃ count, (registrationsOf requests env).filterMap Registration.handle? =
      (List.range' env.nextId count).map ListenerId.mk := by
  induction requests generalizing env with
  | nil => exact ⟨0, rfl⟩
  | cons request later ih =>
    obtain ⟨count, hlater⟩ := ih (request.effect.after env)
    rw [registrationsOf, List.filterMap_append, hlater]
    rcases handles_registrations request env with ⟨hnone, hnext⟩ | ⟨hnew, hnext⟩
    · exact ⟨count, by rw [hnone, hnext, List.nil_append]⟩
    · refine ⟨count + 1, ?_⟩
      rw [hnew, hnext, List.range'_succ, List.map_cons, List.singleton_append]

/-- Requests give out at most one handle each. -/
theorem nextId_inOrder (requests : List (Request σ)) (env : Environment σ) :
    ((Effect.inOrder (requests.map effect)).after env).nextId ≤ env.nextId + requests.length := by
  induction requests generalizing env with
  | nil => exact Nat.le_refl _
  | cons request later ih =>
    have hlater := ih (request.effect.after env)
    show ((Effect.inOrder (later.map effect)).after (request.effect.after env)).nextId ≤ _
    rw [List.length_cons]
    rcases handles_registrations request env with ⟨-, hnext⟩ | ⟨-, hnext⟩ <;> omega

/--
**Handles.**  After any requests to a new environment, the handles of its listeners increase in the
order of registration.  A listener is registered exactly if it was added and not removed since, and
no handle is ever given out twice.  Removing by a handle succeeds exactly if it is registered, and
takes away this listener only; else it changes nothing.  Firing elements and reading patterns leave
the listeners as they are, whether or not they fail.  The number of the next handle is at most that
of the requests.
-/
theorem handles_history (origin : Origin) (state : σ) (requests : List (Request σ)) :
    let start := origin.environment state
    let log := registrationsOf requests start
    let given := log.filterMap Registration.handle?
    let env := (Effect.inOrder (requests.map effect)).after start
    env.listenerIds.Pairwise (·.number < ·.number) ∧
      given.Nodup ∧ (∀ id ∈ env.listenerIds, given.count id = 1) ∧
      (∀ id l, (id, l) ∈ env.listeners ↔
        ∃ before after, log = before ++ .added id l :: after ∧
          ∀ registration ∈ after, registration.removes id = false) ∧
      (∀ id,
        (id ∈ env.listenerIds ∧ ∃ before l after, env.listeners = before ++ (id, l) :: after ∧
          env.removeListener id = (true, { env with listeners := before ++ after })) ∨
        (id ∉ env.listenerIds ∧ env.removeListener id = (false, env))) ∧
      (∀ element position,
        (finalState (fire element position) env).listeners = env.listeners) ∧
      (∀ text, (finalState (Pattern.parseFragment text) env).listeners = env.listeners ∧
        (finalState (Pattern.parse text) env).listeners = env.listeners) ∧
      env.nextId ≤ requests.length := by
  intro start log given env
  have hregistry : env.registry = (⟨[], 0⟩ : Registry σ).takeAll log := by
    rw [← registry_environment origin state]
    exact registry_inOrder requests start
  have hlisteners : env.listeners = ((⟨[], 0⟩ : Registry σ).takeAll log).listeners :=
    congrArg Registry.listeners hregistry
  have hsublist : env.listenerIds.Sublist given := by
    rw [listenerIds, hlisteners]
    exact Registry.ids_sublist 0 log
  have hgiven : given.Pairwise (·.number < ·.number) := by
    obtain ⟨count, hcount⟩ := handles_inOrder requests start
    rw [show given = _ from hcount, List.pairwise_map]
    exact List.pairwise_lt_range'
  have hnodup : given.Nodup :=
    hgiven.imp fun hlt heq => absurd (congrArg ListenerId.number heq) (Nat.ne_of_lt hlt)
  refine ⟨hgiven.sublist hsublist, hnodup, fun id hid => ?_, fun id l => ?_,
    removeListener_cases (hnodup.sublist hsublist), fun element position => ?_,
    fun text => ⟨?_, ?_⟩, ?_⟩
  · exact List.count_eq_one_of_mem hnodup (hsublist.subset hid)
  · rw [hlisteners]
    exact Registry.mem_takeAll
  · exact congrArg Registry.listeners (registry_finalState_fire element position env)
  · exact congrArg Registry.listeners (registry_finalState_parseFragment text env)
  · exact congrArg Registry.listeners (registry_finalState_parse text env)
  · have hstart : start.nextId = 0 := congrArg Registry.nextId (registry_environment origin state)
    have hnext : env.nextId ≤ start.nextId + requests.length := nextId_inOrder requests start
    omega

/-- Handles are not given out again after all listeners were removed. -/
example (l : Listener Unit) :
    ((Effect.inOrder (List.map (effect ∘ operation)
      [.addListener l, .addListener l, .clearListeners, .addListener l])).after
        (Origin.standard.environment ())).listenerIds = [⟨2⟩] := rfl

end Request

end Environment

end MusicString

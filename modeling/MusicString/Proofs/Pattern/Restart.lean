import MusicString.Proofs.Environment.FanOut
import MusicString.Proofs.Environment.History
import MusicString.Proofs.Pattern.Names

/-!
# Every pattern starts afresh

Neither firing elements nor reading patterns touches what later patterns start from: the base
dictionary, the initial defaults and the listeners.  A reset brings back the first two, and where
the listeners only listen there is nothing else that a pattern could depend on.  So a pattern gives
the same result whatever has been read before, even if that has failed half-way.

* `Environment.StartsAlike`: environments in which patterns start from the same;
* `Environment.Request.Transient`, `Environment.Request.startsAlike_inOrder`: requests that change
  nothing for later patterns;
* `Pattern.parse_eq_of_transient`: a pattern does not depend on such requests.
-/

namespace MusicString

namespace Environment

variable {σ τ : Type}

/-- Two environments in which patterns start from the same, with listeners that only listen. -/
structure StartsAlike (env : Environment σ) (other : Environment τ) : Prop where
  base : env.base = other.base
  initial : env.initial = other.initial
  left : env.NeverRejects
  right : other.NeverRejects

namespace StartsAlike

theorem refl {env : Environment σ} (h : env.NeverRejects) : StartsAlike env env :=
  ⟨rfl, rfl, h, h⟩

theorem trans {ρ : Type} {env : Environment σ} {other : Environment τ} {third : Environment ρ}
    (h : StartsAlike env other) (h' : StartsAlike other third) : StartsAlike env third :=
  ⟨h.base.trans h'.base, h.initial.trans h'.initial, h.left, h'.right⟩

/-- A reset leaves nothing that any element could tell. -/
theorem inStep_reset {env : Environment σ} {other : Environment τ} (h : StartsAlike env other) :
    InStep Set.univ env.reset other.reset where
  dictionary := fun name _ => congrArg (NameMap.get? · name) h.base
  defaults := h.initial
  left := h.left.congr rfl rfl
  right := h.right.congr rfl rfl

end StartsAlike

/-- Events change nothing for later patterns. -/
theorem NeverRejects.startsAlike_receiveAll {env : Environment σ} (h : env.NeverRejects)
    (events : List Event) : StartsAlike (env.receiveAll events) env :=
  have hunchanged := env.unchanged_receiveAll events
  ⟨hunchanged.1, hunchanged.2.1, h.receiveAll events, h⟩

/-- A call changes nothing for later patterns, whether it succeeds or fails. -/
theorem NeverRejects.startsAlike_call {env : Environment σ} (h : env.NeverRejects) (c : Call) :
    StartsAlike (c.effect.after env) env := by
  rw [(c.replays_effect env).1]
  exact h.startsAlike_receiveAll _

/-- A reset changes nothing for later patterns. -/
theorem NeverRejects.startsAlike_reset {env : Environment σ} (h : env.NeverRejects) :
    StartsAlike env.reset env :=
  ⟨rfl, rfl, h.congr rfl rfl, h⟩

/-! ### Requests -/

namespace Request

/-- A request other than to change what later patterns start from, or who listens to them. -/
def Transient : Request σ → Prop
  | operation (.call _) | operation (.parse _) | operation .reset | evaluate _ => True
  | _ => False

/-- One request. -/
theorem startsAlike_effect {request : Request σ} (hrequest : request.Transient)
    {env : Environment σ} (h : env.NeverRejects) : StartsAlike (request.effect.after env) env := by
  cases request with
  | evaluate element => exact .refl h
  | setDefaults defaults => exact hrequest.elim
  | operation op =>
    cases op with
    | call c => exact h.startsAlike_call c
    | reset => exact h.startsAlike_reset
    | parse text =>
      have hreset := h.startsAlike_reset
      exact (hreset.left.startsAlike_call (.fragment text)).trans hreset
    | _ => exact hrequest.elim

/-- Requests in order. -/
theorem startsAlike_inOrder {requests : List (Request σ)}
    (hrequests : ∀ request ∈ requests, request.Transient) {env : Environment σ}
    (h : env.NeverRejects) :
    StartsAlike ((Effect.inOrder (requests.map effect)).after env) env := by
  induction requests generalizing env with
  | nil => exact .refl h
  | cons request later ih =>
    obtain ⟨hrequest, hlater⟩ := List.forall_mem_cons.1 hrequests
    have hfirst := startsAlike_effect hrequest h
    exact (ih hlater hfirst.left).trans hfirst

end Request

end Environment

/-! ### Patterns -/

namespace Pattern

open Environment Read

variable {σ τ : Type}

/-- The same pattern, in environments in which patterns start from the same. -/
theorem inStep_parse (text : String) {env : Environment σ} {other : Environment τ}
    (h : StartsAlike env other) :
    RunsInStep Set.univ (parse text env) (parse text other) :=
  inStep_parseFragment (Set.subset_univ _) h.inStep_reset

/--
**Every pattern starts afresh.**  Where no listener rejects events, a pattern gives the same events
or the same failure after any elements, patterns and resets as before them, and leaves the same
dictionaries and defaults.  In particular it does so the second time that it is read.
-/
theorem parse_eq_of_transient {requests : List (Request σ)}
    (hrequests : ∀ request ∈ requests, request.Transient) {env : Environment σ}
    (h : env.NeverRejects) (text : String) :
    let later := (Effect.inOrder (requests.map Request.effect)).after env
    let final := finalState (parse text) later
    let final' := finalState (parse text) env
    outcome (parse text) later = outcome (parse text) env ∧
      final.dictionary = final'.dictionary ∧ final.base = final'.base ∧
      final.defaults = final'.defaults ∧ final.initial = final'.initial := by
  intro later final final'
  have hlater : StartsAlike later env := Request.startsAlike_inOrder hrequests h
  have hrun := inStep_parse text hlater
  have hstep : InStep Set.univ final final' := hrun.finalState
  -- Reading the pattern is itself a request that changes nothing for later patterns.
  have hparse : (Request.operation (.parse text) : Request σ).Transient := trivial
  have hfinal : StartsAlike final later := Request.startsAlike_effect hparse hlater.left
  have hfinal' : StartsAlike final' env := Request.startsAlike_effect hparse h
  refine ⟨hrun.outcome_eq, ?_, ?_, hstep.defaults, ?_⟩
  · exact NameMap.ext_get? fun name => hstep.dictionary name (Set.mem_univ name)
  · exact (hfinal.base.trans hlater.base).trans hfinal'.base.symm
  · exact (hfinal.initial.trans hlater.initial).trans hfinal'.initial.symm

/-- A pattern fails once more although the name that it refers to has been defined meanwhile. -/
theorem parse_eq_of_transient_undefined :
    let entry : Entry := ⟨.int (.nearest 3), .voice⟩
    let recorder : Listener (List Event) := .recorder fun event log => log ++ [event]
    let env : Environment (List Event) := (ofDictionary .empty []).addListener recorder |>.2
    let requests : List (Request (List Event)) :=
      [.operation (.parse "V[Solo]"), .operation (.call (.fire (.define "Solo" entry) 0))]
    let later := (Effect.inOrder (requests.map Request.effect)).after env
    env.NeverRejects ∧ (∀ request ∈ requests, request.Transient) ∧
      later.dictionary.get? "Solo" = some entry ∧ later.state = [.define "Solo" entry] ∧
      outcome (parse "V[Solo]") later = outcome (parse "V[Solo]") env := by
  intro entry recorder env requests later
  have henv : env.NeverRejects := by
    refine neverRejects_of_listeners fun listener hlistener event log => ?_
    rw [List.mem_singleton.1 hlistener, Listener.deliver_recorder]
    exact ⟨log ++ [event], rfl⟩
  have hrequests : ∀ request ∈ requests, request.Transient := by
    simp [requests, Request.Transient]
  exact ⟨henv, hrequests, rfl, rfl, (parse_eq_of_transient hrequests henv "V[Solo]").1⟩

end Pattern

end MusicString

import MusicString.CommandLine
import MusicString.Proofs.Environment.FanOut
import MusicString.Proofs.Grammar.RoundTrip
import MusicString.Proofs.Pattern.Names
import MusicString.Proofs.Pattern.Spellings

/-!
# Definitions inside and outside a pattern

A name can be defined before a pattern is read, as the command line does, or by a first line of the
pattern.  The first way changes what every pattern starts from, and the second the dictionary of
this pattern alone, by an event of its own.  The tokens that follow cannot tell one from the other.

* `Environment.recording`: the events of a pattern are what a recorder is told;
* `Pattern.firedUpTo_congr`: environments in step give rise to the same events;
* `Pattern.parseFragment_definitionLine`: a line that defines a name;
* `CommandLine.define_of_isName`: the same definition on the command line;
* `Pattern.parse_definitionLine_eq`: the two ways agree.
-/

namespace MusicString

open Read Text

/-! ### What a recorder is told -/

namespace Environment

variable {σ : Type}

/-- The environment with a recorder for its only listener, and what that has been told so far. -/
def recording (env : Environment σ) (log : List Event) : Environment (List Event) :=
  { env with
    listeners := [(⟨0⟩, .recorder fun event log => log ++ [event])]
    state := log }

theorem receive_recording (env : Environment σ) (log : List Event) (event : Event) :
    (env.recording log).receive event = (env.apply event).recording (log ++ [event]) := by
  have hoffer : finalState (offer event 0 (env.recording log).listeners) log = log ++ [event] := by
    simp only [finalState, offer, recording, Listener.deliver_recorder]
    rfl
  show { (env.recording log).apply event with
    state := finalState (offer event 0 (env.recording log).listeners) log } = _
  rw [hoffer]
  cases event <;> rfl

/-- The recorder is told all events, in order. -/
theorem state_receiveAll_recording (env : Environment σ) (log events : List Event) :
    ((env.recording log).receiveAll events).state = log ++ events := by
  induction events generalizing env log with
  | nil => exact (List.append_nil log).symm
  | cons event later ih => rw [receiveAll_cons, receive_recording, ih, List.append_assoc]; rfl

theorem neverRejects_recording (env : Environment σ) (log : List Event) :
    (env.recording log).NeverRejects := by
  refine neverRejects_of_listeners fun entry hentry event log => ?_
  rw [List.mem_singleton.1 hentry, Listener.deliver_recorder]
  exact ⟨log ++ [event], rfl⟩

theorem inStep_recording {env : Environment σ} (h : env.NeverRejects) (log : List Event) :
    InStep Set.univ env (env.recording log) :=
  ⟨fun _ _ => rfl, rfl, h, env.neverRejects_recording log⟩

end Environment

/-! ### Names before an equals sign -/

theorem Grammar.equals_notMem_of_isName {name : String} (h : IsName ['_'] name) :
    '=' ∉ name.toList := by
  intro hmem
  have hwanted := isWanted_of_isName h '=' hmem
  exact absurd hwanted (by decide +kernel)

theorem CommandLine.splitAtEquals_append {name : List Char} (h : '=' ∉ name) (text : List Char) :
    splitAtEquals (name ++ '=' :: text) = (name, some text) := by
  induction name with
  | nil => rfl
  | cons c name ih =>
    obtain ⟨hc, hname⟩ := not_or.1 (mt List.mem_cons.2 h)
    rw [List.cons_append, splitAtEquals, if_neg (Ne.symm hc), ih hname]

/-- A definition on the command line is split where the name ends. -/
theorem CommandLine.define_of_isName {σ : Type} {name text : String} {entry : Entry}
    (hname : IsName ['_'] name) (hentry : Definition.parse? text.toList = some entry)
    (env : Environment σ) :
    define env [name ++ "=" ++ text] = .ok (env.define name entry) := by
  have hne : name.toList ≠ [] := fun hnil => hname.1 (String.toList_eq_nil_iff.1 hnil)
  have hsplit : splitAtEquals (name ++ "=" ++ text).toList = (name.toList, some text.toList) := by
    rw [String.toList_append, String.toList_append, List.append_assoc]
    exact splitAtEquals_append (Grammar.equals_notMem_of_isName hname) text.toList
  have hdefinition : definition? (name ++ "=" ++ text) = some (name, entry) := by
    simp only [definition?, hsplit, hne, hentry, ↓reduceIte, Option.map_some, String.ofList_toList]
  simp only [define, hdefinition]

namespace Pattern

open Environment Grammar

variable {σ τ : Type} {names : Set String}

/-- Environments in step give rise to the same events, up to the first failure. -/
theorem firedUpTo_congr (n : Nat) {c : Cursor} (hc : bracketedNames c.rest ⊆ names)
    {env : Environment σ} {other : Environment τ} (h : InStep names env other) :
    firedUpTo n c env = firedUpTo n c other := by
  induction n generalizing c env other with
  | zero => rfl
  | succ n ih =>
    rw [firedUpTo, firedUpTo, ← nextToken_congr h.dictionary hc]
    rcases hnext : nextToken env.dictionary c with ⟨_ | ⟨start, element⟩, c'⟩ | ⟨e, c'⟩
    · rfl
    · obtain ⟨helement, m, rfl⟩ := cites_nextToken env.dictionary hc hnext
      have hfire := inStep_fire h (helement _ rfl) start
      dsimp only
      generalize fire element start env = x at hfire
      generalize fire element start other = y at hfire
      cases hfire with
      | error _ => exact congrArg (·.toOption.toList) (h.evaluate_eq (helement _ rfl))
      | ok hstep => exact congrArg _ (ih ((bracketedNames_move c m).trans hc) hstep)
    · rfl

/-- A recorder in the place of listeners that never reject is told the events of the pattern. -/
theorem state_finalState_recording (text : String) {env : Environment σ} (h : env.NeverRejects)
    (log : List Event) :
    (finalState (parseFragment text) (env.recording log)).state = log ++ fired text env := by
  have hfinal := finalState_fireUpTo (text.toList.length + 1) (.start text.toList)
    (env.recording log)
  rw [parseFragment, hfinal, state_receiveAll_recording]
  exact congrArg _ (firedUpTo_congr _ (Set.subset_univ _) (inStep_recording h log)).symm

/-! ### A line that defines a name -/

/-- The token that defines a name. -/
def definitionToken (name text : String) : List Char :=
  '$' :: (name.toList ++ '=' :: text.toList)

/-- The line of a pattern that defines a name. -/
def definitionLine (name text : String) : String :=
  "$" ++ name ++ "=" ++ text ++ "\n"

theorem toList_definitionLine (name text pattern : String) :
    (definitionLine name text ++ pattern).toList =
      definitionToken name text ++ '\n' :: pattern.toList := by
  simp [definitionLine, definitionToken]

theorem length_definitionLine (name text : String) :
    (definitionLine name text).length = (definitionToken name text).length + 1 := by
  simp only [definitionLine, definitionToken, String.length_append, List.length_cons,
    List.length_append, String.length_toList]
  show 1 + name.length + 1 + text.length + 1 = _
  omega

variable {name text : String} {entry : Entry} {env : Environment σ}

theorem outcome_prepend_postpone (event : Event) (shift : Nat) {run run' : Run σ (List Event)}
    {env' : Environment σ} (h : run env = prepend event (postpone shift (run' env'))) :
    outcome run env = ((outcome run' env').map (event :: ·)).mapError (·.later shift) := by
  unfold outcome
  rw [h]
  cases run' env' <;> rfl

theorem finalState_prepend_postpone (event : Event) (shift : Nat) {run run' : Run σ (List Event)}
    {env' : Environment σ} (h : run env = prepend event (postpone shift (run' env'))) :
    finalState run env = finalState run' env' := by
  unfold finalState
  rw [h]
  cases run' env' <;> rfl

section

variable (hname : IsName ['_'] name) (htext : ∀ x ∈ text.toList, isWhiteSpace x = false)
  (hentry : Definition.parse? text.toList = some entry)

include hname htext hentry

/-- The token of a definition, whatever text denotes the entry. -/
theorem parseFragment_definition (h : env.NeverRejects) :
    parseFragment (String.ofList (definitionToken name text)) env =
      .ok [.define name entry] (env.receive (.define name entry)) := by
  have hbody := definition_of_parse? (.inl rfl) hname htext hentry 1
  have helement := element_of_body (d := env.dictionary) "dictionary definition" (rules.drop 1)
    (fun _ => rfl) hbody
  rw [List.append_nil] at helement
  rw [definitionToken, parseFragment_of_element ⟨'$', rfl, rfl⟩ helement, fireOnly,
    fire_of_neverRejects h]
  rfl

/-- Reading goes on after the line as if the pattern started in the environment that it leaves. -/
theorem parseFragment_definitionLine (h : env.NeverRejects) (pattern : String) :
    parseFragment (definitionLine name text ++ pattern) env =
      prepend (.define name entry) (postpone (definitionLine name text).length
        (parseFragment pattern (env.receive (.define name entry)))) := by
  have hline := parseFragment_definition hname htext hentry h
  have hjoins := joins_fireUpTo 0 (definitionToken name text) pattern.toList
    (Nat.le_refl _) (Nat.le_refl _) env
  rw [parseFragment, String.toList_ofList, Cursor.start] at hline
  rw [hline, ← toList_definitionLine, Nat.zero_add, ← length_definitionLine] at hjoins
  simp only [Joins, List.singleton_append] at hjoins
  rw [parseFragment, parseFragment, Cursor.start]
  generalize fireUpTo (pattern.toList.length + 1) (.start pattern.toList) _ = x at hjoins ⊢
  cases x with
  | ok later env' => exact hjoins
  | error e env' => exact hjoins

/-- The line gives rise to its own event, and the pattern to the same events as without it. -/
theorem fired_definitionLine (h : env.NeverRejects) (pattern : String) :
    fired (definitionLine name text ++ pattern) env =
      .define name entry :: fired pattern (env.apply (.define name entry)) := by
  have hline := parseFragment_definitionLine hname htext hentry (env.neverRejects_recording [])
    pattern
  rw [receive_recording] at hline
  -- Both recorders hold what they were told, and the second one has been told of the line before.
  have hstate := congrArg (·.state) (finalState_prepend_postpone _ _ hline)
  have happly : (env.apply (.define name entry)).NeverRejects := h.congr rfl rfl
  rw [state_finalState_recording _ h, state_finalState_recording _ happly] at hstate
  rwa [List.nil_append, List.nil_append, List.singleton_append] at hstate

end

/-! ### The two ways -/

theorem parse_apply (text : String) (env : Environment σ) :
    parse text env = parseFragment text env.reset := rfl

/-- After a definition outside, a pattern starts as the line of the definition leaves it. -/
theorem inStep_define (h : env.NeverRejects) (name : String) (entry : Entry) :
    InStep Set.univ (env.reset.receive (.define name entry)) (env.define name entry).reset where
  dictionary := fun _ _ => rfl
  defaults := rfl
  left := (h.congr rfl rfl : env.reset.NeverRejects).receive _
  right := h.congr rfl rfl

/--
**A definition from outside equals one in the pattern.**  Where no listener rejects events, reading
a pattern after a name was defined on the command line, and reading it with a first line that
defines the name, give rise to the same events but for that of the line, return them or fail alike
but for the position, and leave the same dictionary and the same defaults.
-/
theorem parse_definitionLine_eq (h : env.NeverRejects) (hname : IsName ['_'] name)
    (htext : ∀ x ∈ text.toList, isWhiteSpace x = false)
    (hentry : Definition.parse? text.toList = some entry) (pattern : String) :
    let event : Event := .define name entry
    let line := definitionLine name text
    let outside := env.define name entry
    let final := finalState (parse (line ++ pattern)) env
    let final' := finalState (parse pattern) outside
    CommandLine.define env [name ++ "=" ++ text] = .ok outside ∧
      fired (line ++ pattern) env.reset = event :: fired pattern outside.reset ∧
      outcome (parse (line ++ pattern)) env =
        ((outcome (parse pattern) outside).map (event :: ·)).mapError (·.later line.length) ∧
      final.dictionary = final'.dictionary ∧ final.defaults = final'.defaults := by
  intro event line outside final final'
  have hreset : env.reset.NeverRejects := h.congr rfl rfl
  have hline : parse (line ++ pattern) env = prepend event (postpone line.length
      (parseFragment pattern (env.reset.receive event))) := by
    rw [parse_apply, parseFragment_definitionLine hname htext hentry hreset]
  have hrun : RunsInStep Set.univ (parseFragment pattern (env.reset.receive event))
      (parse pattern outside) := by
    rw [parse_apply]
    exact inStep_parseFragment (Set.subset_univ _) (inStep_define h name entry)
  have hstep : InStep Set.univ final final' := by
    have hfinal : final = finalState (parseFragment pattern) (env.reset.receive event) :=
      finalState_prepend_postpone _ _ hline
    rw [hfinal]
    exact hrun.finalState
  refine ⟨CommandLine.define_of_isName hname hentry env, ?_, ?_, ?_, hstep.defaults⟩
  · have happly : InStep Set.univ (env.reset.apply event) outside.reset :=
      ⟨fun _ _ => rfl, rfl, h.congr rfl rfl, h.congr rfl rfl⟩
    rw [fired_definitionLine hname htext hentry hreset]
    exact congrArg _ (firedUpTo_congr _ (Set.subset_univ _) happly)
  · rw [← hrun.outcome_eq]
    exact outcome_prepend_postpone _ _ hline
  · exact NameMap.ext_get? fun name => hstep.dictionary name (Set.mem_univ name)

/-- The failure of a later token, which has another position after the line. -/
theorem parse_definitionLine_eq_undefined :
    let entry : Entry := ⟨.int (.nearest 3), .voice⟩
    let env : Environment Unit := ofDictionary .empty ()
    let event : Event := .define "Lead_1" entry
    env.NeverRejects ∧ IsName ['_'] "Lead_1" ∧
      (∀ x ∈ "V3".toList, isWhiteSpace x = false) ∧
      Definition.parse? "V3".toList = some entry ∧
      fired "$Lead_1=V3\n[Lead_1] V[Solo]" env.reset =
        event :: fired "[Lead_1] V[Solo]" (env.define "Lead_1" entry).reset ∧
      outcome (parse "$Lead_1=V3\n[Lead_1] V[Solo]") env =
        ((outcome (parse "[Lead_1] V[Solo]") (env.define "Lead_1" entry)).map
          (event :: ·)).mapError (·.later 11) := by
  intro entry env event
  have henv : env.NeverRejects := neverRejects_of_listeners nofun
  have hname : IsName ['_'] "Lead_1" := by
    have hall : "Lead_1".toList.all
        (fun x => isAlphabetic x || x.isDigit || decide (x = '_')) = true := by decide +kernel
    refine ⟨by decide, fun x hx => ?_⟩
    simpa [or_assoc] using List.all_eq_true.1 hall x hx
  have htext : ∀ x ∈ "V3".toList, isWhiteSpace x = false := by
    have hall : "V3".toList.all (fun x => !isWhiteSpace x) = true := by decide +kernel
    simpa using hall
  have hentry : Definition.parse? "V3".toList = some entry := by decide +kernel
  have hways := parse_definitionLine_eq henv hname htext hentry "[Lead_1] V[Solo]"
  exact ⟨henv, hname, htext, hentry, hways.2.1, hways.2.2.1⟩

end Pattern

end MusicString

import MusicString.Proofs.Environment.Accepting
import MusicString.Proofs.Grammar.Names
import MusicString.Proofs.Pattern.Streaming

/-!
# Only the names in a pattern matter

A pattern is read against a dictionary twice over: a lone reference is read by the role of its
entry, and every reference is looked up when its token is fired.  Both times the name stands in
brackets in the pattern.  So environments that agree on these names give the same result, and still
agree on them afterwards, since the pattern defines the same names in both.

* `Pattern.cites_nextToken`, `Pattern.nextToken_congr`: one token;
* `Pattern.inStep_fireUpTo`: a run over tokens keeps environments in step;
* `Pattern.parseFragment_eq_of_agreeOn`: a pattern depends on the names that it refers to.
-/

namespace MusicString.Pattern

open Environment Read

variable {σ τ : Type} {names : Set String}

/-! ### One token -/

theorem cites_nextToken (d : Dictionary) :
    Cites names (nextToken d) fun next => ∀ token ∈ next, token.2.RefersTo names := by
  refine .bind_of_keeps (fun f h => f.keeps_skipWhiteSpace h) fun _ => ?_
  refine .bind_of_keeps (fun f h => f.keeps_atEnd h) fun ended => ?_
  cases ended with
  | true => exact .none
  | false =>
    refine .position_bind fun start => (Grammar.cites_element d).bind fun element helement => ?_
    refine .bind_of_keeps (fun f _ => f.keeps_atBoundary) fun boundary => ?_
    cases boundary with
    | true => exact .pure fun _ htoken => Option.mem_some.1 htoken ▸ helement
    | false => exact .unexpected _

theorem nextToken_congr {d d' : Dictionary} (h : Dictionary.AgreeOn names d d') {c : Cursor}
    (hc : bracketedNames c.rest ⊆ names) : nextToken d c = nextToken d' c := by
  have hskip := skipWhiteSpace_apply c
  generalize (c.rest.takeWhile Text.isWhiteSpace).length = n at hskip
  have helement := Grammar.element_congr h ((bracketedNames_move c n).trans hc)
  simp only [nextToken, bind, EStateM.bind, hskip, atEnd_apply]
  cases (c.move n).rest.isEmpty with
  | true => rfl
  | false =>
    simp only [Bool.false_eq_true, ↓reduceIte, EStateM.bind, position_apply, helement]

/-! ### Runs -/

/-- Tokens are read and fired alike in environments that are in step, up to the first failure. -/
theorem inStep_fireUpTo (n : Nat) {c : Cursor} (hc : bracketedNames c.rest ⊆ names)
    {env : Environment σ} {other : Environment τ} (h : InStep names env other) :
    RunsInStep names (fireUpTo n c env) (fireUpTo n c other) := by
  induction n generalizing c env other with
  | zero => exact .ok h
  | succ n ih =>
    rw [fireUpTo_succ, fireUpTo_succ, ← nextToken_congr h.dictionary hc]
    rcases hnext : nextToken env.dictionary c with ⟨_ | ⟨start, element⟩, c'⟩ | ⟨e, c'⟩
    · exact .ok h
    · obtain ⟨helement, m, rfl⟩ := cites_nextToken env.dictionary hc hnext
      have hfire := inStep_fire h (helement _ rfl) start
      dsimp only
      generalize fire element start env = x at hfire
      generalize fire element start other = y at hfire
      cases hfire with
      | error hstep => exact .error hstep
      | @ok event env' other' hstep =>
        have hrest := ih ((bracketedNames_move c m).trans hc) hstep
        dsimp only
        generalize fireUpTo n (c.move m) env' = x at hrest
        generalize fireUpTo n (c.move m) other' = y at hrest
        cases hrest with
        | ok hstep => exact .ok hstep
        | error hstep => exact .error hstep
    · exact .error h

theorem inStep_parseFragment {text : String} (htext : bracketedNames text.toList ⊆ names)
    {env : Environment σ} {other : Environment τ} (h : InStep names env other) :
    RunsInStep names (parseFragment text env) (parseFragment text other) :=
  inStep_fireUpTo (c := .start text.toList) _ htext h

/--
**Only referenced names matter.**  In environments with the same defaults whose dictionaries agree
on the names that stand in brackets in a pattern, the pattern gives the same events or the same
failure, and leaves dictionaries that still agree on these names.
-/
theorem parseFragment_eq_of_agreeOn (text : String) {env : Environment σ} {other : Environment τ}
    (hdefaults : env.defaults = other.defaults) (hleft : env.NeverRejects)
    (hright : other.NeverRejects)
    (hagree : Dictionary.AgreeOn (bracketedNames text.toList) env.dictionary other.dictionary) :
    outcome (parseFragment text) env = outcome (parseFragment text) other ∧
      Dictionary.AgreeOn (bracketedNames text.toList)
        (finalState (parseFragment text) env).dictionary
        (finalState (parseFragment text) other).dictionary := by
  have hrun := inStep_parseFragment (Set.Subset.refl _) ⟨hagree, hdefaults, hleft, hright⟩
  exact ⟨hrun.outcome_eq, hrun.finalState.dictionary⟩

/-- A definition that the pattern does not refer to makes no difference. -/
theorem parseFragment_eq_of_agreeOn_voice :
    let entry : Entry := ⟨.int (.nearest 3), .voice⟩
    let env := ofDictionary (.ofList [("Solo", entry)]) ()
    let other := ofDictionary (.ofList [("Solo", entry), ("X", entry)]) ()
    env.defaults = other.defaults ∧ env.NeverRejects ∧ other.NeverRejects ∧
      Dictionary.AgreeOn (bracketedNames "$Y=5 [Solo]".toList) env.dictionary other.dictionary ∧
      env.dictionary.get? "X" ≠ other.dictionary.get? "X" ∧
      outcome (parseFragment "$Y=5 [Solo]") env = outcome (parseFragment "$Y=5 [Solo]") other := by
  intro entry env other
  have hdefaults : env.defaults = other.defaults := rfl
  have hleft : env.NeverRejects := neverRejects_of_listeners nofun
  have hright : other.NeverRejects := neverRejects_of_listeners nofun
  have hX : "X" ∉ bracketedNames "$Y=5 [Solo]".toList := fun h => absurd h.2 (by decide)
  have hagree : Dictionary.AgreeOn (bracketedNames "$Y=5 [Solo]".toList) env.dictionary
      other.dictionary := by
    intro name hname
    have hne : name ≠ "X" := fun h => hX (h ▸ hname)
    exact ((NameMap.get?_insert _ _ _ _).trans (if_neg hne)).symm
  exact ⟨hdefaults, hleft, hright, hagree, by decide,
    (parseFragment_eq_of_agreeOn "$Y=5 [Solo]" hdefaults hleft hright hagree).1⟩

end MusicString.Pattern

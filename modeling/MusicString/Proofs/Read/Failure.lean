import MusicString.Proofs.Read.Locality

/-!
# Failures of grammar

Almost every read fails for one reason only: the text does not fit the grammar.  A read of this kind
is *grammatical*.  The combinators hand this on, so that what fails for another reason can be told
from the few places that throw such a failure.

* `Read.bind_eq_error`: a sequence fails in its first part or in its second;
* `Read.Grammatical`, and one lemma for each read;
* `Read.moves_of_keeps`: a read that keeps to its text moves forward in it.
-/

namespace MusicString.Read

open Text

variable {α β : Type} {r : Read α}

theorem bind_eq_error {k : α → Read β} {c d : Cursor} {e : ParseError}
    (h : (r >>= k) c = .error e d) :
    r c = .error e d ∨ ∃ a c', r c = .ok a c' ∧ k a c' = .error e d := by
  change EStateM.bind r k c = .error e d at h
  unfold EStateM.bind at h
  split at h
  · exact .inr ⟨_, _, ‹_›, h⟩
  · cases h
    exact .inl ‹_›

/-- A read that keeps to frames after which nothing follows moves over some characters. -/
theorem moves_of_keeps (h : ∀ f : Frame, f.after = [] → f.Keeps r) {c d : Cursor} {a : α}
    (hr : r c = .ok a d) : ∃ n, d = c.move n := by
  have hc := h ⟨c.pos, c.rest, 0, [], rfl⟩ rfl (Frame.places_start _)
  rw [List.append_nil, Nat.add_zero, hr] at hc
  cases hc with
  | ok _ hplaces =>
    obtain ⟨n, -, hd, -⟩ := hplaces
    exact ⟨n, hd⟩

/-- A read that fails for reasons of grammar only. -/
def Grammatical (r : Read α) : Prop :=
  ∀ ⦃c : Cursor⦄ ⦃e : ParseError⦄ ⦃d : Cursor⦄, r c = .error e d → e.kind = .grammar

namespace Grammatical

theorem pure (a : α) : Grammatical (pure a : Read α) := by
  intro c e d h
  cases h

theorem bind {k : α → Read β} (hr : r.Grammatical) (hk : ∀ a, (k a).Grammatical) :
    (r >>= k).Grammatical := by
  intro c e d h
  rcases bind_eq_error h with h | ⟨a, c', -, h⟩
  · exact hr h
  · exact hk a h

theorem map (g : α → β) (hr : r.Grammatical) : (g <$> r).Grammatical := by
  rw [map_eq_pure_bind]
  exact hr.bind fun a => pure (g a)

/-- A computation that looks at the cursor first. -/
theorem get_bind {k : Cursor → Read α} (hk : ∀ c, (k c).Grammatical) :
    Grammatical (get >>= k) :=
  fun c _ _ h => hk c h

/-- A computation that goes back to a place first. -/
theorem set_bind (c : Cursor) (hr : r.Grammatical) : Grammatical (do set c; r) :=
  fun _ _ _ h => hr h

theorem throw (m : Mismatch) (position : Nat) :
    Grammatical (throw (.grammar m position) : Read α) := by
  intro c e d h
  cases h
  rfl

theorem unexpected (wanted : String) : Grammatical (Read.unexpected wanted : Read α) := by
  intro c e d h
  cases h
  rfl

/-- A choice by the next character. -/
theorem ite_peek {p : Char → Bool} {s : Read α} (hr : r.Grammatical) (hs : s.Grammatical) :
    Grammatical (do if (← Read.peek).any p then r else s) := by
  intro c e d h
  change (if c.peek.any p = true then r else s) c = .error e d at h
  split at h
  · exact hr h
  · exact hs h

end Grammatical

/-! ### Single characters and runs of characters -/

theorem grammatical_position : position.Grammatical := by
  intro c e d h
  cases h

theorem grammatical_eat (x : Char) : (eat x).Grammatical := by
  intro c e d h
  by_cases hpeek : c.peek = some x
  · rw [eat_of_peek hpeek] at h
    cases h
  · rw [eat_of_not_peek hpeek] at h
    cases h

theorem grammatical_expect (x : Char) : (expect x).Grammatical := by
  refine (grammatical_eat x).bind fun eaten => ?_
  cases eaten with
  | true => exact .pure ()
  | false => exact .unexpected _

theorem grammatical_run (p : Char → Bool) : (run p).Grammatical := by
  intro c e d h
  rw [run_apply] at h
  cases h

theorem grammatical_runUpTo (n : Nat) (p : Char → Bool) : (runUpTo n p).Grammatical := by
  intro c e d h
  rw [runUpTo_apply] at h
  cases h

theorem grammatical_token (delimiters : List Char) : (token false delimiters).Grammatical := by
  refine (grammatical_run _).bind fun taken => ?_
  intro c e d h
  cases h

theorem grammatical_chars (count : Option Nat) (strict : Bool) (classes : List CharClass)
    (set : List Char) : (chars count strict classes set).Grammatical := by
  refine .get_bind fun start => ?_
  cases count with
  | none => exact grammatical_run _
  | some n =>
    refine (grammatical_runUpTo n _).bind fun taken => ?_
    split
    · exact grammatical_position.bind fun _ => .set_bind start (.throw _ _)
    · exact .pure taken

/-! ### Numbers, references and expressions -/

theorem grammatical_decimalByte : decimalByte.Grammatical := by
  refine .get_bind fun start => (grammatical_run _).bind fun ds => ?_
  by_cases hds : ds = []
  · simp only [hds, ↓reduceIte]
    exact .unexpected _
  · simp only [hds, ↓reduceIte]
    split
    · exact .pure _
    · exact .set_bind start (.throw _ _)

theorem grammatical_hexByte : hexByte.Grammatical :=
  (grammatical_chars _ _ _ _).bind fun _ => .pure _

theorem grammatical_reference : reference.Grammatical := by
  refine .get_bind fun start => (grammatical_eat _).bind fun opened => ?_
  cases opened with
  | false => exact .pure none
  | true =>
    refine (grammatical_token _).bind fun name => (grammatical_eat _).bind fun closed => ?_
    cases closed with
    | false => exact .get_bind fun stop => .set_bind start (.throw _ _)
    | true =>
      by_cases hname : name = []
      · simp only [hname, ↓reduceIte]
        exact .set_bind start (.throw _ _)
      · simp only [hname, ↓reduceIte]
        exact .pure _

theorem grammatical_long (what : String) : (long what).Grammatical := by
  refine .get_bind fun start => (grammatical_eat _).bind fun negative => ?_
  refine (grammatical_run _).bind fun ds => ?_
  by_cases hds : ds = []
  · simp only [hds, ↓reduceIte]
    exact .set_bind start (.unexpected _)
  · simp only [hds, ↓reduceIte]
    split
    · exact .pure _
    · exact .set_bind start (.throw _ _)

theorem grammatical_integer : integer.Grammatical := by
  refine .get_bind fun start => (grammatical_long _).bind fun n => ?_
  split
  · exact .pure _
  · exact .set_bind start (.throw _ _)

theorem grammatical_fraction : fraction.Grammatical := by
  intro c e d h
  rw [fraction_apply] at h
  split at h
  · exact grammatical_run _ h
  · cases h

theorem grammatical_double : double.Grammatical := by
  refine .get_bind fun start => (grammatical_eat _).bind fun negative => ?_
  refine (grammatical_run _).bind fun whole => grammatical_fraction.bind fun part => ?_
  by_cases hnone : whole = [] ∧ part = []
  · simp only [hnone, and_self, ↓reduceIte]
    exact .set_bind start (.unexpected _)
  · simp only [hnone, ↓reduceIte]
    exact .pure _

theorem grammatical_expr {literal : Read α} (h : literal.Grammatical) :
    (expr literal).Grammatical := by
  refine grammatical_reference.bind fun name => ?_
  cases name with
  | some name => exact .pure _
  | none => exact h.bind fun _ => .pure _

theorem grammatical_byteExpr : byteExpr.Grammatical :=
  grammatical_expr grammatical_decimalByte

theorem grammatical_intExpr : intExpr.Grammatical :=
  grammatical_expr grammatical_integer

/-! ### Words, options and repetitions -/

theorem grammatical_keyword (vocabulary : List String) : (keyword vocabulary).Grammatical := by
  intro c e d h
  cases hw : longestMatch vocabulary c.rest with
  | some w =>
    rw [keyword_of_match hw] at h
    cases h
  | none =>
    rw [keyword_of_no_match hw] at h
    cases h
    rfl

theorem grammatical_word (vocabulary : List String) (delimiters : List Char) :
    (word vocabulary delimiters false).Grammatical := by
  refine .get_bind fun start => (grammatical_token _).bind fun taken => ?_
  dsimp only
  split
  · exact .pure _
  · exact .set_bind start (.throw _ _)

theorem Grammatical.optional (hr : r.Grammatical) : (Read.optional r).Grammatical := by
  intro c e d h
  unfold Read.optional at h
  split at h
  · cases h
  · split at h
    · cases h
    · cases h
      exact hr ‹_›

theorem Grammatical.repeated (hr : r.Grammatical) : (Read.repeated r).Grammatical := by
  have hupTo (n : Nat) : (repeatedUpTo r n).Grammatical := by
    induction n with
    | zero => exact .pure []
    | succ n ih =>
      intro c e d h
      unfold repeatedUpTo at h
      split at h
      · split at h
        · cases h
        · split at h
          · cases h
          · cases h
            exact ih ‹_›
      · split at h
        · cases h
        · cases h
          exact hr ‹_›
  exact fun c e d h => hupTo _ h

theorem Grammatical.iterate {step : α → Read (Option α)} (h : ∀ a, (step a).Grammatical) (a : α) :
    (Read.iterate step a).Grammatical := by
  have hupTo (n : Nat) (a : α) : (iterateUpTo step n a).Grammatical := by
    induction n generalizing a with
    | zero => exact .pure a
    | succ n ih =>
      refine (h a).bind fun next => ?_
      cases next with
      | some b => exact ih b
      | none => exact .pure a
  exact .get_bind fun c => hupTo _ a

end MusicString.Read

import MusicString.Proofs.Grammar.Element
import MusicString.Proofs.Read.Failure

/-!
# Reads that go back when they fail

A read that has taken characters and then fails sets the cursor back to its start first.  It does so
at each place where it can fail, since the reads that it is made of go back to their own starts
only: what was taken before them would be lost.

* `Read.RestoresTo`: every failure leaves the cursor at a given place;
* `Read.Restores`: every failure leaves the cursor where it was;
* one lemma for each read that restores the cursor.
-/

namespace MusicString.Read

open Text

variable {α β : Type} {r : Read α}

/-! ### Reads that do not fail -/

/-- A read that succeeds everywhere. -/
def NeverFails (r : Read α) : Prop :=
  ∀ c, ∃ a d, r c = .ok a d

theorem neverFails_eat (x : Char) : (eat x).NeverFails := by
  intro c
  by_cases hx : c.peek = some x
  · exact ⟨_, _, eat_of_peek hx⟩
  · exact ⟨_, _, eat_of_not_peek hx⟩

theorem neverFails_run (p : Char → Bool) : (run p).NeverFails :=
  fun c => ⟨_, _, run_apply p c⟩

theorem neverFails_runUpTo (n : Nat) (p : Char → Bool) : (runUpTo n p).NeverFails :=
  fun c => ⟨_, _, runUpTo_apply n p c⟩

theorem neverFails_token (consume : Bool) (delimiters : List Char) :
    (token consume delimiters).NeverFails := by
  intro c
  unfold token
  rw [bind_of_ok (run_apply _ c), bind_of_ok (peek_apply _)]
  split <;> exact ⟨_, _, rfl⟩

theorem neverFails_fraction : fraction.NeverFails := by
  intro c
  rw [fraction_apply]
  split
  · exact neverFails_run _ _
  · exact ⟨_, _, rfl⟩

/-! ### Going back to a given place -/

/-- A read that leaves the cursor at a given place if it fails, wherever it starts. -/
def RestoresTo (start : Cursor) (r : Read α) : Prop :=
  ∀ ⦃c : Cursor⦄ ⦃e : ParseError⦄ ⦃d : Cursor⦄, r c = .error e d → d = start

namespace RestoresTo

variable {start : Cursor}

theorem of_neverFails (h : r.NeverFails) : r.RestoresTo start := by
  intro c e d herror
  obtain ⟨a, d', hok⟩ := h c
  cases hok.symm.trans herror

theorem pure (a : α) : RestoresTo start (pure a : Read α) :=
  of_neverFails fun c => ⟨a, c, rfl⟩

theorem bind {k : α → Read β} (hr : r.RestoresTo start) (hk : ∀ a, (k a).RestoresTo start) :
    (r >>= k).RestoresTo start := by
  intro c e d herror
  rcases bind_eq_error herror with hfirst | ⟨a, c', -, hthen⟩
  · exact hr hfirst
  · exact hk a hthen

/-- What fails where it stands fails at the place that it was set back to. -/
theorem set_throw (e : ParseError) : RestoresTo start (do set start; throw e : Read α) := by
  intro c e' d herror
  cases herror
  rfl

theorem set_unexpected (wanted : String) :
    RestoresTo start (do set start; unexpected wanted : Read α) := by
  intro c e d herror
  cases herror
  rfl

end RestoresTo

/-! ### Going back to the start -/

/-- A read that leaves the cursor where it was if it fails. -/
def Restores (r : Read α) : Prop :=
  ∀ ⦃c : Cursor⦄ ⦃e : ParseError⦄ ⦃d : Cursor⦄, r c = .error e d → d = c

namespace Restores

theorem of_neverFails (h : r.NeverFails) : r.Restores :=
  fun _ _ _ herror => RestoresTo.of_neverFails h herror

/-- A read that keeps its start and goes back to it wherever it fails. -/
theorem of_get {k : Cursor → Read α} (h : ∀ start, (k start).RestoresTo start) :
    Restores (get >>= k) :=
  fun c _ _ herror => h c herror

/-- A sequence restores the cursor if its second part, when it fails, goes back to the start. -/
theorem bind {k : α → Read β} (hr : r.Restores)
    (hk : ∀ ⦃c d d' : Cursor⦄ ⦃a : α⦄ ⦃e : ParseError⦄,
      r c = .ok a d → k a d = .error e d' → d' = c) : (r >>= k).Restores := by
  intro c e d herror
  rcases bind_eq_error herror with hfirst | ⟨a, c', hfirst, hthen⟩
  · exact hr hfirst
  · exact hk hfirst hthen

theorem bind_pure (g : α → β) (hr : r.Restores) :
    Restores (do return g (← r)) := by
  refine hr.bind fun c d d' a e _ herror => ?_
  cases herror

theorem map (g : α → β) (hr : r.Restores) : (g <$> r).Restores := by
  rw [map_eq_pure_bind]
  exact hr.bind_pure g

/-- An option whose read takes nothing when it fails does not fail. -/
theorem optional_eq_ok (hr : r.Restores) (c : Cursor) :
    ∃ a d, Read.optional r c = .ok a d := by
  unfold Read.optional
  cases hc : r c with
  | ok a d => exact ⟨some a, d, rfl⟩
  | error e d => exact ⟨none, d, by simp [hr hc]⟩

/-- A repetition whose read takes nothing when it fails does not fail. -/
theorem repeatedUpTo_eq_ok (hr : r.Restores) (n : Nat) (c : Cursor) :
    ∃ as d, Read.repeatedUpTo r n c = .ok as d := by
  induction n generalizing c with
  | zero => exact ⟨[], c, rfl⟩
  | succ n ih =>
    unfold Read.repeatedUpTo
    cases hc : r c with
    | error e d => exact ⟨[], d, by simp [hr hc]⟩
    | ok a d =>
      by_cases hpos : d.pos = c.pos
      · exact ⟨[a], d, by simp [hpos]⟩
      · obtain ⟨as, d', hlater⟩ := ih d
        exact ⟨a :: as, d', by simp [hpos, hlater]⟩

theorem firstOfFrom {rs : List (Read α)} (h : ∀ r ∈ rs, r.Restores) (messages : List String) :
    (Read.firstOfFrom rs messages).Restores := by
  induction rs generalizing messages with
  | nil =>
    intro c e d herror
    cases herror
    rfl
  | cons r rs ih =>
    obtain ⟨hr, hrs⟩ := List.forall_mem_cons.1 h
    intro c e d herror
    unfold Read.firstOfFrom at herror
    cases hc : r c with
    | ok a d' =>
      rw [hc] at herror
      cases herror
    | error e' d' =>
      obtain rfl := hr hc
      simp only [hc, ↓reduceIte] at herror
      exact ih hrs _ herror

end Restores

/-! ### Characters and words -/

theorem restores_expect (x : Char) : (expect x).Restores := by
  refine (Restores.of_neverFails (neverFails_eat x)).bind fun c d d' eaten e heat herror => ?_
  cases eaten with
  | true => cases herror
  | false =>
    cases herror
    exact eat_eq_ok_false heat

/-- Too few characters are given back. -/
theorem restores_chars (count : Option Nat) (strict : Bool) (classes : List CharClass)
    (wanted : List Char) : (chars count strict classes wanted).Restores := by
  refine .of_get fun start => ?_
  cases count with
  | none => exact .of_neverFails (neverFails_run _)
  | some n =>
    refine .bind (.of_neverFails (neverFails_runUpTo n _)) fun taken => ?_
    split
    · exact .bind (.of_neverFails fun c => ⟨_, _, position_apply c⟩) fun stop => .set_throw _
    · exact .pure taken

theorem restores_keyword (vocabulary : List String) : (keyword vocabulary).Restores := by
  intro c e d h
  cases hw : longestMatch vocabulary c.rest with
  | some w =>
    rw [keyword_of_match hw] at h
    cases h
  | none =>
    rw [keyword_of_no_match hw] at h
    cases h
    rfl

theorem restores_word (vocabulary : List String) (delimiters : List Char) (consume : Bool) :
    (word vocabulary delimiters consume).Restores := by
  refine .of_get fun start => .bind (.of_neverFails (neverFails_token _ _)) fun taken => ?_
  dsimp only
  split
  · exact .pure _
  · exact .set_throw _

/-! ### Numbers, references and expressions -/

/-- Where no digit stands nothing was taken, and digits of no byte are given back. -/
theorem restores_decimalByte : decimalByte.Restores := by
  intro c e d herror
  unfold decimalByte at herror
  rw [bind_of_ok (get_apply c), digits, bind_of_ok (run_apply _ c)] at herror
  by_cases hds : c.rest.takeWhile Char.isDigit = []
  · simp only [hds, ↓reduceIte] at herror
    cases herror
    rfl
  · simp only [hds, ↓reduceIte] at herror
    generalize (Ranged.ofInt? _ : Option Byte) = fits at herror
    cases fits <;> cases herror
    rfl

theorem restores_hexByte : hexByte.Restores :=
  (restores_chars _ _ _ _).bind_pure _

theorem restores_byte (radix : Nat) : (byte radix).Restores := by
  unfold byte
  split
  · exact restores_decimalByte
  · exact restores_hexByte
  · intro c e d herror
    cases herror
    rfl

/-- A bracket is given back if it is not closed, and with the one that closes it if no name is. -/
theorem restores_reference : reference.Restores := by
  refine .of_get fun start => .bind (.of_neverFails (neverFails_eat _)) fun opened => ?_
  cases opened with
  | false => exact .pure none
  | true =>
    refine .bind (.of_neverFails (neverFails_token _ _)) fun name => ?_
    refine .bind (.of_neverFails (neverFails_eat _)) fun closed => ?_
    cases closed with
    | false => exact .bind (.of_neverFails fun c => ⟨c, c, get_apply c⟩) fun stop => .set_throw _
    | true =>
      by_cases hname : name = []
      · simp only [hname, ↓reduceIte]
        exact .set_throw _
      · simp only [hname, ↓reduceIte]
        exact .pure _

/-- A sign is given back if no digit follows, and with digits that are too large. -/
theorem restores_long (what : String) : (long what).Restores := by
  refine .of_get fun start => .bind (.of_neverFails (neverFails_eat _)) fun negative => ?_
  refine .bind (.of_neverFails (neverFails_run _)) fun ds => ?_
  by_cases hds : ds = []
  · simp only [hds, ↓reduceIte]
    exact .set_unexpected what
  · simp only [hds, ↓reduceIte]
    split
    · exact .pure _
    · exact .set_throw _

/-- A long that is not an int is given back after it was read. -/
theorem restores_integer : integer.Restores := by
  intro c e d herror
  unfold integer at herror
  rw [bind_of_ok (get_apply c)] at herror
  rcases bind_eq_error herror with hlong | ⟨n, c', -, hrange⟩
  · exact restores_long _ hlong
  · generalize (Ranged.ofInt? n.val : Option Integer) = fits at hrange
    cases fits <;> cases hrange
    rfl

/-- A sign is given back if neither a digit nor a fraction follows. -/
theorem restores_double : double.Restores := by
  refine .of_get fun start => .bind (.of_neverFails (neverFails_eat _)) fun negative => ?_
  refine .bind (.of_neverFails (neverFails_run _)) fun whole => ?_
  refine .bind (.of_neverFails neverFails_fraction) fun part => ?_
  by_cases hnone : whole = [] ∧ part = []
  · simp only [hnone, and_self, ↓reduceIte]
    exact .set_unexpected _
  · simp only [hnone, ↓reduceIte]
    exact .pure _

/-- Where there is no reference, nothing was taken before the number. -/
theorem restores_expr {literal : Read α} (h : literal.Restores) : (expr literal).Restores := by
  refine restores_reference.bind fun c d d' name e hname herror => ?_
  cases name with
  | some name => cases herror
  | none =>
    obtain rfl := Grammar.reference_eq_none hname
    exact h.bind_pure Expr.literal herror

theorem restores_byteExpr : byteExpr.Restores :=
  restores_expr restores_decimalByte

theorem restores_intExpr : intExpr.Restores :=
  restores_expr restores_integer

theorem restores_longExpr : longExpr.Restores :=
  restores_expr (restores_long _)

theorem restores_doubleExpr : doubleExpr.Restores :=
  restores_expr restores_double

end MusicString.Read

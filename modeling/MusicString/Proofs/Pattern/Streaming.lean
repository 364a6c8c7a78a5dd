import MusicString.Proofs.Pattern.Tokens

/-!
# Patterns in pieces

A pattern may be read in pieces that line breaks divide: reading a text, and then another one in
the environment that the first leaves, comes to the same as reading both as one text.  What is left
of the first text when a token ends does not matter for that token, and the second text is read as
if nothing stood before it, but for the positions of its failures.

* `postpone`: the same result for a text that stands later;
* `Pattern.fireUpTo_later`: a text is read alike wherever it stands;
* `Pattern.parseFragment_append`: two texts with a line break between them.
-/

namespace MusicString

/-- The same result for a text that stands `shift` characters later. -/
def postpone {τ α : Type} (shift : Nat) :
    EStateM.Result ParseError τ α → EStateM.Result ParseError τ α
  | .ok a s => .ok a s
  | .error e s => .error (e.later shift) s

namespace Environment

variable {σ : Type}

theorem offer_later (event : Event) (position shift : Nat)
    (listeners : List (ListenerId × Listener σ)) (s : σ) :
    offer event (position + shift) listeners s =
      postpone shift (offer event position listeners s) := by
  induction listeners generalizing s with
  | nil => rfl
  | cons entry rest ih =>
    unfold offer
    cases entry.2.deliver event s with
    | ok _ s' => exact ih s'
    | error reason s' => rfl

/-- Only the failures of a fired element depend on where it stands. -/
theorem fire_later (element : Element) (position shift : Nat) (env : Environment σ) :
    fire element (position + shift) env = postpone shift (fire element position env) := by
  unfold fire
  cases env.evaluate element with
  | error e => rfl
  | ok event =>
    simp only [offer_later]
    cases offer event position (env.apply event).listeners (env.apply event).state <;> rfl

end Environment

namespace Frame

open Text Read

variable {f : Frame}

theorem Reports.eq_later {e e' : ParseError} (he : f.Reports e e') (h : f.after = []) :
    e' = e.later f.shift := by
  obtain ⟨cause, position⟩ := e'
  simp only [ParseError.later, ParseError.mk.injEq]
  exact ⟨he.cause_eq h, he.position_eq⟩

theorem keeps_atEnd (h : f.after = []) : f.Keeps atEnd := by
  intro c c' hc
  rw [atEnd_apply, atEnd_apply, hc.rest_eq, h, List.append_nil]
  exact .ok rfl hc

theorem keeps_skipWhiteSpace (h : f.after = []) : f.Keeps skipWhiteSpace :=
  Keeps.bind (keeps_run (stops_of_nil h)) fun _ => Keeps.pure ()

theorem keeps_element (d : Dictionary) (h : f.after = []) : f.Keeps (Grammar.element d) :=
  fun _ _ hc => agrees_element d hc (.inl (stops_of_nil h))

/-- The next token of a text is the same wherever the text stands. -/
theorem follows_nextToken (d : Dictionary) (h : f.after = []) :
    f.Follows (fun next next' => next' = next.map fun token => (token.1 + f.shift, token.2))
      (Pattern.nextToken d) (Pattern.nextToken d) := by
  refine Keeps.bind (keeps_skipWhiteSpace h) fun _ => ?_
  refine Keeps.bind (keeps_atEnd h) fun ended => ?_
  cases ended with
  | true => exact Follows.pure rfl
  | false =>
    refine Follows.bind follows_position fun start start' hstart => ?_
    refine Keeps.bind (keeps_element d h) fun element => ?_
    refine Keeps.bind keeps_atBoundary fun boundary => ?_
    cases boundary with
    | true => exact Follows.pure (by rw [hstart.1]; rfl)
    | false => exact follows_unexpected _

end Frame

namespace Pattern

open Text Read

variable {σ : Type} {d : Dictionary} {k : Nat} {first : Char} {rest : List Char}

theorem nextToken_pos_lt {start : Nat} {element : Element} {c c' : Cursor}
    (h : nextToken d c = .ok (some (start, element)) c') : c.pos < c'.pos := by
  obtain ⟨_, c₁, hskip, h⟩ := bind_eq_ok h
  obtain ⟨ended, c₂, hended, h⟩ := bind_eq_ok h
  cases hended
  cases hrest : c₁.rest.isEmpty with
  | true =>
    rw [hrest] at h
    cases h
  | false =>
    rw [hrest] at h
    obtain ⟨_, c₂, hstart, h⟩ := bind_eq_ok h
    cases hstart
    obtain ⟨claimed, c₂, hread, h⟩ := bind_eq_ok h
    obtain ⟨boundary, c₃, hboundary, h⟩ := bind_eq_ok h
    cases hboundary
    have hlt := Grammar.takes_element d hread
    have hle := forward_of_keeps (fun f hf => Frame.keeps_skipWhiteSpace hf) hskip
    split at h
    · cases h
      exact Nat.lt_of_le_of_lt hle hlt
    · cases h

/-- A text is read alike wherever it stands, and however much fuel is left over. -/
theorem fireUpTo_later {n m : Nat} {text : List Char} (hn : text.length ≤ n)
    (hm : text.length ≤ m) (shift k : Nat) (env : Environment σ) :
    fireUpTo (m + 1) ⟨k + shift, text⟩ env = postpone shift (fireUpTo (n + 1) ⟨k, text⟩ env) := by
  induction n generalizing m text k env with
  | zero =>
    obtain rfl : text = [] := List.length_eq_zero_iff.1 (Nat.le_zero.1 hn)
    rfl
  | succ n ih =>
    have hnext : Frame.Agrees ⟨k, text, shift, [], rfl⟩ _ (nextToken env.dictionary ⟨k, text⟩)
        (nextToken env.dictionary ⟨k + shift, text ++ []⟩) :=
      Frame.follows_nextToken env.dictionary rfl (Frame.places_start _)
    rw [List.append_nil] at hnext
    rw [fireUpTo_succ, fireUpTo_succ]
    generalize hx : nextToken env.dictionary ⟨k, text⟩ = x at hnext
    generalize nextToken env.dictionary ⟨k + shift, text⟩ = x' at hnext
    cases hnext with
    | error he _ =>
      rw [he.eq_later rfl]
      rfl
    | @ok next next' c c' heq hplaces =>
      subst heq
      cases next with
      | none => rfl
      | some token =>
        obtain ⟨start, element⟩ := token
        have hlt : (Cursor.mk k text).pos < c.pos := nextToken_pos_lt hx
        have hlength := hplaces.pos_add_length
        obtain ⟨j, hj, rfl, rfl⟩ := hplaces
        dsimp only [Option.map] at hlt hlength hj ⊢
        rw [Environment.fire_later, List.append_nil]
        rcases Environment.fire element start env with ⟨event, env'⟩ | ⟨e, env'⟩
        · -- The token has taken a character, so both bounds hold for the rest of the text.
          obtain ⟨m, rfl⟩ : ∃ l, m = l + 1 := ⟨m - 1, by omega⟩
          have hrest : fireUpTo (m + 1) ⟨k + j + shift, text.drop j⟩ env' =
              postpone shift (fireUpTo (n + 1) ⟨k + j, text.drop j⟩ env') :=
            ih (by omega) (by omega) (k + j) env'
          dsimp only [postpone]
          rw [hrest]
          rcases fireUpTo (n + 1) ⟨k + j, text.drop j⟩ env' with ⟨events, env''⟩ | ⟨e, env''⟩ <;> rfl
        · rfl

/-! ### A line break between two texts -/

/--
What reading two texts one after the other, and both as one text, have in common; the second one
stands `shift` characters later.
-/
def Joins (shift : Nat) (first : EStateM.Result ParseError (Environment σ) (List Event))
    (second : Run σ (List Event)) (whole : EStateM.Result ParseError (Environment σ) (List Event)) :
    Prop :=
  match first with
  | .error e env => ∃ e', whole = .error e' env ∧ e'.kind = e.kind ∧ e'.position = e.position
  | .ok events env =>
    match second env with
    | .error e env' => whole = .error (e.later shift) env'
    | .ok later env' => whole = .ok (events ++ later) env'

theorem Joins.prepend {shift : Nat} {second : Run σ (List Event)}
    {first whole : EStateM.Result ParseError (Environment σ) (List Event)}
    (h : Joins shift first second whole) (event : Event) :
    Joins shift (prepend event first) second (prepend event whole) := by
  cases first with
  | error e env =>
    obtain ⟨e', rfl, hsame⟩ := h
    exact ⟨e', rfl, hsame⟩
  | ok events env =>
    simp only [Joins, Pattern.prepend] at h ⊢
    generalize second env = x at h ⊢
    cases x <;> rw [h]
    rfl

theorem goesOn_line_break (first : Char) : goesOn first '\n' = false := by
  unfold goesOn
  split <;> rfl

theorem takeWhile_line_break (first : Char) (rest q : List Char) :
    (rest ++ '\n' :: q).takeWhile (goesOn first) = rest.takeWhile (goesOn first) := by
  apply takeWhile_append_of_stop
  exact goesOn_line_break first

theorem dropWhile_line_break (first : Char) (rest q : List Char) :
    (rest ++ '\n' :: q).dropWhile (goesOn first) =
      rest.dropWhile (goesOn first) ++ '\n' :: q := by
  have h : (rest ++ '\n' :: q).takeWhile (goesOn first) ++
      (rest ++ '\n' :: q).dropWhile (goesOn first) =
      rest.takeWhile (goesOn first) ++ (rest.dropWhile (goesOn first) ++ '\n' :: q) := by
    rw [List.takeWhile_append_dropWhile, ← List.append_assoc, List.takeWhile_append_dropWhile]
  rw [takeWhile_line_break] at h
  exact List.append_cancel_left h

/-- Reading goes over a line break as if the text began after it. -/
theorem joins_fireUpTo (k : Nat) (p q : List Char) {n m : Nat} (hn : p.length ≤ n)
    (hm : (p ++ '\n' :: q).length ≤ m) (env : Environment σ) :
    Joins (k + p.length + 1) (fireUpTo (n + 1) ⟨k, p⟩ env) (fireUpTo (q.length + 1) (.start q))
      (fireUpTo (m + 1) ⟨k, p ++ '\n' :: q⟩ env) := by
  induction k, p using tokensFrom.induct generalizing n m env with
  | case1 k =>
    -- Nothing of the first text is left, and the line break is skipped.
    have hlater := fireUpTo_later (Nat.le_refl q.length) (Nat.le_of_succ_le hm) (k + 1) 0 env
    rw [List.nil_append, fireUpTo_blank (by decide), ← Nat.zero_add (k + 1), hlater,
      fireUpTo_succ, nextToken_nil]
    simp only [Joins, List.nil_append, Cursor.start, List.length_nil, Nat.add_zero]
    cases fireUpTo (q.length + 1) ⟨0, q⟩ env <;> rfl
  | case2 k first rest hfirst ih =>
    rw [List.cons_append, fireUpTo_blank hfirst, fireUpTo_blank hfirst]
    have h := ih (Nat.le_of_succ_le hn) (Nat.le_of_succ_le hm) env
    rwa [Nat.add_assoc k, Nat.add_comm 1] at h
  | case3 k first rest hfirst ih =>
    have hnext := nextToken_cons env.dictionary k (Bool.eq_false_iff.2 hfirst) rest
    have hnext' := nextToken_cons env.dictionary k (Bool.eq_false_iff.2 hfirst) (rest ++ '\n' :: q)
    -- The token ends before the line break, if not earlier, so it is the same in both texts.
    rw [takeWhile_line_break, dropWhile_line_break] at hnext'
    rw [List.cons_append, fireUpTo_succ, fireUpTo_succ]
    cases hread : Token.read ⟨k, first :: rest.takeWhile (goesOn first)⟩ env.dictionary with
    | error e =>
      rw [hread] at hnext hnext'
      obtain ⟨e₁, c₁, hnext, hkind, hposition⟩ := hnext
      obtain ⟨e₂, c₂, hnext', hkind', hposition'⟩ := hnext'
      rw [hnext, hnext']
      exact ⟨e₂, rfl, hkind'.trans hkind.symm, hposition'.trans hposition.symm⟩
    | ok element =>
      rw [hread] at hnext hnext'
      dsimp only at hnext hnext'
      rw [hnext, hnext']
      dsimp only
      cases hfire : Environment.fire element k env with
      | error e env' => exact ⟨e, rfl, rfl, rfl⟩
      | ok event env' =>
        have hlength : rest.length = (rest.takeWhile (goesOn first)).length +
            (rest.dropWhile (goesOn first)).length := by
          rw [← List.length_append, List.takeWhile_append_dropWhile]
        simp only [List.length_cons, List.length_append] at hn hm
        obtain ⟨n, rfl⟩ : ∃ l, n = l + 1 := ⟨n - 1, by omega⟩
        obtain ⟨m, rfl⟩ : ∃ l, m = l + 1 := ⟨m - 1, by omega⟩
        have h := ih (n := n) (m := m) (by omega) (by simp; omega) env'
        have hshift : k + 1 + (rest.takeWhile (goesOn first)).length +
            (rest.dropWhile (goesOn first)).length + 1 = k + (first :: rest).length + 1 := by
          rw [List.length_cons]
          omega
        rw [hshift] at h
        exact h.prepend event

/-- **A text, a line break and another text** are read as one text or one after the other. -/
theorem parseFragment_append (p q : String) (env : Environment σ) :
    Joins (p.length + 1) (parseFragment p env) (parseFragment q)
      (parseFragment (p ++ "\n" ++ q) env) := by
  have htext : (p ++ "\n" ++ q).toList = p.toList ++ '\n' :: q.toList := by simp
  have h := joins_fireUpTo 0 p.toList q.toList (Nat.le_refl _) (Nat.le_refl _) env
  rw [← htext, Nat.zero_add, String.length_toList] at h
  exact h

end Pattern

end MusicString

import MusicString.Proofs.Grammar.Element
import MusicString.Proofs.Pattern.Firing

/-!
# Patterns token by token

Where the tokens of a pattern stand can be told without reading any of them: a token that starts
with `#` goes up to the next line break, any other one up to the next white space.  This module
holds the tokens of a text, and the run that reads each token from its own characters alone and
fires it before it looks at the next one.

* `Pattern.tokensFrom`, `Pattern.Token.read`, `Pattern.runTokens`;
* `Pattern.nextToken_token`: the next token of a pattern is read as if it stood alone;
* `Pattern.parseFragment_eq_runTokens`: a pattern is read token by token.
-/

namespace MusicString

/-- The same failure in a text that stands `n` characters later. -/
def ParseError.later (e : ParseError) (n : Nat) : ParseError :=
  ⟨e.cause, e.position + n⟩

@[simp] theorem ParseError.position_later (e : ParseError) (n : Nat) :
    (e.later n).position = e.position + n := rfl

namespace Pattern

open Text Read

variable {σ : Type} {d : Dictionary} {k : Nat} {first : Char} {rest body after : List Char}

/-- A token: the number of characters before it, and its own characters. -/
structure Token where
  offset : Nat
  text : List Char

/-- Whether a token with the given first character goes on with `x`. -/
def goesOn (first x : Char) : Bool :=
  if first = '#' then x ≠ '\n' else !isWhiteSpace x

/-- The tokens of a text that `offset` characters precede. -/
def tokensFrom (offset : Nat) : List Char → List Token
  | [] => []
  | first :: rest =>
    if isWhiteSpace first then tokensFrom (offset + 1) rest
    else
      ⟨offset, first :: rest.takeWhile (goesOn first)⟩ ::
        tokensFrom (offset + 1 + (rest.takeWhile (goesOn first)).length)
          (rest.dropWhile (goesOn first))
termination_by text => text.length
decreasing_by
  · simp
  · exact Nat.lt_succ_of_le (List.dropWhile_suffix _).length_le

/-- The tokens of a text. -/
def tokens (text : String) : List Token :=
  tokensFrom 0 text.toList

/-- Reads a token from its own characters, all of which its element must take. -/
def Token.read (t : Token) (d : Dictionary) : Except ParseError Element :=
  match Grammar.element d (.start t.text) with
  | .ok element c =>
    if c.rest = [] then .ok element
    else .error ((c.unexpected "whitespace or end of input").later t.offset)
  | .error e _ => .error (e.later t.offset)

/-- What a run tells: its events, the environment it leaves, and the failure it stops at. -/
structure Report (σ : Type) where
  events : List Event
  env : Environment σ
  failure : Option ParseError

/-- Reads and fires tokens in order, each before the next one is looked at. -/
def runTokens : List Token → Environment σ → Report σ
  | [], env => ⟨[], env, none⟩
  | t :: later, env =>
    match t.read env.dictionary with
    | .error e => ⟨[], env, some e⟩
    | .ok element =>
      match Environment.fire element t.offset env with
      | .error e env' => ⟨env.fired element, env', some e⟩
      | .ok event env' =>
        let report := runTokens later env'
        { report with events := event :: report.events }

/-- A result that a report tells of; a failure is told of by its kind and position. -/
def Report.Tells (report : Report σ) :
    EStateM.Result ParseError (Environment σ) (List Event) → Prop
  | .ok events env => report = ⟨events, env, none⟩
  | .error e env =>
    report.env = env ∧
      ∃ e', report.failure = some e' ∧ e.kind = e'.kind ∧ e.position = e'.position

/--
A report with an event for each token, or up to a failure: the failure lies in the token that the
run stops at, and this token has an event only if a listener rejected it.
-/
def Report.Covers (report : Report σ) (tokens : List Token) : Prop :=
  match report.failure with
  | none => report.events.length = tokens.length
  | some e =>
    ∃ before t later, tokens = before ++ t :: later ∧
      t.offset ≤ e.position ∧ e.position ≤ t.offset + t.text.length ∧
      report.events.length = before.length + if e.kind = .listener then 1 else 0

/-! ### The next token -/

theorem nextToken_nil : nextToken d ⟨k, []⟩ = .ok none ⟨k, []⟩ := rfl

theorem nextToken_blank (h : isWhiteSpace first = true) :
    nextToken d ⟨k, first :: rest⟩ = nextToken d ⟨k + 1, rest⟩ := by
  have hskip : skipWhiteSpace ⟨k, first :: rest⟩ = skipWhiteSpace ⟨k + 1, rest⟩ := by
    simp only [skipWhiteSpace_apply, List.takeWhile_cons_of_pos h, List.length_cons]
    simp only [Cursor.move, List.drop_succ_cons, Nat.add_comm, Nat.add_left_comm]
  simp only [nextToken, bind, EStateM.bind, hskip]

theorem nextToken_start (h : isWhiteSpace first = false) :
    nextToken d ⟨k, first :: rest⟩ =
      match Grammar.element d ⟨k, first :: rest⟩ with
      | .error e c => .error e c
      | .ok element c =>
        if c.peek.all isWhiteSpace then .ok (some (k, element)) c
        else .error (c.unexpected "whitespace or end of input") c := by
  have hskip : skipWhiteSpace ⟨k, first :: rest⟩ = .ok () ⟨k, first :: rest⟩ := by
    simp [skipWhiteSpace_apply, h]
  simp only [nextToken, bind, EStateM.bind, hskip, atEnd_apply]
  rcases hread : Grammar.element d ⟨k, first :: rest⟩ with ⟨element, c⟩ | ⟨e, c⟩
  · cases hboundary : c.peek.all isWhiteSpace with
    | true =>
      simp [hread, EStateM.bind, hboundary]
      rfl
    | false => simp [hread, EStateM.bind, hboundary]
  · simp [hread, EStateM.bind]

/-! ### A token alone -/

theorem isWhiteSpace_of_not_goesOn {x : Char} (h : goesOn first x = false) :
    isWhiteSpace x = true := by
  unfold goesOn at h
  split at h
  · have hx : x = '\n' := by simpa using h
    rw [hx]
    decide
  · simpa using h

/-- A comment takes all characters of its token. -/
theorem element_comment (h : body.all (goesOn '#') = true) :
    Grammar.element d (.start ('#' :: body)) =
      .ok (.comment (String.ofList (trim body))) ⟨body.length + 1, []⟩ := by
  have hline : (body ++ []).takeWhile (· ≠ '\n') = body ++ [] :=
    List.takeWhile_append_of_pos (List.all_eq_true.1 h)
  rw [List.append_nil] at hline
  have hbody : Grammar.comment ⟨1, body⟩ =
      .ok (.comment (String.ofList (trim body))) ⟨body.length + 1, []⟩ := by
    simp only [Grammar.comment, restOfLine, bind, EStateM.bind, run_apply, hline]
    simp [Cursor.move, Nat.add_comm]
    rfl
  apply Grammar.element_of_claim
  rw [Grammar.rules, Grammar.firstClaim_of_not_peek (by simp [Cursor.peek, Cursor.start])]
  exact Grammar.firstClaim_of_peek rfl hbody

theorem Token.read_error {t : Token} {e : ParseError} (h : t.read d = .error e) :
    e.kind ≠ .listener ∧ t.offset ≤ e.position ∧ e.position ≤ t.offset + t.text.length := by
  have hagree : Frame.Agrees ⟨0, t.text, 0, [], rfl⟩ Eq (Grammar.element d ⟨0, t.text⟩)
      (Grammar.element d ⟨0, t.text ++ []⟩) :=
    Frame.agrees_element d (Frame.places_start _) (.inl (Frame.stops_of_nil rfl))
  have hbounds {e : ParseError} (he : Frame.Reports ⟨0, t.text, 0, [], rfl⟩ e e) :
      (e.later t.offset).kind ≠ .listener ∧ t.offset ≤ (e.later t.offset).position ∧
        (e.later t.offset).position ≤ t.offset + t.text.length := by
    have hle := he.le_end
    simp only [Nat.zero_add] at hle
    refine ⟨he.kind_ne, ?_, ?_⟩ <;> rw [ParseError.position_later] <;> omega
  unfold read at h
  simp only [Cursor.start] at h
  rw [List.append_nil] at hagree
  generalize Grammar.element d ⟨0, t.text⟩ = x at h hagree
  cases hagree with
  | error he _ =>
    cases h
    exact hbounds he
  | ok _ hplaces =>
    dsimp only at h
    split at h <;> cases h
    exact hbounds (hplaces.reports_unexpected _)

/-- What an element leaves of its token does not start with white space. -/
theorem not_blank_after_element {element : Element} {c : Cursor} {n : Nat} {y : Char}
    (hbody : body.all (goesOn first) = true)
    (h : Grammar.element d ⟨0, first :: body⟩ = .ok element c)
    (hrest : c.rest = body.drop n) (hy : c.peek = some y) : isWhiteSpace y = false := by
  -- A comment leaves nothing, and there is no white space in any other token.
  have hmark : first ≠ '#' := by
    rintro rfl
    rw [← Cursor.start, element_comment hbody] at h
    cases h
    cases hy
  have hmem : y ∈ body := by
    rw [Cursor.peek, hrest] at hy
    exact List.mem_of_mem_drop (List.mem_of_mem_head? hy)
  simpa [goesOn, hmark] using List.all_eq_true.1 hbody y hmem

/-- The next token of a pattern is read as if it stood alone. -/
theorem nextToken_token (d : Dictionary) (k : Nat) (hfirst : isWhiteSpace first = false)
    (hbody : body.all (goesOn first) = true) (hafter : after.head?.any (goesOn first) = false) :
    match (Token.mk k (first :: body)).read d with
    | .ok element =>
      nextToken d ⟨k, first :: body ++ after⟩ = .ok (some (k, element)) ⟨k + 1 + body.length, after⟩
    | .error e =>
      ∃ e' c, nextToken d ⟨k, first :: body ++ after⟩ = .error e' c ∧
        e'.kind = e.kind ∧ e'.position = e.position := by
  have hclosed : after.head?.all isWhiteSpace = true := by
    cases hx : after.head? with
    | none => rfl
    | some x =>
      rw [hx] at hafter
      exact isWhiteSpace_of_not_goesOn hafter
  -- The frame is the token alone, in the pattern with the rest of it.
  have hcomment : Frame.Stops ⟨0, first :: body, k, after, hclosed⟩ (· ≠ '\n') ∨
      (Cursor.mk 0 (first :: body)).peek ≠ some '#' := by
    by_cases h : first = '#'
    · rw [h] at hafter
      exact .inl hafter
    · exact .inr (by simpa [Cursor.peek] using h)
  have hagree : Frame.Agrees ⟨0, first :: body, k, after, hclosed⟩ Eq
      (Grammar.element d ⟨0, first :: body⟩)
      (Grammar.element d ⟨0 + k, first :: body ++ after⟩) :=
    Frame.agrees_element d (Frame.places_start _) hcomment
  have htakes := Grammar.takes_element d (c := ⟨0, first :: body⟩)
  rw [Nat.zero_add] at hagree
  rw [List.cons_append, nextToken_start hfirst, ← List.cons_append]
  simp only [Token.read, Cursor.start]
  generalize hx : Grammar.element d ⟨0, first :: body⟩ = x at hagree htakes
  generalize Grammar.element d ⟨k, first :: body ++ after⟩ = x' at hagree
  cases hagree with
  | error he _ => exact ⟨_, _, rfl, he.kind_eq, he.position_eq⟩
  | @ok element _ c c' heq hplaces =>
    subst heq
    have hlt : c.pos > 0 := htakes rfl
    obtain ⟨n, hn, rfl, rfl⟩ := hplaces
    dsimp only at hn hlt hx ⊢
    rw [Nat.zero_add] at hlt hx ⊢
    obtain ⟨m, rfl⟩ : ∃ m, n = m + 1 := ⟨n - 1, by omega⟩
    rw [List.drop_succ_cons] at hx ⊢
    cases hrest : body.drop m with
    | nil =>
      have hlength : m = body.length :=
        Nat.le_antisymm (Nat.le_of_succ_le_succ hn) (List.drop_eq_nil_iff.1 hrest)
      have hboundary : (Cursor.mk (m + 1 + k) after).peek.all isWhiteSpace = true := hclosed
      simp only [↓reduceIte, List.nil_append]
      rw [if_pos hboundary, hlength, Nat.add_comm _ k, Nat.add_assoc, Nat.add_comm 1]
    | cons y rest =>
      have hy : isWhiteSpace y = false :=
        not_blank_after_element hbody hx rfl (by rw [Cursor.peek, hrest]; rfl)
      have hboundary : ¬ (Cursor.mk (m + 1 + k) (y :: rest ++ after)).peek.all isWhiteSpace = true :=
        Bool.eq_false_iff.1 hy
      rw [if_neg hboundary]
      exact ⟨_, _, rfl, rfl, rfl⟩

theorem nextToken_cons (d : Dictionary) (k : Nat) (hfirst : isWhiteSpace first = false)
    (rest : List Char) :
    match (Token.mk k (first :: rest.takeWhile (goesOn first))).read d with
    | .ok element =>
      nextToken d ⟨k, first :: rest⟩ = .ok (some (k, element))
        ⟨k + 1 + (rest.takeWhile (goesOn first)).length, rest.dropWhile (goesOn first)⟩
    | .error e =>
      ∃ e' c, nextToken d ⟨k, first :: rest⟩ = .error e' c ∧
        e'.kind = e.kind ∧ e'.position = e.position := by
  have hafter : (rest.dropWhile (goesOn first)).head?.any (goesOn first) = false := by
    have h := List.head?_dropWhile_not (goesOn first) rest
    cases hx : (rest.dropWhile (goesOn first)).head? with
    | none => rfl
    | some x =>
      rw [hx] at h
      simpa using h
  have h := nextToken_token d k hfirst (List.all_takeWhile (l := rest)) hafter
  rwa [List.cons_append, List.takeWhile_append_dropWhile] at h

/-! ### Token by token -/

theorem fireUpTo_blank (h : isWhiteSpace first = true) (n : Nat) (env : Environment σ) :
    fireUpTo (n + 1) ⟨k, first :: rest⟩ env = fireUpTo (n + 1) ⟨k + 1, rest⟩ env := by
  rw [fireUpTo_succ, nextToken_blank h, fireUpTo_succ]

theorem firedUpTo_blank (h : isWhiteSpace first = true) (n : Nat) (env : Environment σ) :
    firedUpTo (n + 1) ⟨k, first :: rest⟩ env = firedUpTo (n + 1) ⟨k + 1, rest⟩ env := by
  rw [firedUpTo, nextToken_blank h, firedUpTo]

theorem Report.Tells.prepend {report : Report σ}
    {result : EStateM.Result ParseError (Environment σ) (List Event)} (h : report.Tells result)
    (event : Event) :
    Report.Tells { report with events := event :: report.events } (prepend event result) := by
  cases result with
  | ok events env =>
    cases h
    rfl
  | error e env => exact h

/-- Reading a text with enough fuel goes token by token. -/
theorem tells_fireUpTo (k : Nat) (text : List Char) {n : Nat} (hn : text.length ≤ n)
    (env : Environment σ) :
    (runTokens (tokensFrom k text) env).Tells (fireUpTo (n + 1) ⟨k, text⟩ env) ∧
      firedUpTo (n + 1) ⟨k, text⟩ env = (runTokens (tokensFrom k text) env).events := by
  induction k, text using tokensFrom.induct generalizing n env with
  | case1 k =>
    rw [fireUpTo_succ, firedUpTo, tokensFrom, nextToken_nil]
    exact ⟨rfl, rfl⟩
  | case2 k first rest hfirst ih =>
    rw [fireUpTo_blank hfirst, firedUpTo_blank hfirst, tokensFrom, if_pos hfirst]
    exact ih (Nat.le_of_succ_le hn) env
  | case3 k first rest hfirst ih =>
    have hnext := nextToken_cons env.dictionary k (Bool.eq_false_iff.2 hfirst) rest
    rw [fireUpTo_succ, firedUpTo, tokensFrom, if_neg hfirst, runTokens]
    cases hread : Token.read ⟨k, first :: rest.takeWhile (goesOn first)⟩ env.dictionary with
    | error e =>
      rw [hread] at hnext
      obtain ⟨e', c, hnext, hkind, hposition⟩ := hnext
      rw [hnext]
      exact ⟨⟨rfl, e, rfl, hkind, hposition⟩, rfl⟩
    | ok element =>
      rw [hread] at hnext
      dsimp only at hnext ⊢
      rw [hnext]
      dsimp only
      cases hfire : Environment.fire element k env with
      | error e env' => exact ⟨⟨rfl, e, rfl, rfl, rfl⟩, rfl⟩
      | ok event env' =>
        -- The token has a character, so the fuel lasts for what follows it.
        obtain ⟨m, rfl⟩ : ∃ m, n = m + 1 := ⟨n - 1, by simp at hn; omega⟩
        have hle : (rest.dropWhile (goesOn first)).length ≤ m :=
          Nat.le_trans (List.dropWhile_suffix _).length_le (Nat.le_of_succ_le_succ hn)
        obtain ⟨htells, hevents⟩ := ih hle env'
        exact ⟨htells.prepend event, congrArg _ hevents⟩

/-- A run has an event for each token before the one it fails at. -/
theorem covers_runTokens (tokens : List Token) (env : Environment σ) :
    (runTokens tokens env).Covers tokens := by
  induction tokens generalizing env with
  | nil => rfl
  | cons t later ih =>
    rw [runTokens]
    cases hread : t.read env.dictionary with
    | error e =>
      obtain ⟨hkind, hstart, hend⟩ := Token.read_error hread
      exact ⟨[], t, later, rfl, hstart, hend, by simp [hkind]⟩
    | ok element =>
      dsimp only
      rcases Environment.fire_cases element t.offset env with
        ⟨e, heval, hfire⟩ | ⟨event, heval, hfire | ⟨id, reason, hfire⟩⟩ <;> rw [hfire]
      · have hkind : (ParseError.evaluation e t.offset).kind ≠ .listener := e.kind_ne_listener
        refine ⟨[], t, later, rfl, Nat.le_refl _, Nat.le_add_right _ _, ?_⟩
        simp [Environment.fired_of_error heval, hkind]
      · have hlater := ih (env.receive event)
        unfold Report.Covers at hlater ⊢
        dsimp only
        cases hfailure : (runTokens later (env.receive event)).failure with
        | none =>
          rw [hfailure] at hlater
          exact congrArg (· + 1) hlater
        | some e =>
          rw [hfailure] at hlater
          obtain ⟨before, t', later', rfl, hstart, hend, hlength⟩ := hlater
          refine ⟨t :: before, t', later', rfl, hstart, hend, ?_⟩
          simp only [List.length_cons, hlength]
          omega
      · refine ⟨[], t, later, rfl, Nat.le_refl _, Nat.le_add_right _ _, ?_⟩
        simp [Environment.fired_of_ok heval, ParseError.kind, Cause.kind]

/-- **A pattern is read token by token.** -/
theorem parseFragment_eq_runTokens (text : String) (env : Environment σ) :
    (runTokens (tokens text) env).Tells (parseFragment text env) ∧
      fired text env = (runTokens (tokens text) env).events ∧
      (runTokens (tokens text) env).Covers (tokens text) := by
  obtain ⟨htells, hevents⟩ := tells_fireUpTo 0 text.toList (Nat.le_refl _) env
  exact ⟨htells, hevents, covers_runTokens (tokens text) env⟩

end Pattern

end MusicString

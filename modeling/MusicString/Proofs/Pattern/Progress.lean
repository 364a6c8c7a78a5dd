import MusicString.Proofs.Grammar.RuleOrder

/-!
# Progress through a pattern

The loop over the tokens of a pattern counts nothing: it reads and fires tokens until only white
space is left or something fails.  It comes to an end since every element takes a character that is
not white space, and so it fires at most as many events as there are such characters.  The loops
inside a token end for the same reason.

* `Read.LoopsFrom`: steps as a loop without a bound, and `Grammar.TokenLoops`: those of the grammar;
* `Pattern.Runs`: the loop over the tokens without a bound;
* `Pattern.countP_nextToken`: what a token takes;
* `Pattern.runs_iff`, `Pattern.Runs.length_le`: the loop ends, and how many events it fires;
* `Pattern.rules_progress`: from the rules to the end of the loop.
-/

namespace MusicString

/-! ### Loops inside a token -/

namespace Read

variable {α : Type} {step : α → Read (Option α)}

/-- A loop that nothing bounds: it goes on until a step gives no new value or fails. -/
inductive LoopsFrom (step : α → Read (Option α)) :
    α → Cursor → EStateM.Result ParseError Cursor α → Prop
  | stop {a : α} {c d : Cursor} : step a c = .ok none d → LoopsFrom step a c (.ok a d)
  | fail {a : α} {c d : Cursor} {e : ParseError} :
    step a c = .error e d → LoopsFrom step a c (.error e d)
  | next {a b : α} {c d : Cursor} {result : EStateM.Result ParseError Cursor α} :
    step a c = .ok (some b) d → LoopsFrom step b d result → LoopsFrom step a c result

theorem loopsFrom_iterateUpTo (hwithin : ∀ a, (step a).Within) (hstep : ∀ a, (step a).Advances)
    {n : Nat} {c : Cursor} (hn : c.rest.length < n) (a : α) :
    LoopsFrom step a c (iterateUpTo step n a c) := by
  induction n generalizing c a with
  | zero => exact absurd hn (Nat.not_lt_zero _)
  | succ n ih =>
    rw [iterateUpTo_succ]
    cases hc : step a c with
    | error e d => exact .fail hc
    | ok next d =>
      cases next with
      | none => exact .stop hc
      | some b =>
        have hlt := hstep a hc
        have hlength := ((hwithin a).of_ok hc).pos_add_length
        exact .next hc (ih (by omega) b)

/-- Steps that take a character each come to an end before their bound is met. -/
theorem loopsFrom_iterate (hkeeps : ∀ a, ∀ f : Frame, f.after = [] → f.Keeps (step a))
    (hstep : ∀ a, (step a).Advances) (a : α) (c : Cursor) :
    LoopsFrom step a c (iterate step a c) :=
  loopsFrom_iterateUpTo (fun a => within_of_keeps (hkeeps a)) hstep (Nat.lt_succ_self _) a

end Read

namespace Grammar

open Read

/-- The loops of the grammar come to the ends that they have without a bound. -/
structure TokenLoops : Prop where
  velocities : ∀ note c, LoopsFrom velocity note c (iterate velocity note c)
  joints : ∀ notes c, LoopsFrom joined notes c (iterate joined notes c)
  bytes : ∀ bytes c, LoopsFrom nextByte bytes c (iterate nextByte bytes c)
  hexPairs : ∀ c, Loops hexByte c (repeated hexByte c)

theorem tokenLoops : TokenLoops where
  velocities := loopsFrom_iterate (fun note f _ => f.keeps_velocity note) Frame.advances_velocity
  joints := loopsFrom_iterate (fun notes f _ => f.keeps_joined notes) Frame.advances_joined
  bytes := loopsFrom_iterate (fun bytes f _ => f.keeps_nextByte bytes) Frame.advances_nextByte
  hexPairs := loops_repeated (within_of_keeps fun f _ => f.keeps_hexByte)

end Grammar

/-! ### The loop over the tokens -/

namespace Pattern

open Text Read Grammar Environment

variable {σ : Type} {c c' : Cursor} {env env' : Environment σ} {events : List Event}
  {result : EStateM.Result ParseError (Environment σ) (List Event)}

/-- The loop over the tokens from a cursor on: the events that it fires, and its result. -/
inductive Runs : Cursor → Environment σ → List Event →
    EStateM.Result ParseError (Environment σ) (List Event) → Prop
  | finish {c c' : Cursor} {env : Environment σ} :
    nextToken env.dictionary c = .ok none c' → Runs c env [] (.ok [] env)
  | unread {c c' : Cursor} {env : Environment σ} {e : ParseError} :
    nextToken env.dictionary c = .error e c' → Runs c env [] (.error e env)
  | unfired {c c' : Cursor} {env env' : Environment σ} {start : Nat} {element : Element}
      {e : ParseError} :
    nextToken env.dictionary c = .ok (some (start, element)) c' →
    fire element start env = .error e env' → Runs c env (env.fired element) (.error e env')
  | next {c c' : Cursor} {env env' : Environment σ} {start : Nat} {element : Element}
      {event : Event} {events : List Event}
      {result : EStateM.Result ParseError (Environment σ) (List Event)} :
    nextToken env.dictionary c = .ok (some (start, element)) c' →
    fire element start env = .ok event env' → Runs c' env' events result →
    Runs c env (event :: events) (prepend event result)

/-- A token takes a character that is not white space. -/
theorem countP_nextToken {d : Dictionary} {k start : Nat} {text : List Char} {element : Element}
    (h : nextToken d ⟨k, text⟩ = .ok (some (start, element)) c') :
    c'.rest.countP (! isWhiteSpace ·) < text.countP (! isWhiteSpace ·) := by
  induction text generalizing k with
  | nil =>
    rw [nextToken_nil] at h
    cases h
  | cons first rest ih =>
    cases hfirst : isWhiteSpace first with
    | true =>
      rw [nextToken_blank hfirst] at h
      rw [List.countP_cons_of_neg (by simp [hfirst])]
      exact ih h
    | false =>
      rw [nextToken_start hfirst] at h
      split at h
      · cases h
      · next hread =>
        split at h
        · cases h
          obtain ⟨n, hpos, -, rfl⟩ := moves_element hread
          obtain ⟨m, rfl⟩ := Nat.exists_eq_succ_of_ne_zero (Nat.pos_iff_ne_zero.1 hpos)
          rw [List.countP_cons_of_pos (by simp [hfirst])]
          exact Nat.lt_succ_of_le ((List.drop_sublist m rest).countP_le)
        · cases h

/-- The bounded loop is a run of the loop that nothing bounds, as it comes to an end first. -/
theorem runs_fireUpTo {n : Nat} (hn : c.rest.countP (! isWhiteSpace ·) < n)
    (env : Environment σ) : Runs c env (firedUpTo n c env) (fireUpTo n c env) := by
  induction n generalizing c env with
  | zero => exact absurd hn (Nat.not_lt_zero _)
  | succ n ih =>
    rw [fireUpTo_succ, firedUpTo]
    cases hread : nextToken env.dictionary c with
    | error e c' => exact .unread hread
    | ok token c' =>
      cases token with
      | none => exact .finish hread
      | some token =>
        obtain ⟨start, element⟩ := token
        dsimp only
        cases hfire : fire element start env with
        | error e env' => exact .unfired hread hfire
        | ok event env' =>
          have hlt := countP_nextToken hread
          exact .next hread hfire (ih (by omega) env')

/-- A run of the loop that nothing bounds ends as the bounded loop does. -/
theorem Runs.eq_fireUpTo (h : Runs c env events result) {n : Nat}
    (hn : c.rest.countP (! isWhiteSpace ·) ≤ n) :
    events = firedUpTo (n + 1) c env ∧ result = fireUpTo (n + 1) c env := by
  induction h generalizing n with
  | finish hread => simp only [fireUpTo_succ, firedUpTo, hread, and_self]
  | unread hread => simp only [fireUpTo_succ, firedUpTo, hread, and_self]
  | unfired hread hfire => simp only [fireUpTo_succ, firedUpTo, hread, hfire, and_self]
  | next hread hfire _ ih =>
    have hlt := countP_nextToken hread
    obtain ⟨m, rfl⟩ : ∃ m, n = m + 1 := ⟨n - 1, by omega⟩
    obtain ⟨hevents, hresult⟩ := ih (n := m) (by omega)
    rw [fireUpTo_succ, firedUpTo]
    simp only [hread, hfire, hevents, hresult, and_self]

/-- Every event takes a token. -/
theorem Runs.length_le (h : Runs c env events result) :
    events.length ≤ c.rest.countP (! isWhiteSpace ·) := by
  induction h with
  | finish | unread => exact Nat.zero_le _
  | @unfired c c' env env' start element e hread hfire =>
    have hlt := countP_nextToken hread
    have hone : (env.fired element).length ≤ 1 := by
      unfold Environment.fired
      cases (env.evaluate element).toOption <;> simp
    omega
  | next hread hfire _ ih =>
    have hlt := countP_nextToken hread
    rw [List.length_cons]
    omega

/-- The loop over the tokens of a text ends, with the result of reading the text. -/
theorem runs_iff (text : String) :
    Runs (.start text.toList) env events result ↔
      events = fired text env ∧ result = parseFragment text env := by
  have hle : text.toList.countP (! isWhiteSpace ·) ≤ text.toList.length := List.countP_le_length
  constructor
  · exact fun h => h.eq_fireUpTo hle
  · rintro ⟨rfl, rfl⟩
    exact runs_fireUpTo (Nat.lt_succ_of_le hle) env

/--
**Progress.**  A rule that declines leaves the cursor where it was.  At most one rule claims a
token, except that at a bracket the rules for lone references and for notes both may, so the rules
can be tried in any order that keeps these two.  An element takes at least one character and none
beyond the text, and the loops inside a token end.  So the loop over the tokens of a text ends, too,
with the result of reading the text, after at most as many events as the text has characters that
are not white space.
-/
theorem rules_progress :
    (∀ rule ∈ rules, ∀ (d : Dictionary) (c c' : Cursor),
      rule.read d c = .ok none c' → c' = c) ∧
    (∀ (d : Dictionary) (c : Cursor), rules.countP (·.claims d c) ≤ 1 ∨
      c.peek = some '[' ∧ rules.filter (·.claims d c) = [referenceRule, noteRule]) ∧
    (∀ order : List TokenRule, order.Perm rules → [referenceRule, noteRule].Sublist order →
      ∀ (d : Dictionary) (c : Cursor), SameButWording (elementBy order d c) (element d c)) ∧
    (∀ (d : Dictionary) (c c' : Cursor) (e : Element), element d c = .ok e c' →
      ∃ n, 0 < n ∧ n ≤ c.rest.length ∧ c' = c.move n) ∧
    TokenLoops ∧
    ∀ (text : String) (env : Environment σ),
      (∀ events result, Runs (.start text.toList) env events result ↔
        events = fired text env ∧ result = parseFragment text env) ∧
      (fired text env).length ≤ text.toList.countP (! isWhiteSpace ·) := by
  refine ⟨fun rule hrule d c c' h => declines_of_mem_rules hrule h, claims_rules,
    fun order hperm hkeeps => sameButWording_elementBy hperm hkeeps,
    fun d c c' e => moves_element, tokenLoops, fun text env => ⟨fun _ _ => runs_iff text, ?_⟩⟩
  exact ((runs_iff text).2 ⟨rfl, rfl⟩).length_le

theorem rules_progress_reversed :
    let bracket : Cursor := .start "[60]w V9".toList
    let voice : Cursor := .start "V9".toList
    let order := markRules.reverse ++ [referenceRule, noteRule]
    (referenceRule ∈ rules ∧
      ∃ c', referenceRule.read .empty bracket = .ok none c' ∧ c' = bracket) ∧
    (order.Perm rules ∧ [referenceRule, noteRule].Sublist order ∧
      SameButWording (elementBy order .empty bracket) (element .empty bracket)) ∧
    ∃ c' e, element .empty voice = .ok e c' ∧
      ∃ n, 0 < n ∧ n ≤ voice.rest.length ∧ c' = voice.move n := by
  intro bracket voice order
  obtain ⟨hdeclines, -, horder, hmoves, -⟩ := rules_progress (σ := Unit)
  have hmem : referenceRule ∈ rules := List.mem_append_right markRules List.mem_cons_self
  have hread : referenceRule.read .empty bracket = .ok none bracket := rfl
  have hvoice : element .empty voice = .ok (.voice (.literal (.nearest 9))) (voice.move 2) := rfl
  have hperm : order.Perm rules := (List.reverse_perm markRules).append_right _
  have hkeeps : [referenceRule, noteRule].Sublist order := List.sublist_append_right _ _
  exact ⟨⟨hmem, _, hread, hdeclines _ hmem _ _ _ hread⟩,
    ⟨hperm, hkeeps, horder order hperm hkeeps _ _⟩, _, _, hvoice, hmoves _ _ _ _ hvoice⟩

end Pattern

end MusicString

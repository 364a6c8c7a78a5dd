import MusicString.Proofs.Read.Spelling

/-!
# Spans of characters

Two reads take characters one after the other, and all other reads rest on them.  A token goes up
to the first character that stops it, a delimiter or white space, or else to the end of the text.
Wanted characters are taken as long as they follow, but at most in a given number.

* `Cursor.GoesTo`: the characters up to the first stop, and the place of the stop;
* `Text.LongestSpan`: the longest start of a text whose characters all have a property;
* `Read.token_goesTo`, `Read.chars_eq`: what the two reads take;
* `Read.tokenLoop`, `Read.spanLoop`: the same character by character, with a test before each;
* `Read.spans_longest`: both reads, at every place and with all their options.
-/

namespace MusicString

/-! ### Spans -/

namespace Text

/-- The longest start of a text whose characters all have a property. -/
structure LongestSpan (p : Char → Prop) (text span : List Char) : Prop where
  starts : span <+: text
  all : ∀ x ∈ span, p x
  longest : ∀ t, t <+: text → (∀ x ∈ t, p x) → t.length ≤ span.length

theorem longestSpan_takeWhile (p : Char → Bool) (text : List Char) :
    LongestSpan (fun x => p x = true) text (text.takeWhile p) where
  starts := List.takeWhile_prefix p
  all x hx := List.mem_takeWhile_imp hx
  longest t ht hall := by
    obtain ⟨more, rfl⟩ := ht
    rw [List.takeWhile_append_of_pos hall, List.length_append]
    exact Nat.le_add_right _ _

/-- At most the first `count` characters of a span. -/
def cutAt (count : Option Nat) (span : List Char) : List Char :=
  match count with
  | none => span
  | some n => span.take n

end Text

/--
From the cursor on, the characters of `span` go up to the first one that is a stop, or to the end;
`stop` is the place where they end.
-/
structure Cursor.GoesTo (c : Cursor) (isStop : Char → Prop) (span : List Char) (stop : Cursor) :
    Prop where
  place : stop = c.move span.length
  rest_eq : c.rest = span ++ stop.rest
  before : ∀ x ∈ span, ¬ isStop x
  first : ∀ x, stop.peek = some x → isStop x

/-- The longest run of characters with a property goes to the first one without it. -/
theorem Cursor.goesTo_takeWhile (c : Cursor) (p : Char → Bool) :
    c.GoesTo (fun x => p x = false) (c.rest.takeWhile p)
      (c.move (c.rest.takeWhile p).length) where
  place := rfl
  rest_eq := by rw [rest_move_takeWhile, List.takeWhile_append_dropWhile]
  before x hx := by simp [List.mem_takeWhile_imp hx]
  first x hx := by
    have hstop := Read.head?_any_dropWhile p c.rest
    rw [peek, rest_move_takeWhile] at hx
    rwa [hx] at hstop

namespace Read

open Text

variable {c : Cursor} {classes : List CharClass} {set : List Char}

/-! ### Tokens -/

/-- A token goes up to its stop, and over it if this is a delimiter that is to be taken. -/
theorem token_goesTo (consume : Bool) (delimiters : List Char) (c : Cursor) : ∃ span stop,
    c.GoesTo (fun x => x ∈ delimiters ∨ isWhiteSpace x = true) span stop ∧
      token consume delimiters c =
        .ok span (if consume && stop.peek.any delimiters.contains then stop.move 1 else stop) := by
  have hgoes := c.goesTo_takeWhile fun x => !delimiters.contains x && !isWhiteSpace x
  have hstop (x : Char) : (!delimiters.contains x && !isWhiteSpace x) = false ↔
      x ∈ delimiters ∨ isWhiteSpace x = true := by
    by_cases hx : x ∈ delimiters <;> simp [hx]
  simp only [hstop] at hgoes
  refine ⟨_, _, hgoes, ?_⟩
  -- The next character is looked up among the delimiters only, so white space may be one of them.
  unfold token
  rw [bind_of_ok (run_apply _ c), bind_of_ok (peek_apply _)]
  dsimp only
  split <;> rfl

/-- A token character by character: the tests for a stop in order, at each place. -/
def tokenLoop (consume : Bool) (delimiters taken : List Char) (pos : Nat) :
    List Char → List Char × Cursor
  | [] => (taken, ⟨pos, []⟩)
  | x :: rest =>
    if delimiters.contains x then (taken, if consume then ⟨pos + 1, rest⟩ else ⟨pos, x :: rest⟩)
    else if isWhiteSpace x then (taken, ⟨pos, x :: rest⟩)
    else tokenLoop consume delimiters (taken ++ [x]) (pos + 1) rest

theorem tokenLoop_eq (consume : Bool) (delimiters taken : List Char) (pos : Nat)
    (text : List Char) :
    let span := text.takeWhile fun x => !delimiters.contains x && !isWhiteSpace x
    let stop := (⟨pos, text⟩ : Cursor).move span.length
    tokenLoop consume delimiters taken pos text =
      (taken ++ span,
        if consume && stop.peek.any delimiters.contains then stop.move 1 else stop) := by
  induction text generalizing taken pos with
  | nil => simp [tokenLoop, Cursor.peek, Cursor.move]
  | cons x rest ih =>
    rw [tokenLoop]
    by_cases hx : x ∈ delimiters
    · cases consume <;> simp [hx, Cursor.peek, Cursor.move]
    · cases hspace : isWhiteSpace x with
      | true => simp [hx, hspace, Cursor.peek]
      | false =>
        simp [ih, hx, hspace, Cursor.peek, Cursor.move, Nat.add_assoc, Nat.add_comm 1]

/-- The loop gives the token, and ends where it ends. -/
theorem token_eq_loop (consume : Bool) (delimiters : List Char) (c : Cursor) :
    ∃ span stop, tokenLoop consume delimiters [] c.pos c.rest = (span, stop) ∧
      token consume delimiters c = .ok span stop := by
  refine ⟨_, _, tokenLoop_eq consume delimiters [] c.pos c.rest, ?_⟩
  unfold token
  rw [bind_of_ok (run_apply _ c), bind_of_ok (peek_apply _), List.nil_append]
  split <;> rfl

/-! ### Wanted characters -/

/--
A span character by character: before each, its number is tested and then the character itself.
-/
def spanLoop (count : Option Nat) (wanted : Char → Bool) (taken : List Char) (pos : Nat) :
    List Char → List Char × Cursor
  | [] => (taken, ⟨pos, []⟩)
  | x :: rest =>
    if count.all (taken.length < ·) && wanted x then
      spanLoop count wanted (taken ++ [x]) (pos + 1) rest
    else (taken, ⟨pos, x :: rest⟩)

theorem spanLoop_eq (count : Option Nat) (wanted : Char → Bool) (taken : List Char) (pos : Nat)
    (text : List Char) :
    let span := cutAt (count.map (· - taken.length)) (text.takeWhile wanted)
    spanLoop count wanted taken pos text =
      (taken ++ span, (⟨pos, text⟩ : Cursor).move span.length) := by
  induction text generalizing taken pos with
  | nil => cases count <;> simp [spanLoop, cutAt]
  | cons x rest ih =>
    rw [spanLoop]
    cases hx : wanted x with
    | false => cases count <;> simp [cutAt, hx]
    | true =>
      cases count with
      | none => simp [ih, cutAt, hx, Cursor.move, Nat.add_assoc, Nat.add_comm 1]
      | some n =>
        by_cases hlt : taken.length < n
        · obtain ⟨k, hk⟩ : ∃ k, n - taken.length = k + 1 := ⟨n - taken.length - 1, by omega⟩
          have hk' : n - (taken.length + 1) = k := by omega
          simp [ih, cutAt, hx, hlt, hk, hk', Cursor.move, Nat.add_assoc, Nat.add_comm 1]
        · have hzero : n - taken.length = 0 := by omega
          simp [cutAt, hlt, hzero]

/-- The loop without a number gives a run. -/
theorem run_eq_loop (p : Char → Bool) (c : Cursor) :
    ∃ span stop, spanLoop none p [] c.pos c.rest = (span, stop) ∧ run p c = .ok span stop :=
  ⟨_, _, spanLoop_eq none p [] c.pos c.rest, run_apply p c⟩

theorem isWanted_iff {x : Char} : isWanted classes set x = true ↔
    x ∈ set ∨ ∃ charClass ∈ classes, charClass.contains x = true := by
  simp [isWanted]

theorem longestSpan_wanted (classes : List CharClass) (set text : List Char) :
    LongestSpan (fun x => x ∈ set ∨ ∃ charClass ∈ classes, charClass.contains x = true) text
      (text.takeWhile (isWanted classes set)) := by
  simp only [← isWanted_iff]
  exact longestSpan_takeWhile _ text

/-- The characters that are taken; a strict read fails if they are not in the given number. -/
theorem chars_eq (count : Option Nat) (strict : Bool) (classes : List CharClass)
    (set : List Char) (c : Cursor) :
    let span := cutAt count (c.rest.takeWhile (isWanted classes set))
    chars count strict classes set c =
      match count, strict with
      | some n, true =>
        if span.length = n then .ok span (c.move n)
        else .error (.grammar (.tooFew n span.length) (c.pos + span.length)) c
      | _, _ => .ok span (c.move span.length) := by
  intro span
  cases count with
  | none => rfl
  | some n =>
    have hrun : runUpTo n (isWanted classes set) c = .ok span (c.move span.length) := by
      rw [runUpTo_apply, ← List.take_takeWhile]
      rfl
    unfold chars
    rw [bind_of_ok (get_apply c)]
    simp only [bind_of_ok hrun]
    cases strict with
    | false => rfl
    | true =>
      show _ = if span.length = n then _ else _
      by_cases hlength : span.length = n
      · have hcheck : (true && decide (span.length ≠ n)) = false := by simp [hlength]
        rw [hcheck, if_pos hlength, ← hlength]
        rfl
      · have hcheck : (true && decide (span.length ≠ n)) = true := by simp [hlength]
        rw [hcheck, if_neg hlength]
        rfl

/-- The loop gives the wanted characters, which a strict read then counts. -/
theorem chars_eq_loop (count : Option Nat) (strict : Bool) (classes : List CharClass)
    (set : List Char) (c : Cursor) : ∃ span stop,
    spanLoop count (isWanted classes set) [] c.pos c.rest = (span, stop) ∧
      chars count strict classes set c =
        match count, strict with
        | some n, true =>
          if span.length = n then .ok span stop
          else .error (.grammar (.tooFew n span.length) stop.pos) c
        | _, _ => .ok span stop := by
  refine ⟨_, _, spanLoop_eq count (isWanted classes set) [] c.pos c.rest, ?_⟩
  rw [chars_eq]
  cases count with
  | none => rfl
  | some n =>
    cases strict with
    | false => rfl
    | true =>
      simp only [List.nil_append, List.length_nil, Option.map_some, Nat.sub_zero]
      by_cases hlength : (cutAt (some n) (c.rest.takeWhile (isWanted classes set))).length = n
      · simp only [hlength, ↓reduceIte]
      · simp only [hlength, ↓reduceIte, Cursor.pos_move]

/--
**The longest spans.**  Wherever the cursor stands, a token is made of the characters up to the
first delimiter, white space or the end, and the cursor is left there, or one further if the stop
is a delimiter that is to be taken; a delimiter counts as one even if it is white space.  Wanted
characters are the longest start of what follows whose characters are in a class or in the explicit
set, cut at the given number.  Only a strict read with a number can fail: it does so exactly if the
span has another length, leaves the cursor where it was, and tells where the span ends.  The loops
that test one character after the other take the same.
-/
theorem spans_longest (c : Cursor) :
    (∀ (consume : Bool) (delimiters : List Char), ∃ span stop,
      c.GoesTo (fun x => x ∈ delimiters ∨ isWhiteSpace x = true) span stop ∧
        token consume delimiters c =
          .ok span (if consume && stop.peek.any delimiters.contains then stop.move 1 else stop)) ∧
      (∀ (count : Option Nat) (strict : Bool) (classes : List CharClass) (set : List Char),
        ∃ longest, LongestSpan (fun x => x ∈ set ∨ ∃ charClass ∈ classes,
            charClass.contains x = true) c.rest longest ∧
          let span := cutAt count longest
          chars count strict classes set c =
            match count, strict with
            | some n, true =>
              if span.length = n then .ok span (c.move n)
              else .error (.grammar (.tooFew n span.length) (c.pos + span.length)) c
            | _, _ => .ok span (c.move span.length)) ∧
      (∀ (consume : Bool) (delimiters : List Char), ∃ span stop,
        tokenLoop consume delimiters [] c.pos c.rest = (span, stop) ∧
          token consume delimiters c = .ok span stop) ∧
      (∀ p : Char → Bool, ∃ span stop,
        spanLoop none p [] c.pos c.rest = (span, stop) ∧ run p c = .ok span stop) ∧
      ∀ (count : Option Nat) (strict : Bool) (classes : List CharClass) (set : List Char),
        ∃ span stop, spanLoop count (isWanted classes set) [] c.pos c.rest = (span, stop) ∧
          chars count strict classes set c =
            match count, strict with
            | some n, true =>
              if span.length = n then .ok span stop
              else .error (.grammar (.tooFew n span.length) stop.pos) c
            | _, _ => .ok span stop := by
  refine ⟨?_, ?_, ?_, ?_, ?_⟩
  · intro consume delimiters
    exact token_goesTo consume delimiters c
  · intro count strict classes set
    exact ⟨_, longestSpan_wanted classes set c.rest, chars_eq count strict classes set c⟩
  · intro consume delimiters
    exact token_eq_loop consume delimiters c
  · intro p
    exact run_eq_loop p c
  · intro count strict classes set
    exact chars_eq_loop count strict classes set c

/-- A line break that is a delimiter is taken as one; one that is not ends the token only. -/
example : (token true ['\n', ';'] ⟨0, "a\nb".toList⟩ = .ok ['a'] ⟨2, ['b']⟩) ∧
    (token true [';'] ⟨0, "a\nb".toList⟩ = .ok ['a'] ⟨1, ['\n', 'b']⟩) :=
  ⟨rfl, rfl⟩

end Read

end MusicString

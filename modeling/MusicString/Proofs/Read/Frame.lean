import MusicString.Read.Combinator

/-!
# Reading a text inside a longer one

A `Frame` puts a text into a longer one, in which other characters stand before it and the text
goes on with white space, if at all.  A read *keeps* to a frame if it goes the same way in the text
alone and in the longer text:

* both give the same result and stop at the same place of the text, or both fail, with errors of
  the same kind at the same place of the text;
* if nothing follows the text, the errors agree in their cause, too;
* neither leaves the text.

The reads that look at single characters keep to every frame as long as they do not ask for white
space, and the combinators hand this on, so that every read of the grammar keeps to every frame.
-/

namespace MusicString

open Text

namespace Text

/-- The characters that are white space. -/
def whiteSpaceChars : List Char :=
  whiteSpaceSpans.flatMap fun s => (List.range' s.1 (s.2 + 1 - s.1)).map Char.ofNat

theorem mem_whiteSpaceChars {x : Char} (h : isWhiteSpace x = true) : x ∈ whiteSpaceChars := by
  obtain ⟨s, hs, hx⟩ := List.any_eq_true.1 h
  obtain ⟨hlo, hhi⟩ := Span.holds_iff.1 hx
  refine List.mem_flatMap.2 ⟨s, hs, List.mem_map.2 ⟨x.toNat, ?_, Char.ofNat_toNat x⟩⟩
  rw [List.mem_range'_1]
  omega

/-- A run of characters does not go on in a text that starts with a character of another kind. -/
theorem takeWhile_append_of_stop {p : Char → Bool} {after : List Char}
    (h : after.head?.any p = false) (text : List Char) :
    (text ++ after).takeWhile p = text.takeWhile p := by
  rw [List.takeWhile_append]
  split
  · have hnil : after.takeWhile p = [] := by
      cases after with
      | nil => rfl
      | cons x rest => simpa [List.takeWhile_cons] using h
    rw [hnil, List.append_nil]
    exact (List.takeWhile_prefix p).eq_of_length ‹_› |>.symm
  · rfl

end Text

/-- A text at a position, and the same text inside a longer one. -/
structure Frame where
  /-- The position of the text when it is read alone. -/
  start : Nat
  text : List Char
  /-- How much later the text stands in the longer one. -/
  shift : Nat
  /-- What follows the text in the longer one. -/
  after : List Char
  closed : after.head?.all isWhiteSpace = true

namespace Frame

variable {f : Frame} {α β : Type}

/-- The same place of the text, in the text alone and in the longer one. -/
def Places (f : Frame) (c c' : Cursor) : Prop :=
  ∃ n ≤ f.text.length,
    c = ⟨f.start + n, f.text.drop n⟩ ∧ c' = ⟨f.start + n + f.shift, f.text.drop n ++ f.after⟩

/-- Errors at the same place of the text, in the text alone and in the longer one. -/
structure Reports (f : Frame) (e e' : ParseError) : Prop where
  position_eq : e'.position = e.position + f.shift
  kind_eq : e'.kind = e.kind
  cause_eq : f.after = [] → e'.cause = e.cause
  kind_ne : e.kind ≠ .listener
  start_le : f.start ≤ e.position
  le_end : e.position ≤ f.start + f.text.length

/-- Results of reading the text alone and inside the longer one that agree. -/
inductive Agrees (f : Frame) (R : α → α → Prop) :
    EStateM.Result ParseError Cursor α → EStateM.Result ParseError Cursor α → Prop
  | ok {a a' : α} {c c' : Cursor} : R a a' → f.Places c c' → f.Agrees R (.ok a c) (.ok a' c')
  | error {e e' : ParseError} {c c' : Cursor} :
    f.Reports e e' → f.Places c c' → f.Agrees R (.error e c) (.error e' c')

/-- `r` does in the text alone what `r'` does in the longer one, up to `R`. -/
def Follows (f : Frame) (R : α → α → Prop) (r r' : Read α) : Prop :=
  ∀ ⦃c c' : Cursor⦄, f.Places c c' → f.Agrees R (r c) (r' c')

/-- `r` does the same in the text alone and in the longer one. -/
abbrev Keeps (f : Frame) (r : Read α) : Prop :=
  f.Follows Eq r r

/-- A position in the text alone and in the longer one. -/
def Shifted (f : Frame) (n n' : Nat) : Prop :=
  n' = n + f.shift ∧ f.start ≤ n ∧ n ≤ f.start + f.text.length

/-- What follows the text does not go on with a character of the given kind. -/
def Stops (f : Frame) (p : Char → Bool) : Prop :=
  f.after.head?.any p = false

theorem stops_of_whiteSpace (f : Frame) {p : Char → Bool}
    (hp : ∀ x, isWhiteSpace x = true → p x = false) : f.Stops p := by
  have hclosed := f.closed
  unfold Stops
  cases hafter : f.after.head? with
  | none => rfl
  | some x =>
    rw [hafter] at hclosed
    exact hp x hclosed

/-- A kind of character is none of white space if it has none of the list. -/
theorem stops_of_all (f : Frame) {p : Char → Bool} (hp : whiteSpaceChars.all (! p ·) = true) :
    f.Stops p :=
  f.stops_of_whiteSpace fun x hx => by
    simpa using List.all_eq_true.1 hp x (mem_whiteSpaceChars hx)

theorem stops_contains (f : Frame) {w : List Char} (hw : w.all (! isWhiteSpace ·) = true) :
    f.Stops w.contains :=
  f.stops_of_whiteSpace fun x hx => by
    refine Bool.eq_false_iff.2 fun h => ?_
    have hall := List.all_eq_true.1 hw x (List.contains_iff_mem.1 h)
    simp [hx] at hall

theorem stops_of_nil {f : Frame} (h : f.after = []) {p : Char → Bool} : f.Stops p := by
  rw [Stops, h]
  rfl

/-! ### Places -/

theorem places_start (f : Frame) :
    f.Places ⟨f.start, f.text⟩ ⟨f.start + f.shift, f.text ++ f.after⟩ :=
  ⟨0, Nat.zero_le _, rfl, rfl⟩

namespace Places

variable {c c' : Cursor}

theorem rest_eq (h : f.Places c c') : c'.rest = c.rest ++ f.after := by
  obtain ⟨n, -, rfl, rfl⟩ := h
  rfl

theorem pos_add_length (h : f.Places c c') :
    c.pos + c.rest.length = f.start + f.text.length := by
  obtain ⟨n, hn, rfl, rfl⟩ := h
  simp only [List.length_drop]
  omega

theorem shifted (h : f.Places c c') : f.Shifted c.pos c'.pos := by
  obtain ⟨n, hn, rfl, rfl⟩ := h
  exact ⟨rfl, by simp, by simpa using hn⟩

theorem pos_eq_iff {d d' : Cursor} (hc : f.Places c c') (hd : f.Places d d') :
    d'.pos = c'.pos ↔ d.pos = c.pos := by
  rw [hd.shifted.1, hc.shifted.1]
  omega

theorem move (h : f.Places c c') {m : Nat} (hm : m ≤ c.rest.length) :
    f.Places (c.move m) (c'.move m) := by
  obtain ⟨n, hn, rfl, rfl⟩ := h
  simp only [List.length_drop] at hm
  refine ⟨n + m, by omega, ?_, ?_⟩
  · simp [Cursor.move, Nat.add_assoc]
  · have hle : m ≤ (f.text.drop n).length := by simpa using hm
    simp only [Cursor.move, List.drop_append_of_le_length hle, List.drop_drop]
    simp [Nat.add_left_comm, Nat.add_comm]

theorem peek_of_some (h : f.Places c c') {x : Char} (hx : c.peek = some x) :
    c'.peek = some x := by
  simp only [Cursor.peek, h.rest_eq] at hx ⊢
  rw [List.head?_append, hx]
  rfl

theorem peek_any (h : f.Places c c') {p : Char → Bool} (hp : f.Stops p) :
    c'.peek.any p = c.peek.any p := by
  simp only [Cursor.peek, h.rest_eq]
  cases hc : c.rest with
  | nil => exact hp
  | cons x rest => rfl

theorem peek_all (h : f.Places c c') : c'.peek.all isWhiteSpace = c.peek.all isWhiteSpace := by
  simp only [Cursor.peek, h.rest_eq]
  cases hc : c.rest with
  | nil => exact f.closed
  | cons x rest => rfl

theorem peekAt_any (h : f.Places c c') {n : Nat} (hn : n ≤ c.rest.length) {p : Char → Bool}
    (hp : f.Stops p) : c'.rest[n]?.any p = c.rest[n]?.any p := by
  simpa [Cursor.peek] using (h.move hn).peek_any hp

theorem peek_eq_some (h : f.Places c c') {x : Char} (hx : f.Stops (· == x)) :
    c'.peek = some x ↔ c.peek = some x := by
  have hiff (o : Option Char) : o = some x ↔ o.any (· == x) = true := by cases o <;> simp
  rw [hiff, hiff, h.peek_any hx]

/-- A run of characters that cannot go on after the text is the same. -/
theorem takeWhile_eq (h : f.Places c c') {p : Char → Bool} (hp : f.Stops p) :
    c'.rest.takeWhile p = c.rest.takeWhile p := by
  rw [h.rest_eq, takeWhile_append_of_stop hp]

end Places

/-! ### Following -/

namespace Follows

variable {R : α → α → Prop} {S : β → β → Prop}

theorem pure {a a' : α} (h : R a a') : f.Follows R (pure a) (pure a') :=
  fun _ _ hc => .ok h hc

theorem bind {r r' : Read α} {k k' : α → Read β} (hr : f.Follows R r r')
    (hk : ∀ a a', R a a' → f.Follows S (k a) (k' a')) : f.Follows S (r >>= k) (r' >>= k') := by
  intro c c' hc
  show f.Agrees S (EStateM.bind r k c) (EStateM.bind r' k' c')
  unfold EStateM.bind
  have h := hr hc
  generalize r c = x at h
  generalize r' c' = x' at h
  cases h with
  | ok hR hplaces => exact hk _ _ hR hplaces
  | error he hplaces => exact .error he hplaces

theorem throw {e e' : ParseError} (h : f.Reports e e') : f.Follows R (throw e) (throw e') :=
  fun _ _ hc => .error h hc

/-- A computation that looks at the cursor first. -/
theorem get_bind {k k' : Cursor → Read α}
    (hk : ∀ c c', f.Places c c' → f.Follows R (k c) (k' c')) :
    f.Follows R (get >>= k) (get >>= k') :=
  fun c c' hc => hk c c' hc hc

theorem set {c c' : Cursor} (h : f.Places c c') : f.Follows Eq (set c) (set c') :=
  fun _ _ _ => .ok rfl h

/-- A computation that goes back to a place first. -/
theorem set_bind {c c' : Cursor} (h : f.Places c c') {r r' : Read α} (hr : f.Follows R r r') :
    f.Follows R (do MonadStateOf.set c; r) (do MonadStateOf.set c'; r') :=
  Follows.bind (Follows.set h) fun _ _ _ => hr

end Follows

namespace Keeps

theorem pure (a : α) : f.Keeps (pure a : Read α) :=
  Follows.pure rfl

theorem bind {r : Read α} {k k' : α → Read β} {S : β → β → Prop} (hr : f.Keeps r)
    (hk : ∀ a, f.Follows S (k a) (k' a)) : f.Follows S (r >>= k) (r >>= k') :=
  Follows.bind hr fun a _ h => h ▸ hk a

theorem map {r : Read α} (g : α → β) (hr : f.Keeps r) : f.Keeps (g <$> r) := by
  intro c c' hc
  show f.Agrees Eq (EStateM.map g r c) (EStateM.map g r c')
  unfold EStateM.map
  have h := hr hc
  generalize r c = x at h
  generalize r c' = x' at h
  cases h with
  | ok hR hplaces => exact .ok (congrArg g hR) hplaces
  | error he hplaces => exact .error he hplaces

end Keeps

/-! ### Errors -/

/-- What is wanted may differ where the text ends and something follows. -/
theorem Places.reports_unexpected_of {c c' : Cursor} (h : f.Places c c') {wanted wanted' : String}
    (hw : f.after = [] → wanted' = wanted) :
    f.Reports (c.unexpected wanted) (c'.unexpected wanted') where
  position_eq := h.shifted.1
  kind_eq := rfl
  cause_eq hafter := by
    have hpeek : c'.peek = c.peek := by simp [Cursor.peek, h.rest_eq, hafter]
    simp [Cursor.unexpected, ParseError.grammar, hpeek, hw hafter]
  kind_ne h := by cases h
  start_le := h.shifted.2.1
  le_end := h.shifted.2.2

theorem Places.reports_unexpected {c c' : Cursor} (h : f.Places c c') (wanted : String) :
    f.Reports (c.unexpected wanted) (c'.unexpected wanted) :=
  h.reports_unexpected_of fun _ => rfl

/-- The same cause, at a position in the text alone and in the longer one. -/
theorem Shifted.reports {n n' : Nat} (h : f.Shifted n n') {cause : Cause}
    (hcause : cause.kind ≠ .listener) : f.Reports ⟨cause, n⟩ ⟨cause, n'⟩ where
  position_eq := h.1
  kind_eq := rfl
  cause_eq _ := rfl
  kind_ne := hcause
  start_le := h.2.1
  le_end := h.2.2

theorem Shifted.reports_grammar {n n' : Nat} (h : f.Shifted n n') (m : Mismatch) :
    f.Reports (.grammar m n) (.grammar m n') :=
  h.reports fun h => by cases h

theorem Shifted.reports_evaluation {n n' : Nat} (h : f.Shifted n n') (e : EvalError) :
    f.Reports (.evaluation e n) (.evaluation e n') :=
  h.reports e.kind_ne_listener

theorem follows_unexpected {R : α → α → Prop} (wanted : String) :
    f.Follows R (Read.unexpected wanted) (Read.unexpected wanted) :=
  fun _ _ hc => .error (hc.reports_unexpected wanted) hc

/-! ### Single characters and runs of characters -/

theorem follows_position : f.Follows f.Shifted Read.position Read.position :=
  fun _ _ hc => .ok hc.shifted hc

theorem keeps_atBoundary : f.Keeps Read.atBoundary :=
  fun _ _ hc => .ok hc.peek_all.symm hc

theorem keeps_eat {x : Char} (hx : f.Stops (· == x)) : f.Keeps (Read.eat x) := by
  intro c c' hc
  by_cases hpeek : c.peek = some x
  · rw [Read.eat_of_peek hpeek, Read.eat_of_peek ((hc.peek_eq_some hx).2 hpeek)]
    exact .ok rfl (hc.move (Cursor.length_pos_of_peek hpeek))
  · rw [Read.eat_of_not_peek hpeek, Read.eat_of_not_peek (mt (hc.peek_eq_some hx).1 hpeek)]
    exact .ok rfl hc

theorem keeps_expect {x : Char} (hx : f.Stops (· == x)) : f.Keeps (Read.expect x) := by
  refine Keeps.bind (keeps_eat hx) fun eaten => ?_
  cases eaten with
  | true => exact Keeps.pure ()
  | false => exact follows_unexpected _

theorem keeps_run {p : Char → Bool} (hp : f.Stops p) : f.Keeps (Read.run p) := by
  intro c c' hc
  rw [Read.run_apply, Read.run_apply, hc.takeWhile_eq hp]
  exact .ok rfl (hc.move (List.takeWhile_prefix p).length_le)

theorem keeps_runUpTo (n : Nat) {p : Char → Bool} (hp : f.Stops p) :
    f.Keeps (Read.runUpTo n p) := by
  intro c c' hc
  rw [Read.runUpTo_apply, Read.runUpTo_apply, ← List.take_takeWhile, ← List.take_takeWhile,
    hc.takeWhile_eq hp]
  exact .ok rfl (hc.move ((List.take_prefix _ _).trans (List.takeWhile_prefix p)).length_le)

/-- A choice by the next character that the character after the text does not decide. -/
theorem Follows.ite_peek {p : Char → Bool} (hp : f.Stops p) {r r' s s' : Read α}
    {R : α → α → Prop} (hr : f.Follows R r r') (hs : f.Follows R s s') :
    f.Follows R (do if (← Read.peek).any p then r else s)
      (do if (← Read.peek).any p then r' else s') := by
  intro c c' hc
  show f.Agrees R ((if c.peek.any p = true then r else s) c)
    ((if c'.peek.any p = true then r' else s') c')
  rw [hc.peek_any hp]
  split
  · exact hr hc
  · exact hs hc

end Frame

/-! ### Reading forward -/

namespace Read

variable {α β : Type}

/-- A read that does not move back when it succeeds. -/
def Forward (r : Read α) : Prop :=
  ∀ ⦃c : Cursor⦄ ⦃a : α⦄ ⦃d : Cursor⦄, r c = .ok a d → c.pos ≤ d.pos

/-- A read that takes a character whenever it succeeds. -/
def Takes (r : Read α) : Prop :=
  ∀ ⦃c : Cursor⦄ ⦃a : α⦄ ⦃d : Cursor⦄, r c = .ok a d → c.pos < d.pos

/-- A read that takes a character whenever it gives something. -/
def Advances (r : Read (Option α)) : Prop :=
  ∀ ⦃c : Cursor⦄ ⦃a : α⦄ ⦃d : Cursor⦄, r c = .ok (some a) d → c.pos < d.pos

/-- A read that keeps to frames after which nothing follows keeps to the text from here on. -/
theorem forward_of_keeps {r : Read α} (h : ∀ f : Frame, f.after = [] → f.Keeps r) :
    r.Forward := by
  intro c a d hr
  -- The frame with nothing before or after the text holds the text from the cursor on.
  have hc := h ⟨c.pos, c.rest, 0, [], rfl⟩ rfl (Frame.places_start _)
  rw [List.append_nil, Nat.add_zero, hr] at hc
  cases hc with
  | ok _ hplaces => exact hplaces.shifted.2.1

theorem bind_eq_ok {r : Read α} {k : α → Read β} {c d : Cursor} {b : β}
    (h : (r >>= k) c = .ok b d) : ∃ a e, r c = .ok a e ∧ k a e = .ok b d := by
  change EStateM.bind r k c = .ok b d at h
  unfold EStateM.bind at h
  split at h
  · exact ⟨_, _, ‹_›, h⟩
  · cases h

theorem bind_of_ok {r : Read α} {k : α → Read β} {c d : Cursor} {a : α} (h : r c = .ok a d) :
    (r >>= k) c = k a d := by
  show EStateM.bind r k c = _
  unfold EStateM.bind
  rw [h]

theorem bind_of_error {r : Read α} (k : α → Read β) {c d : Cursor} {e : ParseError}
    (h : r c = .error e d) : (r >>= k) c = .error e d := by
  show EStateM.bind r k c = _
  unfold EStateM.bind
  rw [h]

theorem forward_pure (a : α) : Forward (pure a : Read α) := by
  intro c b d h
  cases h
  exact Nat.le_refl _

theorem Forward.bind {r : Read α} {k : α → Read β} (hr : r.Forward) (hk : ∀ a, (k a).Forward) :
    (r >>= k).Forward := by
  intro c b d h
  obtain ⟨a, e, hfirst, hthen⟩ := bind_eq_ok h
  exact Nat.le_trans (hr hfirst) (hk a hthen)

theorem Takes.bind {r : Read α} {k : α → Read β} (hr : r.Takes) (hk : ∀ a, (k a).Forward) :
    (r >>= k).Takes := by
  intro c b d h
  obtain ⟨a, e, hfirst, hthen⟩ := bind_eq_ok h
  exact Nat.lt_of_lt_of_le (hr hfirst) (hk a hthen)

theorem Takes.advances_map {r : Read α} (hr : r.Takes) :
    Advances (do return some (← r)) := by
  intro c a d h
  obtain ⟨a', e, hfirst, hthen⟩ := bind_eq_ok h
  cases hthen
  exact hr hfirst

theorem eat_eq_ok_true {x : Char} {c d : Cursor} (h : eat x c = .ok true d) : d = c.move 1 := by
  by_cases hpeek : c.peek = some x
  · rw [eat_of_peek hpeek] at h; cases h; rfl
  · rw [eat_of_not_peek hpeek] at h; cases h

theorem eat_eq_ok_false {x : Char} {c d : Cursor} (h : eat x c = .ok false d) : d = c := by
  by_cases hpeek : c.peek = some x
  · rw [eat_of_peek hpeek] at h; cases h
  · rw [eat_of_not_peek hpeek] at h; cases h; rfl

/-- A read that gives something only after a mark, or else what another one gives. -/
theorem advances_eat {x : Char} {r s : Read (Option α)} (hr : r.Forward) (hs : s.Advances) :
    Advances (do if ← eat x then r else s) := by
  intro c a d h
  obtain ⟨eaten, e, heat, h⟩ := bind_eq_ok h
  cases eaten with
  | true =>
    have hle := hr h
    rw [eat_eq_ok_true heat, Cursor.pos_move] at hle
    omega
  | false =>
    rw [eat_eq_ok_false heat] at h
    exact hs h

theorem advances_none : Advances (pure none : Read (Option α)) := by
  intro c a d h
  cases h

end Read

end MusicString

import Mathlib.Data.List.OfFn
import MusicString.Reader
import MusicString.Proofs.Environment.Accepting
import MusicString.Proofs.Read.Restore

/-!
# The cursor of a rule

Whether a rule succeeds or fails, its cursor moves forward over characters of the text.  Each single
read takes nothing if it fails, and so does every rule that is built without pairs: only a pair can
fail after its first rule has taken something.  A repetition needs no bound of its own, since it
goes on only after a character was taken.

* `Read.Within`: the cursor stays between its start and the end of the text;
* `Read.Loops`: a repetition as a loop without a bound, and `Read.loops_repeated`;
* `Rule.PairFree`, `Rule.run_contract`: what a rule does with the cursor of a reader.
-/

namespace MusicString

open Text

/-! ### Moving forward -/

/-- A place that is reached by moving over some of the characters that follow. -/
def Cursor.Reaches (c d : Cursor) : Prop :=
  ∃ n ≤ c.rest.length, d = c.move n

namespace Cursor.Reaches

variable {c d e : Cursor}

theorem refl (c : Cursor) : c.Reaches c :=
  ⟨0, Nat.zero_le _, rfl⟩

theorem trans (h : c.Reaches d) (h' : d.Reaches e) : c.Reaches e := by
  obtain ⟨n, hn, rfl⟩ := h
  obtain ⟨m, hm, rfl⟩ := h'
  simp only [rest_move, List.length_drop] at hm
  exact ⟨n + m, by omega, move_move c n m⟩

theorem pos_le (h : c.Reaches d) : c.pos ≤ d.pos := by
  obtain ⟨n, -, rfl⟩ := h
  exact Nat.le_add_right _ _

/-- What is taken is no longer left. -/
theorem pos_add_length (h : c.Reaches d) :
    d.pos + d.rest.length = c.pos + c.rest.length := by
  obtain ⟨n, hn, rfl⟩ := h
  simp only [pos_move, rest_move, List.length_drop]
  omega

end Cursor.Reaches

namespace Read

variable {α β : Type} {r : Read α}

/-- A read that moves forward within the text, whether it succeeds or fails. -/
def Within (r : Read α) : Prop :=
  ∀ c : Cursor, c.Reaches (finalState r c)

/-- A read that keeps to frames after which nothing follows stays within the text. -/
theorem within_of_keeps (h : ∀ f : Frame, f.after = [] → f.Keeps r) : r.Within := by
  intro c
  have hc := h ⟨c.pos, c.rest, 0, [], rfl⟩ rfl (Frame.places_start _)
  rw [List.append_nil, Nat.add_zero] at hc
  unfold finalState
  generalize r c = x at hc
  cases hc with
  | ok _ hplaces =>
    obtain ⟨n, hn, hd, -⟩ := hplaces
    exact ⟨n, hn, hd⟩
  | error _ hplaces =>
    obtain ⟨n, hn, hd, -⟩ := hplaces
    exact ⟨n, hn, hd⟩

namespace Within

theorem of_ok (h : r.Within) {c d : Cursor} {a : α} (hr : r c = .ok a d) : c.Reaches d :=
  finalState_of_ok hr ▸ h c

theorem of_error (h : r.Within) {c d : Cursor} {e : ParseError} (hr : r c = .error e d) :
    c.Reaches d :=
  finalState_of_error hr ▸ h c

theorem pure (a : α) : Within (pure a : Read α) :=
  fun c => .refl c

theorem bind {k : α → Read β} (hr : r.Within) (hk : ∀ a, (k a).Within) : (r >>= k).Within := by
  intro c
  cases hc : r c with
  | error e d =>
    rw [finalState_of_error (bind_of_error k hc)]
    exact hr.of_error hc
  | ok a d =>
    have hd : finalState (r >>= k) c = finalState (k a) d := by
      rw [finalState, bind_of_ok hc, finalState]
    rw [hd]
    exact (hr.of_ok hc).trans (hk a d)

theorem map (g : α → β) (hr : r.Within) : (g <$> r).Within := by
  rw [map_eq_pure_bind]
  exact hr.bind fun a => pure (g a)

/-- A read that takes nothing when it fails, and stays within the text when it succeeds. -/
theorem of_restores (hr : r.Restores)
    (hok : ∀ ⦃c : Cursor⦄ ⦃a : α⦄ ⦃d : Cursor⦄, r c = .ok a d → c.Reaches d) : r.Within := by
  intro c
  cases hc : r c with
  | ok a d =>
    rw [finalState_of_ok hc]
    exact hok hc
  | error e d =>
    rw [finalState_of_error hc, hr hc]
    exact .refl c

theorem optional (hr : r.Within) : (Read.optional r).Within := by
  intro c
  have hsame : finalState (Read.optional r) c = finalState r c := by
    unfold finalState Read.optional
    cases r c with
    | ok a d => rfl
    | error e d => by_cases hpos : d.pos = c.pos <;> simp [hpos]
  rw [hsame]
  exact hr c

theorem firstOfFrom {rs : List (Read α)} (h : ∀ r ∈ rs, r.Within) (messages : List String) :
    (Read.firstOfFrom rs messages).Within := by
  induction rs generalizing messages with
  | nil => exact fun c => .refl c
  | cons r rs ih =>
    obtain ⟨hr, hrs⟩ := List.forall_mem_cons.1 h
    intro c
    unfold finalState Read.firstOfFrom
    cases hc : r c with
    | ok a d => exact hr.of_ok hc
    | error e d =>
      have hd := hr.of_error hc
      by_cases hpos : d.pos = c.pos
      · simp only [hpos, ↓reduceIte]
        exact hd.trans (ih hrs _ d)
      · simp only [hpos, ↓reduceIte]
        exact hd

/-- A repetition, however often it may go on. -/
theorem repeatedUpTo (hr : r.Within) (n : Nat) : (Read.repeatedUpTo r n).Within := by
  induction n with
  | zero => exact pure []
  | succ n ih =>
    intro c
    unfold finalState Read.repeatedUpTo
    cases hc : r c with
    | ok a d =>
      have hd := hr.of_ok hc
      by_cases hpos : d.pos = c.pos
      · simp only [hpos, ↓reduceIte]
        exact hd
      · simp only [hpos, ↓reduceIte]
        have hlater := hd.trans (ih d)
        unfold finalState at hlater
        cases hn : Read.repeatedUpTo r n d <;> simpa [hn] using hlater
    | error e d =>
      by_cases hpos : d.pos = c.pos <;> simp only [hpos, ↓reduceIte] <;> exact hr.of_error hc

end Within

/-- Taking a token, with or without the delimiter after it. -/
theorem within_token (consume : Bool) (delimiters : List Char) :
    (token consume delimiters).Within := by
  refine .bind (fun c => ⟨_, (List.takeWhile_prefix _).length_le, rfl⟩) fun taken c => ?_
  by_cases hnext : (consume && c.peek.any delimiters.contains) = true
  · obtain ⟨x, hx⟩ : ∃ x, c.peek = some x := by
      cases hpeek : c.peek <;> simp_all
    refine ⟨1, Cursor.length_pos_of_peek hx, ?_⟩
    simp only [finalState, bind, EStateM.bind, peek_apply, hnext, ↓reduceIte]
    rfl
  · refine ⟨0, Nat.zero_le _, ?_⟩
    simp only [finalState, bind, EStateM.bind, peek_apply, hnext]
    rfl

theorem within_word (vocabulary : List String) (delimiters : List Char) (consume : Bool) :
    (word vocabulary delimiters consume).Within := by
  refine .of_restores (restores_word vocabulary delimiters consume) fun c w d hword => ?_
  obtain ⟨start, _, hstart, hword⟩ := bind_eq_ok hword
  cases hstart
  obtain ⟨taken, c', htoken, hword⟩ := bind_eq_ok hword
  have hreaches := (within_token _ _).of_ok htoken
  dsimp only at hword
  cases hknown : vocabulary.contains (String.ofList taken) <;>
    simp only [hknown, Bool.false_eq_true, ↓reduceIte] at hword <;> cases hword
  exact hreaches

/-! ### Repetitions -/

/--
A repetition as a loop that nothing bounds: it ends when the read fails without taking anything, or
succeeds without taking anything, and fails when the read fails after taking something.
-/
inductive Loops (r : Read α) : Cursor → EStateM.Result ParseError Cursor (List α) → Prop
  | stop {c d : Cursor} {e : ParseError} :
    r c = .error e d → d.pos = c.pos → Loops r c (.ok [] d)
  | fail {c d : Cursor} {e : ParseError} :
    r c = .error e d → d.pos ≠ c.pos → Loops r c (.error e d)
  | last {c d : Cursor} {a : α} :
    r c = .ok a d → d.pos = c.pos → Loops r c (.ok [a] d)
  | next {c d d' : Cursor} {a : α} {as : List α} :
    r c = .ok a d → d.pos ≠ c.pos → Loops r d (.ok as d') → Loops r c (.ok (a :: as) d')
  | nextFail {c d d' : Cursor} {a : α} {e : ParseError} :
    r c = .ok a d → d.pos ≠ c.pos → Loops r d (.error e d') → Loops r c (.error e d')

/-- The loop comes to its end before the bound is met, since each round takes a character. -/
theorem loops_repeatedUpTo (hr : r.Within) {n : Nat} {c : Cursor} (hn : c.rest.length < n) :
    Loops r c (repeatedUpTo r n c) := by
  induction n generalizing c with
  | zero => omega
  | succ n ih =>
    unfold repeatedUpTo
    cases hc : r c with
    | error e d =>
      by_cases hpos : d.pos = c.pos
      · simp only [hpos, ↓reduceIte]
        exact .stop hc hpos
      · simp only [hpos, ↓reduceIte]
        exact .fail hc hpos
    | ok a d =>
      by_cases hpos : d.pos = c.pos
      · simp only [hpos, ↓reduceIte]
        exact .last hc hpos
      · simp only [hpos, ↓reduceIte]
        have hle := (hr.of_ok hc).pos_le
        have hlength := (hr.of_ok hc).pos_add_length
        have hlater := ih (c := d) (by omega)
        cases hd : repeatedUpTo r n d with
        | ok as d' => exact .next hc hpos (hd ▸ hlater)
        | error e d' => exact .nextFail hc hpos (hd ▸ hlater)

theorem loops_repeated (hr : r.Within) (c : Cursor) : Loops r c (repeated r c) :=
  loops_repeatedUpTo hr (Nat.lt_succ_self _)

/-- A loop has at most one item more than it takes characters. -/
theorem Loops.length_le (hr : r.Within) {c d : Cursor} {as : List α} (h : Loops r c (.ok as d)) :
    c.pos + as.length ≤ d.pos + 1 := by
  generalize hx : EStateM.Result.ok as d = x at h
  induction h generalizing as with
  | stop hc hpos =>
    cases hx
    simp only [List.length_nil]
    omega
  | last hc hpos =>
    cases hx
    simp only [List.length_singleton]
    omega
  | next hc hpos _ ih =>
    cases hx
    have hle := (hr.of_ok hc).pos_le
    have hlater := ih rfl
    simp only [List.length_cons]
    omega
  | fail | nextFail => cases hx

end Read

/-! ### Readers -/

/-- A place that is reached from a place of a text is a place of the same text. -/
theorem Cursor.Reaches.eq_ofText {text : List Char} {n : Nat} {c : Cursor}
    (h : (ofText text n).Reaches c) : c.pos ≤ text.length ∧ c = ofText text c.pos := by
  obtain ⟨m, hm, rfl⟩ := h
  simp only [ofText, List.length_drop] at hm
  simp only [ofText, move, List.drop_drop, Cursor.mk.injEq]
  refine ⟨by omega, by omega, ?_⟩
  by_cases hn : n ≤ text.length
  · rw [Nat.min_eq_left hn]
  · rw [List.drop_eq_nil_of_le (by omega), List.drop_eq_nil_of_le (by omega)]

theorem Reader.run_eq {α : Type} (reader : Reader) (r : Read α) :
    reader.run r =
      (outcome r reader.cursor, { reader with cursor := finalState r reader.cursor }) := by
  unfold run outcome finalState
  cases r reader.cursor <;> rfl

/-! ### Rules -/

namespace Rule

open Read

/-- A rule that is built without pairs. -/
def PairFree : {α : Type} → Rule α → Prop
  | _, pair _ _ => False
  | _, optional inner => inner.PairFree
  | _, repeated inner => inner.PairFree
  | _, firstOf _ rules => ∀ i, (rules i).PairFree
  | _, map _ inner => inner.PairFree
  | _, _ => True

/-- The number of characters is looked up, and nothing is taken. -/
theorem finalState_readCount (d : Dictionary) (count : Option (Expr Integer)) (c : Cursor) :
    finalState (readCount d count) c = c := by
  cases count with
  | none => rfl
  | some e =>
    simp only [finalState, readCount, bind, EStateM.bind, position_apply]
    cases e.eval d with
    | error err => rfl
    | ok n => by_cases hn : n.val < 0 <;> simp only [hn, ↓reduceIte] <;> rfl

/-- Every rule moves forward within the text. -/
theorem within_read (d : Dictionary) {α : Type} (rule : Rule α) : (rule.read d).Within := by
  induction rule with
  | chars count strict classes set =>
    refine .bind (fun c => ?_) fun n => .bind (within_of_keeps fun f hf =>
      Frame.keeps_chars n strict (Frame.stops_of_nil hf)) fun taken => .pure _
    rw [finalState_readCount]
    exact .refl c
  | word vocabulary delimiters consume => exact within_word vocabulary delimiters consume
  | keyword vocabulary =>
    exact within_of_keeps fun f hf => Frame.keeps_keyword fun _ _ => Frame.stops_of_nil hf
  | hexByte => exact within_of_keeps fun f _ => f.keeps_hexByte
  | byteExpr => exact within_of_keeps fun f _ => f.keeps_byteExpr
  | intExpr => exact within_of_keeps fun f _ => f.keeps_intExpr
  | pair first second ihfirst ihsecond =>
    exact ihfirst.bind fun a => ihsecond.bind fun b => .pure (a, b)
  | optional inner ih => exact ih.optional
  | repeated inner ih => exact fun c => ih.repeatedUpTo _ c
  | firstOf count rules ih => exact .firstOfFrom (List.forall_mem_ofFn_iff.2 ih) []
  | map f inner ih => exact ih.map f

/-- A rule without pairs takes nothing if it fails. -/
theorem restores_read (d : Dictionary) {α : Type} {rule : Rule α} (h : rule.PairFree) :
    (rule.read d).Restores := by
  induction rule with
  | chars count strict classes set =>
    have hcount : (readCount d count).Restores := fun c _ _ herror =>
      (finalState_of_error herror).symm.trans (finalState_readCount d count c)
    refine hcount.bind fun c c' c'' n e hn herror => ?_
    obtain rfl : c' = c := (finalState_of_ok hn).symm.trans (finalState_readCount d count c)
    exact (restores_chars _ _ _ _).bind_pure String.ofList herror
  | word vocabulary delimiters consume => exact restores_word vocabulary delimiters consume
  | keyword vocabulary => exact restores_keyword vocabulary
  | hexByte => exact restores_hexByte
  | byteExpr => exact restores_byteExpr
  | intExpr => exact restores_intExpr
  | pair first second => exact h.elim
  | optional inner ih =>
    intro c e c' herror
    obtain ⟨a, c'', hok⟩ := (ih h).optional_eq_ok c
    cases hok.symm.trans herror
  | repeated inner ih =>
    intro c e c' herror
    obtain ⟨as, c'', hok⟩ := (ih h).repeatedUpTo_eq_ok (c.rest.length + 1) c
    cases hok.symm.trans herror
  | firstOf count rules ih =>
    exact .firstOfFrom (List.forall_mem_ofFn_iff.2 fun i => ih i (h i)) []
  | map f inner ih => exact (ih h).map f

/--
**The cursor of a rule.**  Whether a rule succeeds or fails, it stops between its start and the end
of the text.  Repeating it is a loop that ends by itself, with at most one item more than there are
characters left.  If the rule has no pairs, its failure leaves the reader as it was, and neither an
option nor a repetition of it fails.
-/
theorem run_contract (d : Dictionary) {α : Type} (rule : Rule α) (text : String) (n : Nat) :
    let start := Reader.ofText text n
    let (result, stop) := start.run (rule.read d)
    (start.cursor.pos ≤ stop.cursor.pos ∧ stop.cursor.pos ≤ text.length ∧
        stop = start.rewind stop.cursor.pos) ∧
      Loops (rule.read d) start.cursor ((repeated rule).read d start.cursor) ∧
      (∀ items, (start.run ((repeated rule).read d)).1 = .ok items →
        items.length ≤ text.length - start.cursor.pos + 1) ∧
      (rule.PairFree →
        (∀ e, result = .error e → stop = start) ∧
          (∃ a, (start.run ((optional rule).read d)).1 = .ok a) ∧
          ∃ items, (start.run ((repeated rule).read d)).1 = .ok items) := by
  intro start
  rw [Reader.run_eq, Reader.run_eq, Reader.run_eq]
  have hwithin := within_read d rule
  have hloops : Loops (rule.read d) start.cursor ((repeated rule).read d start.cursor) :=
    loops_repeated hwithin start.cursor
  obtain ⟨hle, hplace⟩ := (hwithin start.cursor).eq_ofText
  rw [String.length_toList] at hle
  refine ⟨⟨(hwithin start.cursor).pos_le, hle, ?_⟩, hloops, fun items hitems => ?_, fun hfree => ?_⟩
  · show (⟨_, _⟩ : Reader) = ⟨_, _⟩
    exact congrArg (Reader.mk text.toList) hplace
  · -- The items are those of a loop, which stops in the text.
    have hread := eq_of_outcome_eq_ok hitems
    have hlength := Loops.length_le hwithin (hread ▸ hloops)
    have hend := ((within_read d (repeated rule)) start.cursor).eq_ofText.1
    rw [String.length_toList] at hend
    omega
  · have hrestores := restores_read d hfree
    obtain ⟨a, c, hoptional⟩ := hrestores.optional_eq_ok start.cursor
    obtain ⟨items, c', hrepeated⟩ :=
      hrestores.repeatedUpTo_eq_ok (start.cursor.rest.length + 1) start.cursor
    refine ⟨fun e he => ?_, ⟨a, outcome_of_ok hoptional⟩, ⟨items, outcome_of_ok hrepeated⟩⟩
    exact congrArg (Reader.mk text.toList) (hrestores (eq_of_outcome_eq_error he))

/-- Two digits are wanted where one follows: the failure is told there, but the digit is left. -/
theorem run_contract_digits :
    let rule := map String.length (exactly (.nearest 2) .upperHexDigit)
    let start := Reader.ofText "xAG" 1
    rule.PairFree ∧ (start.run (rule.read .empty)).1 = .error (.grammar (.tooFew 2 1) 2) ∧
      (start.run (rule.read .empty)).2 = start := by
  intro rule start
  have hfree : rule.PairFree := trivial
  have hfails : (start.run (rule.read .empty)).1 = .error (.grammar (.tooFew 2 1) 2) := rfl
  obtain ⟨-, -, -, hcontract⟩ := run_contract .empty rule "xAG" 1
  exact ⟨hfree, hfails, (hcontract hfree).1 _ hfails⟩

/-- A pair does not go back over what its first rule has taken. -/
example : ((Reader.ofText "0AG" 0).run ((pair hexByte hexByte).read .empty)).2.cursor.pos = 2 := rfl

end Rule

end MusicString

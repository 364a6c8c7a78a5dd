import MusicString.Proofs.Rule.Cursor

/-!
# The cursor of a reader

Whatever is done with a reader, its cursor stays in the text.  A read either fails and leaves the
cursor where it was, or succeeds and leaves it there or further on; only moving back on purpose
takes it back.

* `Reading`: the reads of characters, tokens, numbers and expressions;
* `Reader.Step`: all that can be done with a reader, and `Reader.after` a run of steps;
* `Reader.inText_after`: the cursor after any steps;
* `Reader.steps_contract`: what each read does there.
-/

namespace MusicString

open Text

/-! ### Reads -/

/-- The reads of characters, tokens, numbers and expressions, by what they give. -/
inductive Reading : Type → Type
  | peek : Reading (Option Char)
  | advance : Reading (Option Char)
  | eat (x : Char) : Reading Bool
  | expect (x : Char) : Reading Unit
  | skipWhiteSpace : Reading Unit
  | restOfLine : Reading (List Char)
  | token (consume : Bool) (delimiters : List Char) : Reading (List Char)
  | chars (count : Option Nat) (strict : Bool) (classes : List CharClass) (set : List Char) :
    Reading (List Char)
  | byte (radix : Nat) : Reading Byte
  | reference : Reading (Option String)
  | double : Reading Float
  | byteExpr : Reading (Expr Byte)
  | intExpr : Reading (Expr Integer)
  | longExpr : Reading (Expr Long)
  | doubleExpr : Reading (Expr Float)

/-- The read itself. -/
def Reading.read : {α : Type} → Reading α → Read α
  | _, peek => Read.peek
  | _, advance => Read.advance
  | _, eat x => Read.eat x
  | _, expect x => Read.expect x
  | _, skipWhiteSpace => Read.skipWhiteSpace
  | _, restOfLine => Read.restOfLine
  | _, token consume delimiters => Read.token consume delimiters
  | _, chars count strict classes set => Read.chars count strict classes set
  | _, byte radix => Read.byte radix
  | _, reference => Read.reference
  | _, double => Read.double
  | _, byteExpr => Read.byteExpr
  | _, intExpr => Read.intExpr
  | _, longExpr => Read.longExpr
  | _, doubleExpr => Read.doubleExpr

namespace Read

variable {α : Type}

theorem within_eat (x : Char) : (eat x).Within := by
  intro c
  by_cases hx : c.peek = some x
  · rw [finalState_of_ok (eat_of_peek hx)]
    exact ⟨1, Cursor.length_pos_of_peek hx, rfl⟩
  · rw [finalState_of_ok (eat_of_not_peek hx)]
    exact .refl c

theorem within_run (p : Char → Bool) : (run p).Within :=
  fun _ => ⟨_, (List.takeWhile_prefix p).length_le, rfl⟩

theorem advance_apply (c : Cursor) :
    advance c = .ok c.peek (if c.peek.isSome then c.move 1 else c) := by
  unfold advance
  cases hpeek : c.peek <;> simp [bind, EStateM.bind, hpeek] <;> rfl

theorem within_advance : advance.Within := by
  intro c
  rw [finalState_of_ok (advance_apply c)]
  cases hpeek : c.peek with
  | none => exact .refl c
  | some x => exact ⟨1, Cursor.length_pos_of_peek hpeek, rfl⟩

theorem within_expect (x : Char) : (expect x).Within := by
  refine (within_eat x).bind fun eaten => ?_
  cases eaten with
  | true => exact .pure ()
  | false => exact fun c => .refl c

theorem within_byte (radix : Nat) : (byte radix).Within := by
  unfold byte
  split
  · exact within_of_keeps fun f _ => f.keeps_decimalByte
  · exact within_of_keeps fun f _ => f.keeps_hexByte
  · exact fun c => .refl c

end Read

namespace Reading

open Read

variable {α : Type}

/-- A read moves forward within the text. -/
theorem within_read (reading : Reading α) : reading.read.Within := by
  cases reading with
  | peek => exact fun c => .refl c
  | advance => exact within_advance
  | eat x => exact within_eat x
  | expect x => exact within_expect x
  | skipWhiteSpace => exact (within_run _).bind fun _ => .pure ()
  | restOfLine => exact (within_run _).bind fun _ => .pure _
  | token consume delimiters => exact within_token consume delimiters
  | chars count strict classes set =>
    exact within_of_keeps fun f hf => Frame.keeps_chars count strict (Frame.stops_of_nil hf)
  | byte radix => exact within_byte radix
  | reference => exact within_of_keeps fun f _ => f.keeps_reference
  | double => exact within_of_keeps fun f _ => f.keeps_double
  | byteExpr => exact within_of_keeps fun f _ => f.keeps_byteExpr
  | intExpr => exact within_of_keeps fun f _ => f.keeps_intExpr
  | longExpr => exact within_of_keeps fun f _ => f.keeps_longExpr
  | doubleExpr => exact within_of_keeps fun f _ => f.keeps_doubleExpr

/-- A read takes nothing if it fails. -/
theorem restores_read (reading : Reading α) : reading.read.Restores := by
  cases reading with
  | peek | skipWhiteSpace | restOfLine => exact .of_neverFails fun c => ⟨_, _, rfl⟩
  | advance => exact .of_neverFails fun c => ⟨_, _, advance_apply c⟩
  | eat x => exact .of_neverFails (neverFails_eat x)
  | expect x => exact restores_expect x
  | token consume delimiters => exact .of_neverFails (neverFails_token consume delimiters)
  | chars count strict classes set => exact restores_chars count strict classes set
  | byte radix => exact restores_byte radix
  | reference => exact restores_reference
  | double => exact restores_double
  | byteExpr => exact restores_byteExpr
  | intExpr => exact restores_intExpr
  | longExpr => exact restores_longExpr
  | doubleExpr => exact restores_doubleExpr

end Reading

/-! ### Steps -/

namespace Reader

/-- What can be done with a reader. -/
inductive Step
  | unread
  | rewind (n : Nat)
  | read {α : Type} (reading : Reading α)

/-- The reader after a step, whether it succeeds or fails. -/
def Step.after (reader : Reader) : Step → Reader
  | unread => reader.unread
  | rewind n => reader.rewind n
  | read reading => (reader.run reading.read).2

/-- The reader after steps, in order. -/
def after (reader : Reader) (steps : List Step) : Reader :=
  steps.foldl Step.after reader

/-- The reader of the text has its cursor at a place of the text. -/
def InText (text : String) (reader : Reader) : Prop :=
  ∃ n ≤ text.length, reader = ofText text n

variable {text : String} {reader : Reader}

theorem inText_of_reaches {n : Nat} {c : Cursor} (h : (Cursor.ofText text.toList n).Reaches c) :
    InText text ⟨text.toList, c⟩ := by
  obtain ⟨hle, hplace⟩ := h.eq_ofText
  rw [String.length_toList] at hle
  exact ⟨c.pos, hle, congrArg (mk text.toList) hplace⟩

theorem inText_ofText (text : String) (n : Nat) : InText text (ofText text n) :=
  inText_of_reaches (.refl _)

/-- One step. -/
theorem InText.step (h : InText text reader) (step : Step) : InText text (step.after reader) := by
  obtain ⟨n, -, rfl⟩ := h
  cases step with
  | unread => exact inText_ofText text _
  | rewind m => exact inText_ofText text m
  | read reading =>
    rw [Step.after, run_eq]
    exact inText_of_reaches (reading.within_read _)

/-- Any steps. -/
theorem InText.after (h : InText text reader) (steps : List Step) :
    InText text (reader.after steps) := by
  induction steps generalizing reader with
  | nil => exact h
  | cons step later ih => exact ih (h.step step)

/-- The cursor tells what follows. -/
theorem InText.eq_ofText (h : InText text reader) :
    reader.cursor.pos ≤ text.length ∧ reader = ofText text reader.cursor.pos := by
  obtain ⟨n, hn, rfl⟩ := h
  have hpos : (ofText text n).cursor.pos = n :=
    Nat.min_eq_left (hn.trans_eq String.length_toList.symm)
  rw [hpos]
  exact ⟨hn, rfl⟩

/--
**The cursor of a reader.**  After any steps from any start, the cursor stands in the text or at its
end, and it is at the end exactly if no character follows.  Every read that fails there leaves the
reader as it was, and every read that succeeds leaves the cursor where it was or further on.
-/
theorem steps_contract (text : String) (start : Nat) (steps : List Step) :
    let reader := (ofText text start).after steps
    reader.cursor.pos ≤ text.length ∧ reader = ofText text reader.cursor.pos ∧
      (reader.run Read.peek).1 = .ok text.toList[reader.cursor.pos]? ∧
      (reader.run Read.atEnd).1 = .ok (decide (text.length ≤ reader.cursor.pos)) ∧
      ((reader.run Read.atEnd).1 = .ok true ↔ (reader.run Read.peek).1 = .ok none) ∧
      ∀ (α : Type) (reading : Reading α),
        match reader.run reading.read with
        | (.error _, next) => next = reader
        | (.ok _, next) =>
          reader.cursor.pos ≤ next.cursor.pos ∧ next.cursor.pos ≤ text.length := by
  intro reader
  have hreader : InText text reader := (inText_ofText text start).after steps
  obtain ⟨hle, heq⟩ := hreader.eq_ofText
  have hrest : reader.cursor.rest = text.toList.drop reader.cursor.pos :=
    congrArg (·.cursor.rest) heq
  have hpeek : reader.cursor.peek = text.toList[reader.cursor.pos]? := by
    rw [Cursor.peek, hrest, List.head?_drop]
  have hend : reader.cursor.rest.isEmpty = decide (text.length ≤ reader.cursor.pos) := by
    rw [hrest, ← String.length_toList, Bool.eq_iff_iff]
    simp
  refine ⟨hle, heq, congrArg Except.ok hpeek, congrArg Except.ok hend, ?_, fun α reading => ?_⟩
  · show Except.ok reader.cursor.rest.isEmpty = _ ↔ Except.ok reader.cursor.peek = _
    cases hc : reader.cursor.rest <;> simp [Cursor.peek, hc]
  · cases hread : reading.read reader.cursor with
    | ok a c =>
      have hforward := reading.within_read.of_ok hread
      have hnext := (hreader.step (.read reading)).eq_ofText.1
      simp only [Step.after, run, hread] at hnext ⊢
      exact ⟨hforward.pos_le, hnext⟩
    | error e c =>
      obtain rfl := reading.restores_read hread
      simp only [run, hread]

/-- A reference that is not closed is not taken, not even its bracket. -/
example : ((ofText "[ab" 7).after [.rewind 0, .read .reference]).cursor.pos = 0 := by
  decide

end Reader

end MusicString

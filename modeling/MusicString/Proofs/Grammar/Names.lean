import MusicString.Proofs.Element.Names
import MusicString.Proofs.Grammar.Failure
import MusicString.Proofs.Read.Spelling

/-!
# The names in a text

Every reference of an element that is read from a text has a name that stands in brackets there.
Likewise, a rule looks into the dictionary only for a name that stands in brackets at the cursor.
So what is read from a text depends on the dictionary through these names alone.

* `Read.bracketedNames`: the names that stand in brackets in a text;
* `Read.Cites`: a read whose results refer to such names, with its rules for binding and repeating;
* `Grammar.cites_element`: elements refer to names that stand in brackets;
* `Grammar.element_congr`: and are read alike with dictionaries that agree on these names.
-/

namespace MusicString.Read

open Text

variable {α β : Type} {names : Set String}

theorem forall_mem_none {p : α → Prop} : ∀ a ∈ (none : Option α), p a :=
  fun a ha => absurd ha (Option.not_mem_none a)

/-- The names that stand in brackets somewhere in a text. -/
def bracketedNames (text : List Char) : Set String :=
  {name | (∀ x ∈ name.toList, x ≠ ']' ∧ isWhiteSpace x = false) ∧ bracketed name.toList <:+: text}

/-- A cursor that moves forward leaves names behind, and finds no new ones. -/
theorem bracketedNames_move (c : Cursor) (n : Nat) :
    bracketedNames (c.move n).rest ⊆ bracketedNames c.rest :=
  fun _ hname => ⟨hname.1, hname.2.trans (List.drop_suffix n c.rest).isInfix⟩

/--
In a text whose bracketed names are all among `names`, the read moves forward and what it gives
satisfies `P`.
-/
def Cites (names : Set String) (r : Read α) (P : α → Prop) : Prop :=
  ∀ ⦃c : Cursor⦄ ⦃a : α⦄ ⦃c' : Cursor⦄, bracketedNames c.rest ⊆ names → r c = .ok a c' →
    P a ∧ ∃ n, c' = c.move n

namespace Cites

variable {r s : Read α} {P : α → Prop} {Q : β → Prop}

theorem of_keeps (h : ∀ f : Frame, f.after = [] → f.Keeps r) : Cites names r fun _ => True :=
  fun _ _ _ _ hr => ⟨trivial, moves_of_keeps h hr⟩

theorem pure {a : α} (h : P a) : Cites names (pure a) P := by
  intro c b c' _ hr
  cases hr
  exact ⟨h, 0, rfl⟩

theorem bind {k : α → Read β} (hr : Cites names r P) (hk : ∀ a, P a → Cites names (k a) Q) :
    Cites names (r >>= k) Q := by
  intro c b c' hc h
  obtain ⟨a, e, hfirst, hthen⟩ := bind_eq_ok h
  obtain ⟨ha, m, rfl⟩ := hr hc hfirst
  obtain ⟨hb, n, rfl⟩ := hk a ha ((bracketedNames_move c m).trans hc) hthen
  exact ⟨hb, m + n, Cursor.move_move c m n⟩

theorem map {g : α → β} (hr : Cites names r P) (hg : ∀ a, P a → Q (g a)) :
    Cites names (g <$> r) Q := by
  rw [map_eq_pure_bind]
  exact hr.bind fun a ha => pure (hg a ha)

theorem none : Cites names (Pure.pure none : Read (Option α)) fun next => ∀ a ∈ next, P a :=
  pure forall_mem_none

theorem some {g : α → β} (hr : Cites names r P) (hg : ∀ a, P a → Q (g a)) :
    Cites names (do return Option.some (g (← r))) fun next => ∀ b ∈ next, Q b :=
  hr.bind fun a ha => pure fun _ hb => Option.mem_some.1 hb ▸ hg a ha

/-- A read that keeps to its text tells nothing of what it gives. -/
theorem bind_of_keeps {k : α → Read β} (hr : ∀ f : Frame, f.after = [] → f.Keeps r)
    (hk : ∀ a, Cites names (k a) Q) : Cites names (r >>= k) Q :=
  (of_keeps hr).bind fun a _ => hk a

theorem throw (e : ParseError) : Cites names (throw e : Read α) P := by
  intro c a c' _ h
  cases h

theorem unexpected (wanted : String) : Cites names (Read.unexpected wanted : Read α) P := by
  intro c a c' _ h
  cases h

theorem position_bind {k : Nat → Read α} (hk : ∀ n, Cites names (k n) P) :
    Cites names (position >>= k) P :=
  fun c _ _ hc h => hk c.pos hc h

/-- A choice by the next character. -/
theorem ite_peek {p : Char → Bool} (hr : Cites names r P) (hs : Cites names s P) :
    Cites names (do if (← Read.peek).any p then r else s) P := by
  intro c a c' hc h
  change (if c.peek.any p = true then r else s) c = .ok a c' at h
  split at h
  · exact hr hc h
  · exact hs hc h

/-- A choice by whether a character can be taken. -/
theorem ite_eat {x : Char} (hr : Cites names r P) (hs : Cites names s P) :
    Cites names (do if ← eat x then r else s) P := by
  refine bind_of_keeps (fun f h => Frame.keeps_eat (Frame.stops_of_nil h)) fun eaten => ?_
  cases eaten with
  | true => exact hr
  | false => exact hs

/-- What a step keeps is kept by steps that are repeated. -/
theorem iterate {step : α → Read (Option α)}
    (hstep : ∀ a, P a → Cites names (step a) fun next => ∀ b ∈ next, P b) {a : α} (ha : P a) :
    Cites names (Read.iterate step a) P := by
  have hupTo (n : Nat) : ∀ a, P a → Cites names (iterateUpTo step n a) P := by
    induction n with
    | zero => exact fun a ha => pure ha
    | succ n ih =>
      refine fun a ha => (hstep a ha).bind fun next hnext => ?_
      cases next with
      | some b => exact ih b (hnext b rfl)
      | none => exact pure ha
  exact fun c _ _ hc h => hupTo _ a ha hc h

end Cites

/-! ### Expressions -/

theorem cites_reference : Cites names reference fun name => ∀ n ∈ name, n ∈ names := by
  intro c name c' hc h
  refine ⟨?_, moves_of_keeps (fun f _ => f.keeps_reference) h⟩
  rintro n ⟨⟩
  obtain ⟨t, ht, ⟨-, hchars⟩, rfl⟩ := meets_reference.sound h
  exact hc ⟨hchars, ht ▸ (List.prefix_append _ _).isInfix⟩

theorem cites_expr {literal : Read α} (h : ∀ f : Frame, f.after = [] → f.Keeps literal) :
    Cites names (expr literal) (·.RefersTo names) := by
  refine cites_reference.bind fun name hname => ?_
  cases name with
  | some name => exact .pure (hname name rfl)
  | none => exact .bind_of_keeps h fun _ => .pure trivial

theorem cites_byteExpr : Cites names byteExpr (·.RefersTo names) :=
  cites_expr fun f _ => f.keeps_decimalByte

theorem cites_intExpr : Cites names intExpr (·.RefersTo names) :=
  cites_expr fun f _ => f.keeps_integer

theorem cites_longExpr : Cites names longExpr (·.RefersTo names) :=
  cites_expr fun f _ => f.keeps_long _

theorem cites_doubleExpr : Cites names doubleExpr (·.RefersTo names) :=
  cites_expr fun f _ => f.keeps_double

end MusicString.Read

namespace MusicString.Grammar

open Read

variable {names : Set String}

/-! ### Notes -/

theorem cites_octave : Cites names octave fun octave => ∀ e ∈ octave, e.RefersTo names := by
  refine .bind_of_keeps (fun f h => f.keeps_runUpTo 2 (Frame.stops_of_nil h)) fun ds => ?_
  split
  · exact .none
  · exact .pure fun _ he => Option.mem_some.1 he ▸ trivial

theorem cites_accidentals (start : Nat) : Cites names (accidentals start) fun _ => True := by
  refine .bind_of_keeps (fun f h => f.keeps_run (Frame.stops_of_nil h)) fun run => ?_
  dsimp only
  split
  · exact .pure trivial
  · exact .throw _

theorem cites_namedNote {name : String} (h : name ∈ names) (start : Nat) :
    Cites names (namedNote name start) (·.RefersTo names) := by
  unfold namedNote
  split
  · split
    · exact .pure trivial
    · exact .throw _
  · exact .pure h

theorem cites_noteValue : Cites names noteValue (·.RefersTo names) := by
  intro c value c' hc h
  refine ⟨?_, moves_of_keeps (fun f _ => f.keeps_noteValue) h⟩
  cases hstarts : c.peek.any Pitch.startsNote with
  | false =>
    rw [noteValue_of_not_start hstarts] at h
    cases h
  | true =>
    obtain ⟨x, hx, hstarts⟩ := (Option.any_eq_true _ _).1 hstarts
    rcases Pitch.startsNote_cases hstarts with ⟨base, hbase⟩ | rfl | rfl
    · rw [noteValue_of_letter hx hbase] at h
      have hletter : Cites names (do
          let shift ← accidentals c.pos
          return .pitch (base + shift) (← octave)) (NoteValue.RefersTo names) :=
        (cites_accidentals _).bind fun _ _ => cites_octave.bind fun _ h => .pure h
      exact (hletter ((bracketedNames_move c 1).trans hc) h).1
    · rw [noteValue_of_rest hx] at h
      cases h
      trivial
    · rw [noteValue_of_bracket hx] at h
      refine (cites_reference.bind (fun name hname => ?_) hc h).1
      cases name with
      | some name => exact cites_namedNote (hname name rfl) _
      | none => exact .unexpected _

/-- The intervals of a chord that is written by its name are numbers. -/
theorem cites_chord :
    Cites names chord fun chord => ∀ c ∈ chord, ∀ e ∈ c.intervals, e.RefersTo names := by
  refine .bind_of_keeps (fun f h => f.keeps_optional (f.keeps_keyword fun _ _ =>
    Frame.stops_of_nil h)) fun name => ?_
  cases name with
  | none => exact .none
  | some name =>
    refine .some (.of_keeps fun f h => f.keeps_run (Frame.stops_of_nil h)) fun marks _ e he => ?_
    obtain ⟨i, -, rfl⟩ := List.mem_map.1 he
    trivial

theorem cites_chordOf (value : NoteValue) :
    Cites names (chordOf value) fun chord => ∀ c ∈ chord, ∀ e ∈ c.intervals, e.RefersTo names := by
  cases value with
  | rest => exact .none
  | pitch => exact cites_chord
  | numeric => exact cites_chord

theorem cites_length : Cites names Grammar.length fun length => ∀ e ∈ length, e.RefersTo names := by
  refine .ite_eat (cites_doubleExpr.some fun _ he => he) (.ite_peek ?_ .none)
  exact .some (.of_keeps fun f h => f.keeps_run (Frame.stops_of_nil h)) fun _ _ => trivial

theorem cites_velocity {note : NoteElement} (h : note.RefersTo names) :
    Cites names (velocity note) fun next => ∀ n ∈ next, n.RefersTo names := by
  refine .ite_eat (cites_byteExpr.some fun e he => ?_)
    (.ite_eat (cites_byteExpr.some fun e he => ?_) .none)
  · exact ⟨h.value, h.chord, h.duration, fun _ hmem => Option.mem_some.1 hmem ▸ he, h.decay⟩
  · exact ⟨h.value, h.chord, h.duration, h.attack, fun _ hmem => Option.mem_some.1 hmem ▸ he⟩

theorem cites_leadingTie {note : NoteElement} (h : note.RefersTo names) :
    Cites names (leadingTie note) (·.RefersTo names) := by
  intro c n c' _ hread
  refine ⟨?_, moves_of_keeps (fun f _ => f.keeps_leadingTie note) hread⟩
  rw [leadingTie_apply] at hread
  split at hread
  · cases hread
    split <;> exact ⟨h.value, h.chord, h.duration, h.attack, h.decay⟩
  · cases hread
    exact h

theorem cites_noteFrom (placement : Placement) {value : NoteValue} (h : value.RefersTo names) :
    Cites names (noteFrom placement value) (·.RefersTo names) := by
  refine (cites_chordOf value).bind fun chord hchord => ?_
  refine (cites_leadingTie ⟨h, hchord, forall_mem_none, forall_mem_none, forall_mem_none⟩).bind
    fun base hbase => ?_
  refine cites_length.bind fun duration hduration => ?_
  refine .bind_of_keeps (fun f _ => f.keeps_tuplet) fun tuplet => ?_
  refine .bind_of_keeps (fun f h => f.keeps_eat (Frame.stops_of_nil h)) fun tied => ?_
  exact .iterate (fun note => cites_velocity)
    ⟨hbase.value, hbase.chord, hduration, hbase.attack, hbase.decay⟩

theorem cites_note (placement : Placement) : Cites names (note placement) (·.RefersTo names) :=
  cites_noteValue.bind fun _ => cites_noteFrom placement

theorem cites_joined {notes : List NoteElement} (h : ∀ n ∈ notes, n.RefersTo names) :
    Cites names (joined notes) fun next => ∀ notes ∈ next, ∀ n ∈ notes, n.RefersTo names := by
  have hnext (placement : Placement) : Cites names (do
      return some (notes ++ [← note placement])) fun next =>
        ∀ notes ∈ next, ∀ n ∈ notes, NoteElement.RefersTo names n :=
    (cites_note placement).some fun n hn =>
      List.forall_mem_append.2 ⟨h, List.forall_mem_singleton.2 hn⟩
  exact .ite_eat (hnext .parallel) (.ite_eat (hnext .sequential) .none)

theorem refersTo_collect {notes : List NoteElement} (h : ∀ n ∈ notes, n.RefersTo names) :
    (collect notes).RefersTo names := by
  unfold collect
  split
  · exact h _ (List.mem_singleton_self _)
  · exact h

theorem cites_noteToken : Cites names noteToken (·.RefersTo names) := by
  refine (cites_note .sequential).bind fun first hfirst => ?_
  refine (Cites.iterate (fun _ => cites_joined) (List.forall_mem_singleton.2 hfirst)).bind
    fun notes hnotes => .pure (refersTo_collect hnotes)

/-! ### Other tokens -/

theorem cites_definition : Cites names definition (·.RefersTo names) := by
  refine .bind_of_keeps (fun f h => f.keeps_name (Frame.stops_of_nil h)) fun name => ?_
  refine .bind_of_keeps (fun f h => f.keeps_expect (Frame.stops_of_nil h)) fun _ => ?_
  refine .position_bind fun start => .bind_of_keeps (fun f _ => f.keeps_token) fun text => ?_
  split
  · exact .pure trivial
  · exact .throw _

theorem cites_comment : Cites names comment (·.RefersTo names) :=
  .bind_of_keeps (fun f h => Frame.Keeps.bind (f.keeps_run (Frame.stops_of_nil h)) fun _ =>
    Frame.Keeps.pure _) fun _ => .pure trivial

theorem cites_property : Cites names property (·.RefersTo names) := by
  refine .bind_of_keeps (fun f h => f.keeps_name (Frame.stops_of_nil h)) fun name => ?_
  refine .bind_of_keeps (fun f h => f.keeps_expect (Frame.stops_of_nil h)) fun _ => ?_
  exact .bind_of_keeps (fun f _ => f.keeps_token) fun text => .pure trivial

theorem cites_controller : Cites names controller (·.RefersTo names) := by
  refine cites_intExpr.bind fun index hindex => ?_
  refine .bind_of_keeps (fun f h => f.keeps_expect (Frame.stops_of_nil h)) fun _ => ?_
  exact cites_intExpr.bind fun value hvalue => .pure ⟨hindex, hvalue⟩

theorem cites_polyphonicPressure : Cites names polyphonicPressure (·.RefersTo names) := by
  refine cites_byteExpr.bind fun key hkey => ?_
  refine .bind_of_keeps (fun f h => f.keeps_expect (Frame.stops_of_nil h)) fun _ => ?_
  exact cites_byteExpr.bind fun pressure hpressure => .pure ⟨hkey, hpressure⟩

theorem cites_nextByte {bytes : List (Expr Byte)} (h : ∀ e ∈ bytes, e.RefersTo names) :
    Cites names (nextByte bytes) fun next => ∀ bytes ∈ next, ∀ e ∈ bytes, e.RefersTo names := by
  refine .ite_eat (cites_byteExpr.some fun e he => ?_) .none
  exact List.forall_mem_append.2 ⟨h, List.forall_mem_singleton.2 he⟩

theorem cites_decimalBytes :
    Cites names decimalBytes fun bytes => ∀ e ∈ bytes, e.RefersTo names :=
  cites_byteExpr.bind fun _ hfirst =>
    .iterate (fun _ => cites_nextByte) (List.forall_mem_singleton.2 hfirst)

theorem cites_hexBytes : Cites names hexBytes fun bytes => ∀ e ∈ bytes, e.RefersTo names := by
  refine .bind_of_keeps (fun f _ => f.keeps_repeated f.keeps_hexByte (forward_of_keeps fun f _ =>
    f.keeps_hexByte)) fun bytes => ?_
  split
  · exact .unexpected _
  · refine .pure fun e he => ?_
    obtain ⟨n, -, rfl⟩ := List.mem_map.1 he
    trivial

theorem cites_systemExclusive : Cites names systemExclusive (·.RefersTo names) := by
  refine .bind_of_keeps (fun f _ => f.keeps_word) fun mode => ?_
  refine .bind_of_keeps (fun f h => f.keeps_expect (Frame.stops_of_nil h)) fun _ => ?_
  split
  · exact cites_hexBytes.bind fun bytes hbytes => .pure hbytes
  · exact cites_decimalBytes.bind fun bytes hbytes => .pure hbytes

/-! ### Rules -/

/-- A rule that claims only elements which refer to names that stand in brackets. -/
def TokenRule.Cites (names : Set String) (rule : TokenRule) : Prop :=
  ∀ d, Read.Cites names (rule.read d) fun claim => ∀ e ∈ claim, e.RefersTo names

theorem cites_marked {label : String} {mark : Char} {body : Read Element}
    (h : Read.Cites names body (·.RefersTo names)) : (marked label mark body).Cites names :=
  fun _ => .ite_eat (h.some fun _ he => he) .none

theorem cites_keySignatureRule : keySignatureRule.Cites names := by
  refine fun d => .position_bind fun start => .ite_eat ?_ .none
  refine .bind_of_keeps (fun f _ => f.keeps_keyLetter) fun letter => ?_
  refine (cites_accidentals start).bind fun shift _ => ?_
  exact .some (.of_keeps fun f h => f.keeps_keyword fun _ _ => Frame.stops_of_nil h)
    fun scale _ => ⟨trivial, trivial⟩

/-- Whatever its role, a lone reference refers to its name and to nothing else. -/
theorem refersTo_referenceElement {name : String} (h : name ∈ names) (role : Role) :
    (referenceElement name role).RefersTo names := by
  cases role with
  | value => exact ⟨h, forall_mem_none, forall_mem_none, forall_mem_none, forall_mem_none⟩
  | _ => exact h

theorem cites_referenceRule : referenceRule.Cites names := by
  intro d c claim c' hc h
  refine ⟨?_, moves_of_keeps (fun f _ => f.keeps_referenceRule d) h⟩
  obtain ⟨start, e, hstart, h⟩ := bind_eq_ok h
  cases hstart
  obtain ⟨name, e', hname, h⟩ := bind_eq_ok h
  have hnames := (cites_reference hc hname).1
  cases name with
  | none =>
    cases h
    exact forall_mem_none
  | some name =>
    obtain ⟨boundary, e'', -, h⟩ := bind_eq_ok h
    split at h
    · cases h
      exact forall_mem_none
    · cases hentry : d.get? name <;> rw [hentry] at h <;> cases h
      exact fun element he => Option.mem_some.1 he ▸ refersTo_referenceElement (hnames name rfl) _

theorem cites_noteRule : noteRule.Cites names :=
  fun _ => .ite_peek (cites_noteToken.some fun _ he => he) .none

theorem cites_rule {rule : TokenRule} (hrule : rule ∈ rules) : rule.Cites names := by
  simp only [rules, List.mem_cons, List.not_mem_nil, or_false] at hrule
  rcases hrule with rfl | rfl | rfl | rfl | rfl | rfl | rfl | rfl | rfl | rfl | rfl | rfl | rfl |
    rfl | rfl | rfl | rfl
  · exact cites_marked cites_definition
  · exact cites_marked cites_comment
  · exact cites_marked cites_property
  · exact cites_marked (cites_byteExpr.map fun _ he => he)
  · exact cites_marked (cites_byteExpr.map fun _ he => he)
  · exact cites_marked (cites_intExpr.map fun _ he => he)
  · exact cites_marked (cites_byteExpr.map fun _ he => he)
  · exact cites_keySignatureRule
  · exact cites_marked cites_controller
  · exact cites_marked (cites_longExpr.map fun _ he => he)
  · exact cites_marked (.pure trivial)
  · exact cites_marked (cites_intExpr.map fun _ he => he)
  · exact cites_marked (cites_byteExpr.map fun _ he => he)
  · exact cites_marked cites_polyphonicPressure
  · exact cites_marked cites_systemExclusive
  · exact cites_referenceRule
  · exact cites_noteRule

/-- **References come from brackets.**  An element refers to names that stand in brackets. -/
theorem cites_element (d : Dictionary) : Read.Cites names (element d) (·.RefersTo names) := by
  have hclaim : ∀ rest ⊆ rules,
      Read.Cites names (firstClaim d rest) fun claim => ∀ e ∈ claim, e.RefersTo names := by
    intro rest hrest
    induction rest with
    | nil => exact .none
    | cons rule rest ih =>
      obtain ⟨hrule, hrest⟩ := List.cons_subset.1 hrest
      refine (cites_rule hrule d).bind fun claim hclaim => ?_
      cases claim with
      | some claimed => exact .pure hclaim
      | none => exact ih hrest
  refine (hclaim rules (List.Subset.refl _)).bind fun claim hclaim => ?_
  cases claim with
  | some claimed => exact .pure (hclaim claimed rfl)
  | none => exact .unexpected _

/-! ### Reading with another dictionary -/

section Congr

variable {d d' : Dictionary} {c : Cursor} (h : Dictionary.AgreeOn names d d')
  (hc : bracketedNames c.rest ⊆ names)

include h hc

theorem referenceRule_congr : referenceRule.read d c = referenceRule.read d' c := by
  have hget : (get : Read Cursor) c = .ok c c := rfl
  refine (bind_of_ok hget).trans (Eq.trans ?_ (bind_of_ok hget).symm)
  cases hname : reference c with
  | error e c' => rw [bind_of_error _ hname, bind_of_error _ hname]
  | ok name c' =>
    rw [bind_of_ok hname, bind_of_ok hname]
    cases name with
    | none => rfl
    | some name => simp only [h name ((cites_reference hc hname).1 name rfl)]

theorem rule_congr {rule : TokenRule} (hrule : rule ∈ rules) : rule.read d c = rule.read d' c := by
  rcases rule_cases hrule with ⟨label, mark, body, rfl, -⟩ | rfl | rfl | rfl
  · rfl
  · rfl
  · exact referenceRule_congr h hc
  · rfl

/-- An element is read alike with dictionaries that agree on the names in brackets. -/
theorem element_congr : element d c = element d' c := by
  have hclaim : ∀ rest ⊆ rules, firstClaim d rest c = firstClaim d' rest c := by
    intro rest hrest
    induction rest with
    | nil => rfl
    | cons rule rest ih =>
      obtain ⟨hrule, hrest⟩ := List.cons_subset.1 hrest
      show EStateM.bind (rule.read d) _ c = EStateM.bind (rule.read d') _ c
      unfold EStateM.bind
      rw [← rule_congr h hc hrule]
      rcases hclaim : rule.read d c with ⟨_ | claimed, c'⟩ | ⟨e, c'⟩
      · -- A rule that declines leaves the cursor to the other rules.
        obtain rfl := declines_of_mem_rules hrule hclaim
        exact ih hrest
      · rfl
      · rfl
  show EStateM.bind (firstClaim d rules) _ c = EStateM.bind (firstClaim d' rules) _ c
  unfold EStateM.bind
  rw [hclaim rules (List.Subset.refl _)]

end Congr

end MusicString.Grammar

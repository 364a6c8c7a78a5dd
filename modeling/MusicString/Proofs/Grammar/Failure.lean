import MusicString.Proofs.Grammar.Element
import MusicString.Proofs.Read.Failure

/-!
# How the rules fail

What a token says can be wrong in two ways while it is read: a letter carries too many accidentals,
or a lone reference names nothing.  Every other failure of a rule is one of grammar.  The failure
stands where the token starts, with one exception: a letter in a collection is reported where its
own note starts, which is after the `+` or `_` that joins it to the notes before it.

* `OverAltered`: a note with too many accidentals, and its failure;
* `JoinedOverAltered`: such a note among the later ones of a collection;
* `element_fails`: all failures of reading an element.
-/

namespace MusicString.Grammar

open Read

variable {c c' : Cursor} {e : ParseError}

/-- The failure of a note at the cursor whose letter carries too many accidentals. -/
def OverAltered (c : Cursor) (e : ParseError) : Prop :=
  ∃ letter run rest, c.rest = letter :: (run ++ rest) ∧ (Pitch.offset? letter).isSome ∧
    run.all Pitch.isAccidental = true ∧ 12 < (Pitch.accidentals run).natAbs ∧
    e = .evaluation (.outOfRange .accidentals (Pitch.accidentals run) (-12) 12) c.pos

/-- The failure of such a note that follows `n` characters from the cursor on and a joint. -/
def JoinedOverAltered (c : Cursor) (e : ParseError) : Prop :=
  ∃ n joint, (joint = '+' ∨ joint = '_') ∧ (c.move n).peek = some joint ∧
    OverAltered (c.move (n + 1)) e

/-! ### Notes -/

theorem accidentals_fails {start : Nat} (h : accidentals start c = .error e c') :
    ∃ run rest, c.rest = run ++ rest ∧ run.all Pitch.isAccidental = true ∧
      12 < (Pitch.accidentals run).natAbs ∧
      e = .evaluation (.outOfRange .accidentals (Pitch.accidentals run) (-12) 12) start := by
  rcases bind_eq_error h with h | ⟨run, d, hrun, h⟩
  · cases h
  · rw [run_apply] at hrun
    cases hrun
    dsimp only at h
    split at h
    · cases h
    · next hmost =>
      cases h
      refine ⟨_, _, (List.takeWhile_append_dropWhile (p := Pitch.isAccidental)).symm,
        List.all_takeWhile, ?_, rfl⟩
      simp only [Pitch.maxAccidentals] at hmost
      omega

theorem grammatical_octave : octave.Grammatical := by
  refine (grammatical_runUpTo 2 _).bind fun ds => ?_
  split
  · exact .pure _
  · exact .pure _

theorem grammatical_namedNote (name : String) (start : Nat) :
    (namedNote name start).Grammatical := by
  unfold namedNote
  split
  · split
    · exact .pure _
    · exact .throw _ _
  · exact .pure _

theorem noteValue_fails (h : noteValue c = .error e c') : e.kind = .grammar ∨ OverAltered c e := by
  cases hstarts : c.peek.any Pitch.startsNote with
  | false =>
    rw [noteValue_of_not_start hstarts] at h
    cases h
    exact .inl rfl
  | true =>
    obtain ⟨x, hx, hstarts⟩ := (Option.any_eq_true _ _).1 hstarts
    rcases Pitch.startsNote_cases hstarts with ⟨base, hbase⟩ | rfl | rfl
    · rw [noteValue_of_letter hx hbase] at h
      rcases bind_eq_error h with h | ⟨shift, d, -, h⟩
      · obtain ⟨run, rest, hrest, hrun, hmost, he⟩ := accidentals_fails h
        refine .inr ⟨x, run, rest, ?_, by simp [hbase], hrun, hmost, he⟩
        rw [← hrest]
        exact Cursor.rest_of_peek hx
      · exact .inl (grammatical_octave.bind (fun _ => .pure _) h)
    · rw [noteValue_of_rest hx] at h
      cases h
    · rw [noteValue_of_bracket hx] at h
      refine .inl (grammatical_reference.bind (fun name => ?_) h)
      cases name with
      | some name => exact grammatical_namedNote name _
      | none => exact .unexpected _

theorem grammatical_chord : chord.Grammatical := by
  refine (grammatical_keyword _).optional.bind fun name => ?_
  cases name with
  | none => exact .pure _
  | some name => exact (grammatical_run _).bind fun _ => .pure _

theorem grammatical_length : Grammar.length.Grammatical := by
  refine (grammatical_eat _).bind fun eaten => ?_
  cases eaten with
  | true => exact (grammatical_expr grammatical_double).bind fun _ => .pure _
  | false => exact .ite_peek ((grammatical_run _).bind fun _ => .pure _) (.pure _)

theorem grammatical_tupletNumber : tupletNumber.Grammatical := by
  refine grammatical_position.bind fun start => (grammatical_run _).bind fun ds => ?_
  split
  · exact .unexpected _
  · split
    · exact .pure _
    · exact .throw _ _

theorem grammatical_tuplet : tuplet.Grammatical := by
  refine (grammatical_eat _).bind fun eaten => ?_
  cases eaten with
  | false => exact .pure _
  | true =>
    refine .ite_peek ?_ (.pure _)
    refine grammatical_position.bind fun start => grammatical_tupletNumber.bind fun count => ?_
    refine (grammatical_expect _).bind fun _ => grammatical_tupletNumber.bind fun span => ?_
    split
    · exact .throw _ _
    · exact .pure _

theorem grammatical_leadingTie (note : NoteElement) : (leadingTie note).Grammatical := by
  intro c e d h
  rw [leadingTie_apply] at h
  split at h <;> cases h

theorem grammatical_velocity (note : NoteElement) : (velocity note).Grammatical := by
  refine (grammatical_eat _).bind fun attack => ?_
  cases attack with
  | true => exact grammatical_byteExpr.bind fun _ => .pure _
  | false =>
    refine (grammatical_eat _).bind fun decay => ?_
    cases decay with
    | true => exact grammatical_byteExpr.bind fun _ => .pure _
    | false => exact .pure _

theorem grammatical_noteFrom (placement : Placement) (value : NoteValue) :
    (noteFrom placement value).Grammatical := by
  have hchord : (chordOf value).Grammatical := by
    cases value with
    | rest => exact .pure _
    | pitch => exact grammatical_chord
    | numeric => exact grammatical_chord
  refine hchord.bind fun chord => (grammatical_leadingTie _).bind fun base => ?_
  refine grammatical_length.bind fun duration => grammatical_tuplet.bind fun tuplet => ?_
  exact (grammatical_eat _).bind fun tied => .iterate grammatical_velocity _

theorem note_fails {placement : Placement} (h : note placement c = .error e c') :
    e.kind = .grammar ∨ OverAltered c e := by
  rcases bind_eq_error h with h | ⟨value, d, -, h⟩
  · exact noteValue_fails h
  · exact .inl (grammatical_noteFrom placement value h)

/-! ### Collections -/

theorem joined_fails {notes : List NoteElement} (h : joined notes c = .error e c') :
    e.kind = .grammar ∨ JoinedOverAltered c e := by
  -- The note after a joint fails at its own start, one character on.
  have hnote {joint : Char} {placement : Placement} (hjoint : joint = '+' ∨ joint = '_')
      (hpeek : c.peek = some joint)
      (h : (do return some (notes ++ [← note placement]) : Read (Option (List NoteElement)))
        (c.move 1) = .error e c') : e.kind = .grammar ∨ JoinedOverAltered c e := by
    rcases bind_eq_error h with h | ⟨n, d, -, h⟩
    · exact (note_fails h).imp_right fun hover => ⟨0, joint, hjoint, hpeek, hover⟩
    · cases h
  unfold joined at h
  by_cases hplus : c.peek = some '+'
  · rw [bind_of_ok (eat_of_peek hplus)] at h
    exact hnote (.inl rfl) hplus h
  · rw [bind_of_ok (eat_of_not_peek hplus)] at h
    by_cases hbar : c.peek = some '_'
    · change (eat '_' >>= _) c = _ at h
      rw [bind_of_ok (eat_of_peek hbar)] at h
      exact hnote (.inr rfl) hbar h
    · change (eat '_' >>= _) c = _ at h
      rw [bind_of_ok (eat_of_not_peek hbar)] at h
      cases h

/-- The notes after the first one, wherever in the collection they stand. -/
theorem iterateUpTo_joined_fails {n : Nat} {notes : List NoteElement}
    (h : iterateUpTo joined n notes c = .error e c') :
    e.kind = .grammar ∨ JoinedOverAltered c e := by
  induction n generalizing notes c with
  | zero => cases h
  | succ n ih =>
    rw [iterateUpTo_succ] at h
    split at h
    · next later d hstep =>
      obtain ⟨m, rfl⟩ := moves_of_keeps (fun f _ => f.keeps_joined notes) hstep
      refine (ih h).imp_right fun ⟨k, joint, hjoint, hpeek, hover⟩ => ⟨m + k, joint, hjoint, ?_, ?_⟩
      · rwa [Cursor.move_move] at hpeek
      · rwa [Cursor.move_move, ← Nat.add_assoc] at hover
    · cases h
    · next hstep =>
      cases h
      exact joined_fails hstep

theorem noteToken_fails (h : noteToken c = .error e c') :
    e.kind = .grammar ∨ e.position = c.pos ∨ JoinedOverAltered c e := by
  rcases bind_eq_error h with h | ⟨first, d, hfirst, h⟩
  · refine (note_fails h).imp_right fun ⟨letter, run, rest, _, _, _, _, he⟩ => .inl ?_
    rw [he]
    rfl
  · rcases bind_eq_error h with h | ⟨notes, d', -, h⟩
    · obtain ⟨m, rfl⟩ := moves_of_keeps (fun f _ => f.keeps_note _) hfirst
      refine (iterateUpTo_joined_fails h).imp_right fun ⟨k, joint, hjoint, hpeek, hover⟩ =>
        .inr ⟨m + k, joint, hjoint, ?_, ?_⟩
      · rwa [Cursor.move_move] at hpeek
      · rwa [Cursor.move_move, ← Nat.add_assoc] at hover
    · cases h

/-! ### Other tokens -/

theorem grammatical_name (marks : List Char) (wanted : String) :
    (Grammar.name marks wanted).Grammatical := by
  refine (grammatical_run _).bind fun name => ?_
  split
  · exact .unexpected _
  · exact .pure _

theorem grammatical_definition : definition.Grammatical := by
  refine (grammatical_name _ _).bind fun name => (grammatical_expect _).bind fun _ => ?_
  refine grammatical_position.bind fun start => (grammatical_token _).bind fun text => ?_
  split
  · exact .pure _
  · exact .throw _ _

theorem grammatical_comment : comment.Grammatical :=
  ((grammatical_run _).bind fun _ => .pure _).bind fun _ => .pure _

theorem grammatical_property : property.Grammatical := by
  refine (grammatical_name _ _).bind fun key => (grammatical_expect _).bind fun _ => ?_
  exact (grammatical_token _).bind fun _ => .pure _

theorem grammatical_keyLetter : keyLetter.Grammatical := by
  intro c e d h
  cases hx : c.peek.bind Pitch.fifths? with
  | some fifths =>
    obtain ⟨x, hx, hfifths⟩ := Option.bind_eq_some_iff.1 hx
    obtain ⟨offset, hoffset⟩ := Pitch.offset?_isSome_of_fifths? hfifths
    rw [keyLetter_of_letter hx hfifths hoffset] at h
    cases h
  | none =>
    rw [keyLetter_of_not_letter hx] at h
    cases h
    rfl

theorem grammatical_controller : controller.Grammatical := by
  refine grammatical_intExpr.bind fun index => (grammatical_expect _).bind fun _ => ?_
  exact grammatical_intExpr.bind fun _ => .pure _

theorem grammatical_polyphonicPressure : polyphonicPressure.Grammatical := by
  refine grammatical_byteExpr.bind fun note => (grammatical_expect _).bind fun _ => ?_
  exact grammatical_byteExpr.bind fun _ => .pure _

theorem grammatical_decimalBytes : decimalBytes.Grammatical := by
  refine grammatical_byteExpr.bind fun first => .iterate (fun bytes => ?_) _
  refine (grammatical_eat _).bind fun eaten => ?_
  cases eaten with
  | true => exact grammatical_byteExpr.bind fun _ => .pure _
  | false => exact .pure _

theorem grammatical_hexBytes : hexBytes.Grammatical := by
  refine grammatical_hexByte.repeated.bind fun bytes => ?_
  split
  · exact .unexpected _
  · exact .pure _

theorem grammatical_systemExclusive : systemExclusive.Grammatical := by
  refine (grammatical_word _ _).bind fun mode => (grammatical_expect _).bind fun _ => ?_
  split
  · exact grammatical_hexBytes.bind fun _ => .pure _
  · exact grammatical_decimalBytes.bind fun _ => .pure _

/-! ### Rules -/

/-- What the failure of a rule at the cursor can be. -/
def RuleFailure (c : Cursor) (e : ParseError) : Prop :=
  e.kind = .grammar ∨ e.position = c.pos ∨ JoinedOverAltered c e

theorem keySignatureRule_fails {d : Dictionary} (h : keySignatureRule.read d c = .error e c') :
    RuleFailure c e := by
  rcases bind_eq_error h with h | ⟨start, _, hstart, h⟩
  · cases h
  · cases hstart
    rcases bind_eq_error h with h | ⟨eaten, _, -, h⟩
    · exact .inl (grammatical_eat _ h)
    · cases eaten with
      | false => cases h
      | true =>
        rcases bind_eq_error h with h | ⟨letter, _, -, h⟩
        · exact .inl (grammatical_keyLetter h)
        · rcases bind_eq_error h with h | ⟨shift, _, -, h⟩
          · obtain ⟨run, rest, -, -, -, rfl⟩ := accidentals_fails h
            exact .inr (.inl rfl)
          · exact .inl ((grammatical_keyword _).bind (fun _ => .pure _) h)

theorem referenceRule_fails {d : Dictionary} (h : referenceRule.read d c = .error e c') :
    RuleFailure c e := by
  rcases bind_eq_error h with h | ⟨start, _, hstart, h⟩
  · cases h
  · cases hstart
    rcases bind_eq_error h with h | ⟨name, _, -, h⟩
    · exact .inl (grammatical_reference h)
    · cases name with
      | none => cases h
      | some name =>
        rcases bind_eq_error h with h | ⟨boundary, _, -, h⟩
        · cases h
        · split at h
          · cases h
          · cases hentry : d.get? name <;> rw [hentry] at h <;> cases h
            exact .inr (.inl rfl)

theorem noteRule_fails {d : Dictionary} (h : noteRule.read d c = .error e c') :
    RuleFailure c e := by
  rcases bind_eq_error h with h | ⟨next, _, hnext, h⟩
  · cases h
  · cases hnext
    split at h
    · rcases bind_eq_error h with h | ⟨element, _, -, h⟩
      · exact noteToken_fails h
      · cases h
    · cases h

theorem marked_fails {name : String} {mark : Char} {body : Read Element} (hbody : body.Grammatical)
    (d : Dictionary) : ((marked name mark body).read d).Grammatical := by
  refine (grammatical_eat mark).bind fun eaten => ?_
  cases eaten with
  | true => exact hbody.bind fun _ => .pure _
  | false => exact .pure _

theorem rule_fails {rule : TokenRule} (hrule : rule ∈ rules) {d : Dictionary}
    (h : rule.read d c = .error e c') : RuleFailure c e := by
  have hmarked {name : String} {mark : Char} {body : Read Element} (hbody : body.Grammatical)
      (h : (marked name mark body).read d c = .error e c') : RuleFailure c e :=
    .inl (marked_fails hbody d h)
  simp only [rules, List.mem_cons, List.not_mem_nil, or_false] at hrule
  rcases hrule with rfl | rfl | rfl | rfl | rfl | rfl | rfl | rfl | rfl | rfl | rfl | rfl | rfl |
    rfl | rfl | rfl | rfl
  · exact hmarked grammatical_definition h
  · exact hmarked grammatical_comment h
  · exact hmarked grammatical_property h
  · exact hmarked (grammatical_byteExpr.map _) h
  · exact hmarked (grammatical_byteExpr.map _) h
  · exact hmarked (grammatical_intExpr.map _) h
  · exact hmarked (grammatical_byteExpr.map _) h
  · exact keySignatureRule_fails h
  · exact hmarked grammatical_controller h
  · exact hmarked ((grammatical_expr (grammatical_long _)).map _) h
  · exact hmarked (.pure _) h
  · exact hmarked (grammatical_intExpr.map _) h
  · exact hmarked (grammatical_byteExpr.map _) h
  · exact hmarked grammatical_polyphonicPressure h
  · exact hmarked grammatical_systemExclusive h
  · exact referenceRule_fails h
  · exact noteRule_fails h

/-- **Reading an element** fails for reasons of grammar, at its start, or after a joint. -/
theorem element_fails {d : Dictionary} (h : element d c = .error e c') : RuleFailure c e := by
  have hclaim : ∀ rest ⊆ rules, ∀ c', firstClaim d rest c = .error e c' → RuleFailure c e := by
    intro rest hrest
    induction rest with
    | nil =>
      intro c' h
      cases h
    | cons rule rest ih =>
      intro c' h
      obtain ⟨hrule, hrest⟩ := List.cons_subset.1 hrest
      rcases bind_eq_error h with h | ⟨claim, c'', hread, h⟩
      · exact rule_fails hrule h
      · cases claim with
        | some claimed => cases h
        | none =>
          rw [declines_of_mem_rules hrule hread] at h
          exact ih hrest c' h
  rcases bind_eq_error h with h | ⟨claim, d', -, h⟩
  · exact hclaim rules (List.Subset.refl _) c' h
  · cases claim with
    | some claimed => cases h
    | none =>
      cases h
      exact .inl rfl

end MusicString.Grammar

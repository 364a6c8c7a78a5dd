import MusicString.Grammar.Token
import MusicString.Proofs.Read.Locality

/-!
# Rules keep to their token

Every rule reads a token in the same way whether the token stands alone or inside a pattern, where
white space follows it.  The comment rule is special in that it takes white space as well: it keeps
to a frame whose text goes on, if at all, with a line break.
-/

namespace MusicString.Frame

open Text Read Grammar

variable {f : Frame}

/-! ### Notes -/

theorem follows_accidentals {start start' : Nat} (h : f.Shifted start start') :
    f.Follows Eq (accidentals start) (accidentals start') := by
  unfold accidentals
  refine Keeps.bind (keeps_run (f.stops_of_all (by decide))) fun run => ?_
  dsimp only
  split
  · exact Keeps.pure _
  · exact Follows.throw (h.reports_evaluation _)

theorem keeps_octave : f.Keeps octave := by
  unfold octave
  refine Keeps.bind (keeps_runUpTo 2 (f.stops_of_all (by decide))) fun ds => ?_
  split
  · exact Keeps.pure _
  · exact Keeps.pure _

theorem follows_namedNote (name : String) {start start' : Nat} (h : f.Shifted start start') :
    f.Follows Eq (namedNote name start) (namedNote name start') := by
  unfold namedNote
  split
  · split
    · exact Keeps.pure _
    · exact Follows.throw (h.reports_grammar _)
  · exact Keeps.pure _

theorem keeps_noteValue : f.Keeps noteValue := by
  intro c c' hc
  have hstart := hc.peek_any (p := Pitch.startsNote) (f.stops_of_all (by decide))
  cases hstarts : c.peek.any Pitch.startsNote with
  | false =>
    rw [noteValue_of_not_start hstarts, noteValue_of_not_start (hstart.trans hstarts)]
    exact .error (hc.reports_unexpected _) hc
  | true =>
    obtain ⟨x, hx, hstarts⟩ := (Option.any_eq_true _ _).1 hstarts
    have hx' := hc.peek_of_some hx
    have hmove := hc.move (Cursor.length_pos_of_peek hx)
    rcases Pitch.startsNote_cases hstarts with ⟨base, hbase⟩ | rfl | rfl
    · rw [noteValue_of_letter hx hbase, noteValue_of_letter hx' hbase]
      refine Follows.bind (follows_accidentals hc.shifted) (fun shift _ h => ?_) hmove
      exact h ▸ Keeps.bind keeps_octave fun _ => Keeps.pure _
    · rw [noteValue_of_rest hx, noteValue_of_rest hx']
      exact .ok rfl hmove
    · rw [noteValue_of_bracket hx, noteValue_of_bracket hx']
      refine Keeps.bind keeps_reference (fun name => ?_) hc
      cases name with
      | some name => exact follows_namedNote name hc.shifted
      | none => exact follows_unexpected _

theorem keeps_chord : f.Keeps chord := by
  have hnames : ∀ w ∈ Chord.names, w.toList.all (! isWhiteSpace ·) = true := by decide
  unfold chord
  refine Keeps.bind (keeps_optional (keeps_keyword fun w hw => ?_)) fun name => ?_
  · exact f.stops_contains (hnames w hw)
  · cases name with
    | none => exact Keeps.pure _
    | some name =>
      exact Keeps.bind (keeps_run (f.stops_of_all (by decide))) fun marks => Keeps.pure _

theorem keeps_length : f.Keeps Grammar.length := by
  unfold Grammar.length
  refine Keeps.bind (keeps_eat (f.stops_of_all (by decide))) fun eaten => ?_
  cases eaten with
  | true => exact Keeps.bind keeps_doubleExpr fun e => Keeps.pure _
  | false =>
    refine Follows.ite_peek (f.stops_of_all (by decide)) ?_ (Keeps.pure _)
    exact Keeps.bind (keeps_run (f.stops_of_all (by decide))) fun letters => Keeps.pure _

theorem keeps_tupletNumber : f.Keeps tupletNumber := by
  unfold tupletNumber
  refine Follows.bind follows_position fun start start' hstart => ?_
  refine Keeps.bind keeps_digits fun ds => ?_
  split
  · exact follows_unexpected _
  · split
    · exact Keeps.pure _
    · exact Follows.throw (hstart.reports_grammar _)

theorem keeps_tuplet : f.Keeps tuplet := by
  unfold tuplet
  refine Keeps.bind (keeps_eat (f.stops_of_all (by decide))) fun eaten => ?_
  cases eaten with
  | false => exact Keeps.pure _
  | true =>
    refine Follows.ite_peek (f.stops_of_all (by decide)) ?_ (Keeps.pure _)
    refine Follows.bind follows_position fun start start' hstart => ?_
    refine Keeps.bind keeps_tupletNumber fun count => ?_
    refine Keeps.bind (keeps_expect (f.stops_of_all (by decide))) fun _ => ?_
    refine Keeps.bind keeps_tupletNumber fun span => ?_
    split
    · exact Follows.throw (hstart.reports_grammar _)
    · exact Keeps.pure _

theorem keeps_leadingTie (note : NoteElement) : f.Keeps (leadingTie note) := by
  intro c c' hc
  have htie := hc.peek_eq_some (x := '-') (f.stops_of_all (by decide))
  by_cases hpeek : c.peek = some '-'
  · have hpos := Cursor.length_pos_of_peek hpeek
    have hnext := hc.peekAt_any hpos (p := Length.starts) (f.stops_of_all (by decide))
    simp only [leadingTie_apply, hpeek, htie.2 hpeek, hnext, ↓reduceIte]
    exact .ok rfl (hc.move hpos)
  · simp only [leadingTie_apply, hpeek, mt htie.1 hpeek, ↓reduceIte]
    exact .ok rfl hc

theorem keeps_velocity (note : NoteElement) : f.Keeps (velocity note) := by
  unfold velocity
  refine Keeps.bind (keeps_eat (f.stops_of_all (by decide))) fun attack => ?_
  cases attack with
  | true => exact Keeps.bind keeps_byteExpr fun e => Keeps.pure _
  | false =>
    refine Keeps.bind (keeps_eat (f.stops_of_all (by decide))) fun decay => ?_
    cases decay with
    | true => exact Keeps.bind keeps_byteExpr fun e => Keeps.pure _
    | false => exact Keeps.pure _

theorem advances_velocity (note : NoteElement) : (velocity note).Advances := by
  refine advances_eat (forward_of_keeps fun f _ => ?_)
    (advances_eat (forward_of_keeps fun f _ => ?_) advances_none)
  · exact Keeps.bind keeps_byteExpr fun _ => Keeps.pure _
  · exact Keeps.bind keeps_byteExpr fun _ => Keeps.pure _

theorem keeps_chordOf (value : NoteValue) : f.Keeps (chordOf value) := by
  cases value with
  | rest => exact Keeps.pure _
  | pitch => exact keeps_chord
  | numeric => exact keeps_chord

theorem keeps_noteFrom (placement : Placement) (value : NoteValue) :
    f.Keeps (noteFrom placement value) := by
  unfold noteFrom
  refine Keeps.bind (keeps_chordOf value) fun chord => ?_
  refine Keeps.bind (keeps_leadingTie _) fun base => ?_
  refine Keeps.bind keeps_length fun duration => ?_
  refine Keeps.bind keeps_tuplet fun tuplet => ?_
  refine Keeps.bind (keeps_eat (f.stops_of_all (by decide))) fun tied => ?_
  exact keeps_iterate keeps_velocity advances_velocity _

theorem keeps_note (placement : Placement) : f.Keeps (note placement) :=
  Keeps.bind keeps_noteValue fun value => keeps_noteFrom placement value

theorem advances_joined (notes : List NoteElement) : (joined notes).Advances := by
  refine advances_eat (forward_of_keeps fun f _ => ?_)
    (advances_eat (forward_of_keeps fun f _ => ?_) advances_none)
  · exact Keeps.bind (keeps_note _) fun _ => Keeps.pure _
  · exact Keeps.bind (keeps_note _) fun _ => Keeps.pure _

theorem keeps_joined (notes : List NoteElement) : f.Keeps (joined notes) := by
  unfold joined
  refine Keeps.bind (keeps_eat (f.stops_of_all (by decide))) fun parallel => ?_
  cases parallel with
  | true => exact Keeps.bind (keeps_note _) fun _ => Keeps.pure _
  | false =>
    refine Keeps.bind (keeps_eat (f.stops_of_all (by decide))) fun sequential => ?_
    cases sequential with
    | true => exact Keeps.bind (keeps_note _) fun _ => Keeps.pure _
    | false => exact Keeps.pure _

theorem keeps_noteToken : f.Keeps noteToken := by
  unfold noteToken
  refine Keeps.bind (keeps_note _) fun first => ?_
  exact Keeps.bind (keeps_iterate keeps_joined advances_joined _) fun _ => Keeps.pure _

/-! ### Other tokens -/

theorem keeps_name {marks : List Char} {wanted : String}
    (h : f.Stops (isWanted [.letter, .decimalDigit] marks)) :
    f.Keeps (Grammar.name marks wanted) := by
  unfold Grammar.name
  refine Keeps.bind (keeps_run h) fun name => ?_
  split
  · exact follows_unexpected _
  · exact Keeps.pure _

theorem keeps_definition : f.Keeps definition := by
  unfold definition
  refine Keeps.bind (keeps_name (f.stops_of_all (by decide +kernel))) fun name => ?_
  refine Keeps.bind (keeps_expect (f.stops_of_all (by decide))) fun _ => ?_
  refine Follows.bind follows_position fun start start' hstart => ?_
  refine Keeps.bind keeps_token fun text => ?_
  split
  · exact Keeps.pure _
  · exact Follows.throw (hstart.reports_grammar _)

theorem keeps_comment (h : f.Stops (· ≠ '\n')) : f.Keeps comment :=
  Keeps.bind (Keeps.bind (keeps_run h) fun _ => Keeps.pure _) fun _ => Keeps.pure _

theorem keeps_property : f.Keeps property := by
  unfold property
  refine Keeps.bind (keeps_name (f.stops_of_all (by decide +kernel))) fun key => ?_
  refine Keeps.bind (keeps_expect (f.stops_of_all (by decide))) fun _ => ?_
  exact Keeps.bind keeps_token fun _ => Keeps.pure _

theorem keeps_keyLetter : f.Keeps keyLetter := by
  intro c c' hc
  have hany := hc.peek_any (p := fun x => (Pitch.fifths? x).isSome) (f.stops_of_all (by decide))
  cases hx : c.peek.bind Pitch.fifths? with
  | some fifths =>
    obtain ⟨x, hx, hfifths⟩ := Option.bind_eq_some_iff.1 hx
    obtain ⟨offset, hoffset⟩ := Pitch.offset?_isSome_of_fifths? hfifths
    rw [keyLetter_of_letter hx hfifths hoffset,
      keyLetter_of_letter (hc.peek_of_some hx) hfifths hoffset]
    exact .ok rfl (hc.move (Cursor.length_pos_of_peek hx))
  | none =>
    have hx' : c'.peek.bind Pitch.fifths? = none := by
      cases hc' : c'.peek <;> cases hpeek : c.peek <;> simp_all
    -- At the end of the text the wording depends on whether anything follows.
    rw [keyLetter_of_not_letter hx, keyLetter_of_not_letter hx']
    refine .error (hc.reports_unexpected_of fun hafter => ?_) hc
    rw [Cursor.peek, Cursor.peek, hc.rest_eq, hafter, List.append_nil]

theorem keeps_controller : f.Keeps controller := by
  unfold controller
  refine Keeps.bind keeps_intExpr fun index => ?_
  refine Keeps.bind (keeps_expect (f.stops_of_all (by decide))) fun _ => ?_
  exact Keeps.bind keeps_intExpr fun _ => Keeps.pure _

theorem keeps_polyphonicPressure : f.Keeps polyphonicPressure := by
  unfold polyphonicPressure
  refine Keeps.bind keeps_byteExpr fun note => ?_
  refine Keeps.bind (keeps_expect (f.stops_of_all (by decide))) fun _ => ?_
  exact Keeps.bind keeps_byteExpr fun _ => Keeps.pure _

theorem keeps_nextByte (bytes : List (Expr Byte)) : f.Keeps (nextByte bytes) := by
  unfold nextByte
  refine Keeps.bind (keeps_eat (f.stops_of_all (by decide))) fun eaten => ?_
  cases eaten with
  | true => exact Keeps.bind keeps_byteExpr fun _ => Keeps.pure _
  | false => exact Keeps.pure _

theorem advances_nextByte (bytes : List (Expr Byte)) : (nextByte bytes).Advances := by
  refine advances_eat (forward_of_keeps fun f _ => ?_) advances_none
  exact Keeps.bind keeps_byteExpr fun _ => Keeps.pure _

theorem keeps_decimalBytes : f.Keeps decimalBytes :=
  Keeps.bind keeps_byteExpr fun _ => keeps_iterate keeps_nextByte advances_nextByte _

theorem keeps_hexBytes : f.Keeps hexBytes := by
  unfold hexBytes
  have hforward := forward_of_keeps fun f _ => keeps_hexByte (f := f)
  refine Keeps.bind (keeps_repeated keeps_hexByte hforward) fun bytes => ?_
  split
  · exact follows_unexpected _
  · exact Keeps.pure _

theorem keeps_systemExclusive : f.Keeps systemExclusive := by
  unfold systemExclusive
  refine Keeps.bind keeps_word fun mode => ?_
  refine Keeps.bind (keeps_expect (f.stops_of_all (by decide))) fun _ => ?_
  split
  · exact Keeps.bind keeps_hexBytes fun _ => Keeps.pure _
  · exact Keeps.bind keeps_decimalBytes fun _ => Keeps.pure _

/-! ### Rules -/

theorem keeps_marked (d : Dictionary) {name : String} {mark : Char} {body : Read Element}
    (hmark : f.Stops (· == mark)) (hbody : f.Keeps body) :
    f.Keeps ((marked name mark body).read d) := by
  refine Keeps.bind (keeps_eat hmark) fun eaten => ?_
  cases eaten with
  | true => exact Keeps.bind hbody fun _ => Keeps.pure _
  | false => exact Keeps.pure _

theorem keeps_keySignatureRule (d : Dictionary) : f.Keeps (keySignatureRule.read d) := by
  refine Follows.bind follows_position fun start start' hstart => ?_
  refine Keeps.bind (keeps_eat (f.stops_of_all (by decide))) fun eaten => ?_
  cases eaten with
  | false => exact Keeps.pure _
  | true =>
    refine Keeps.bind keeps_keyLetter fun letter => ?_
    refine Follows.bind (follows_accidentals hstart) fun shift _ hshift => ?_
    refine hshift ▸ Keeps.bind (keeps_keyword fun w hw => f.stops_contains ?_) fun _ => Keeps.pure _
    revert w
    decide

theorem keeps_referenceRule (d : Dictionary) : f.Keeps (referenceRule.read d) := by
  refine Follows.get_bind fun start start' hstart => ?_
  refine Keeps.bind keeps_reference fun name => ?_
  cases name with
  | none => exact Keeps.pure _
  | some name =>
    refine Keeps.bind keeps_atBoundary fun boundary => ?_
    split
    · exact Follows.set_bind hstart (Keeps.pure _)
    · split
      · exact Keeps.pure _
      · exact Follows.throw (hstart.shifted.reports_evaluation _)

theorem keeps_noteRule (d : Dictionary) : f.Keeps (noteRule.read d) :=
  Follows.ite_peek (f.stops_of_all (by decide)) (Keeps.bind keeps_noteToken fun _ => Keeps.pure _)
    (Keeps.pure _)

/-- The rules read a token alike, a comment only if it goes on, if at all, with a line break. -/
theorem agrees_rule (d : Dictionary) {c c' : Cursor} (hc : f.Places c c')
    (h : f.Stops (· ≠ '\n') ∨ c.peek ≠ some '#') :
    ∀ rule ∈ rules, f.Agrees Eq (rule.read d c) (rule.read d c') := by
  -- A comment goes on over white space, so this rule needs the hypothesis, or it declines.
  have hcomment : f.Agrees Eq ((marked "comment" '#' comment).read d c)
      ((marked "comment" '#' comment).read d c') := by
    have hmark : f.Stops (· == '#') := f.stops_of_all (by decide)
    rcases h with hline | hpeek
    · exact keeps_marked d hmark (keeps_comment hline) hc
    · have hpeek' := mt (hc.peek_eq_some hmark).1 hpeek
      show f.Agrees Eq ((eat '#' >>= _ : Read _) c) ((eat '#' >>= _ : Read _) c')
      simp only [bind, EStateM.bind, eat_of_not_peek hpeek, eat_of_not_peek hpeek']
      exact .ok rfl hc
  have hmarked {name : String} {mark : Char} {body : Read Element} (hbody : f.Keeps body)
      (hmark : whiteSpaceChars.all (! · == mark) = true) :
      f.Agrees Eq ((marked name mark body).read d c) ((marked name mark body).read d c') :=
    keeps_marked d (f.stops_of_all hmark) hbody hc
  have hbyte {g : Expr Byte → Element} : f.Keeps (g <$> byteExpr) := Keeps.map g keeps_byteExpr
  have hint {g : Expr Integer → Element} : f.Keeps (g <$> intExpr) := Keeps.map g keeps_intExpr
  simp only [rules, List.forall_mem_cons]
  refine ⟨hmarked keeps_definition (by decide), hcomment, hmarked keeps_property (by decide),
    hmarked hbyte (by decide), hmarked hbyte (by decide), hmarked hint (by decide),
    hmarked hbyte (by decide), keeps_keySignatureRule d hc, hmarked keeps_controller (by decide),
    hmarked (Keeps.map _ keeps_longExpr) (by decide), hmarked (Keeps.pure _) (by decide),
    hmarked hint (by decide), hmarked hbyte (by decide),
    hmarked keeps_polyphonicPressure (by decide), hmarked keeps_systemExclusive (by decide),
    keeps_referenceRule d hc, keeps_noteRule d hc, by simp⟩

end MusicString.Frame

import MusicString.Proofs.Grammar.NoteText

/-!
# Reading notes

What each read of the grammar of notes takes, and from this what a note token is: a text is read as
a single note, to its end, exactly if it is in the language `NoteText.note`.
-/

namespace MusicString.Grammar

open Read Text
open scoped Computability

/-! ### Values -/

theorem meets_accidentals (start : Nat) : (accidentals start).Meets fun t total rest =>
    total = Pitch.accidentals t ∧ total.natAbs ≤ 12 ∧ (∀ x ∈ t, Pitch.isAccidental x = true) ∧
      rest.head?.any Pitch.isAccidental = false := by
  unfold accidentals
  refine ((meets_run _).bind_check (R := fun run total =>
    total = Pitch.accidentals run ∧ total.natAbs ≤ 12) fun run => ?_).congr fun t total rest => ?_
  · have hbound : ((Pitch.accidentals run).natAbs : Int) ≤ Pitch.maxAccidentals ↔
        (Pitch.accidentals run).natAbs ≤ 12 := by
      rw [Pitch.maxAccidentals]
      omega
    refine (Meets.ite (Meets.pure _) (Meets.throw _)).congr fun t total rest => ?_
    rw [hbound]
    grind
  · constructor
    · rintro ⟨htotal, hle, hall, hrest⟩
      exact ⟨t, ⟨rfl, hall, hrest⟩, htotal, hle⟩
    · rintro ⟨run, ⟨rfl, hall, hrest⟩, htotal, hle⟩
      exact ⟨htotal, hle, hall, hrest⟩

/-- The octave that digits give. -/
def octaveOf (ds : List Char) : Option (Expr Byte) :=
  if ds = [] then none else some (.literal (Byte.nearest (Decimal.value ds)))

theorem meets_octave : octave.Meets fun t o rest =>
    o = octaveOf t ∧ t.length ≤ 2 ∧ IsDigits t ∧
      (t.length < 2 → rest.head?.any Char.isDigit = false) := by
  unfold octave
  refine ((meets_runUpTo 2 Char.isDigit).bind_check (R := fun ds o => o = octaveOf ds)
    fun ds => ?_).congr fun t o rest => ?_
  · unfold octaveOf
    by_cases hds : ds = [] <;> simp only [hds, ↓reduceIte] <;> exact Meets.pure _
  · constructor
    · rintro ⟨ho, ht⟩
      exact ⟨t, ⟨rfl, ht⟩, ho⟩
    · rintro ⟨ds, ⟨rfl, ht⟩, ho⟩
      exact ⟨ho, ht⟩

/-- What a bracketed text names as a note, if it names one. -/
def namedValue? (name : String) : Option NoteValue :=
  if Decimal.allDigits name.toList then
    (Ranged.ofInt? (Decimal.value name.toList : Int)).map fun n => .numeric (.literal n)
  else some (.numeric (.reference name))

theorem meets_namedNote (name : String) (start : Nat) :
    (namedNote name start).Meets fun t v _ => t = [] ∧ namedValue? name = some v := by
  unfold namedNote namedValue?
  split
  · cases hn : (Ranged.ofInt? (Decimal.value name.toList : Int) : Option Byte) with
    | some n => exact (Meets.pure _).congr fun t v rest => by simp [eq_comm]
    | none => exact (Meets.throw _).congr fun t v rest => by simp
  · exact (Meets.pure _).congr fun t v rest => by simp [eq_comm]

/-- The spellings of the value of a note. -/
inductive SpelledValue : List Char → NoteValue → List Char → Prop
  | rest {after : List Char} : SpelledValue ['R'] .rest after
  | named {name : String} {v : NoteValue} {after : List Char} :
    name.toList ∈ nameText → namedValue? name = some v →
    SpelledValue (bracketed name.toList) v after
  | pitch {x : Char} {base : Int} {run ds after : List Char} :
    Pitch.offset? x = some base → (Pitch.accidentals run).natAbs ≤ 12 →
    (∀ y ∈ run, Pitch.isAccidental y = true) → (ds ++ after).head?.any Pitch.isAccidental = false →
    ds.length ≤ 2 → IsDigits ds → (ds.length < 2 → after.head?.any Char.isDigit = false) →
    SpelledValue (x :: (run ++ ds)) (.pitch (base + Pitch.accidentals run) (octaveOf ds)) after

/-- What follows the letter of a note. -/
theorem meets_afterLetter (base : Int) (start : Nat) :
    Meets (do
        let shift ← accidentals start
        return .pitch (base + shift) (← octave) : Read NoteValue)
      fun t v after => ∃ run ds, t = run ++ ds ∧
        v = .pitch (base + Pitch.accidentals run) (octaveOf ds) ∧
        (Pitch.accidentals run).natAbs ≤ 12 ∧ (∀ y ∈ run, Pitch.isAccidental y = true) ∧
        (ds ++ after).head?.any Pitch.isAccidental = false ∧ ds.length ≤ 2 ∧ IsDigits ds ∧
        (ds.length < 2 → after.head?.any Char.isDigit = false) := by
  refine ((meets_accidentals start).bind fun shift =>
    meets_octave.bind_check fun o => Meets.pure _).congr fun t v after => ?_
  constructor
  · rintro ⟨run, ds, rfl, rfl, hle, hall, hstop, hds⟩
    exact ⟨_, run, ds, rfl, ⟨rfl, hle, hall, hstop⟩, _, ⟨rfl, hds⟩, rfl⟩
  · rintro ⟨shift, run, ds, rfl, ⟨rfl, hle, hall, hstop⟩, o, ⟨rfl, hds⟩, rfl⟩
    exact ⟨run, ds, rfl, rfl, hle, hall, hstop, hds⟩

theorem meets_noteValue : noteValue.Meets SpelledValue where
  complete := by
    intro t v after h k
    cases h with
    | rest => exact noteValue_of_rest rfl
    | @named name _ _ hname hv =>
      rw [noteValue_of_bracket rfl, bind_of_ok (reference_bracketed hname k after)]
      exact (meets_namedNote name k).complete (t := []) ⟨rfl, hv⟩ _
    | @pitch x base run ds _ hbase hle hall hstop hlength hds hrest =>
      rw [noteValue_of_letter rfl hbase]
      have hafter := (meets_afterLetter base k).complete
        ⟨run, ds, rfl, rfl, hle, hall, hstop, hlength, hds, hrest⟩ (k + 1)
      simpa [Cursor.move, Nat.add_assoc, Nat.add_comm 1] using hafter
  sound := by
    intro c v d h
    cases hstarts : c.peek.any Pitch.startsNote with
    | false =>
      rw [noteValue_of_not_start hstarts] at h
      cases h
    | true =>
      obtain ⟨x, hx, hstarts⟩ := (Option.any_eq_true _ _).1 hstarts
      rcases Pitch.startsNote_cases hstarts with ⟨base, hbase⟩ | rfl | rfl
      · rw [noteValue_of_letter hx hbase] at h
        obtain ⟨t, ht, run, ds, rfl, rfl, hspelled⟩ := (meets_afterLetter base _).sound h
        obtain ⟨hle, hall, hstop, hlength, hds, hrest⟩ := hspelled
        refine ⟨x :: (run ++ ds), ?_, .pitch hbase hle hall hstop hlength hds hrest⟩
        rw [Cursor.rest_of_peek hx, ht]
        rfl
      · rw [noteValue_of_rest hx] at h
        cases h
        exact ⟨['R'], Cursor.rest_of_peek hx, .rest⟩
      · rw [noteValue_of_bracket hx] at h
        obtain ⟨name, e, hname, h⟩ := bind_eq_ok h
        obtain ⟨t, ht, hspelled⟩ := meets_reference.sound hname
        cases name with
        | none => cases h
        | some name =>
          obtain ⟨hmem, rfl⟩ := hspelled
          obtain ⟨u, hu, rfl, hv⟩ := (meets_namedNote name _).sound h
          exact ⟨_, by rw [ht, hu]; rfl, .named hmem hv⟩

/-! ### Chords -/

/-- The chord of a name with marks for inversions. -/
def chordOfName (name : String) (inversions : Nat) : ChordSpec where
  name
  intervals := ((Chord.intervals? name).getD []).map fun i : Nat => .literal (Byte.nearest i)
  inversion := Byte.nearest inversions

/-- The spellings of a chord, which is missing if no name follows. -/
inductive SpelledChord : List Char → Option ChordSpec → List Char → Prop
  | missing {rest : List Char} : NoteText.NoChord rest → SpelledChord [] none rest
  | named {name : String} {n : Nat} {rest : List Char} :
    longestMatch Chord.names (name.toList ++ (List.replicate n '^' ++ rest)) = some name →
    rest.head? ≠ some '^' →
    SpelledChord (name.toList ++ List.replicate n '^') (some (chordOfName name n)) rest

/-- What follows the name of a chord: marks for inversions, or nothing if there is no name. -/
def SpelledInversions : Option String → List Char → Option ChordSpec → List Char → Prop
  | some name, t, o, rest =>
    ∃ n, t = List.replicate n '^' ∧ rest.head? ≠ some '^' ∧ o = some (chordOfName name n)
  | none, t, o, _ => t = [] ∧ o = none

theorem meets_chord : chord.Meets SpelledChord := by
  unfold chord
  refine ((meets_optional_keyword Chord.names).bind (R := SpelledInversions) fun name => ?_).congr
    fun t o rest => ?_
  · cases name with
    | none => exact Meets.pure _
    | some name =>
      refine ((meets_run (· = '^')).bind_check fun marks => Meets.pure _).congr fun t o rest => ?_
      have hstop : rest.head?.any (· = '^') = false ↔ rest.head? ≠ some '^' := by
        cases rest.head? <;> simp
      rw [hstop]
      constructor
      · rintro ⟨n, rfl, hrest, rfl⟩
        refine ⟨_, ⟨rfl, fun x hx => decide_eq_true (List.eq_of_mem_replicate hx), hrest⟩, ?_⟩
        rw [List.length_replicate]
        rfl
      · rintro ⟨marks, ⟨rfl, hall, hrest⟩, rfl⟩
        refine ⟨marks.length, List.eq_replicate_of_mem fun x hx => ?_, hrest, rfl⟩
        exact of_decide_eq_true (hall x hx)
  · constructor
    · intro h
      cases h with
      | missing hnone => exact ⟨none, [], [], rfl, ⟨rfl, hnone⟩, rfl, rfl⟩
      | @named name n _ hname hrest =>
        exact ⟨some name, _, _, rfl, ⟨rfl, hname⟩, n, rfl, hrest, rfl⟩
    · rintro ⟨_ | name, u, v, rfl, ⟨rfl, hname⟩, h⟩
      · obtain ⟨rfl, rfl⟩ := h
        exact .missing hname
      · obtain ⟨n, rfl, hrest, rfl⟩ := h
        exact .named hname hrest

/-! ### Lengths, tuplets and ties -/

/-- The spellings of a length. -/
inductive SpelledLength : List Char → Option (Expr Float) → List Char → Prop
  | missing {rest : List Char} : rest.head?.any Length.starts = false → SpelledLength [] none rest
  | number {t : List Char} {e : Expr Float} {rest : List Char} :
    SpelledExpr SpelledDouble t e rest → SpelledLength ('/' :: t) (some e) rest
  | letters {t rest : List Char} : t.head?.any Length.isLetter = true →
    (∀ x ∈ t, (Length.isLetter x || x = '.') = true) →
    rest.head?.any (fun x => Length.isLetter x || x = '.') = false →
    SpelledLength t (some (.literal (Length.ofLetters t))) rest

theorem meets_length : length.Meets SpelledLength := by
  unfold length
  refine (Meets.ite_eat (x := '/') ((meets_expr meets_double).bind_check fun e => Meets.pure _)
    (Meets.ite_peek (p := fun o => o.any Length.isLetter = true)
      ((meets_run _).bind_check fun letters => Meets.pure _) (Meets.pure none))).congr
    fun t o rest => ?_
  constructor
  · intro h
    cases h with
    | missing hrest =>
      have hnone : rest.head? ≠ some '/' ∧ ¬ rest.head?.any Length.isLetter = true := by
        cases hx : rest.head? with
        | none => simp
        | some x =>
          rw [hx] at hrest
          simpa [Length.starts, and_comm] using hrest
      exact .inr ⟨hnone.1, .inr ⟨hnone.2, rfl, rfl⟩⟩
    | number he => exact .inl ⟨_, rfl, _, he, rfl⟩
    | letters hhead hall hrest =>
      cases t with
      | nil => cases hhead
      | cons x t =>
        refine .inr ⟨?_, .inl ⟨hhead, _, ⟨rfl, hall, hrest⟩, rfl⟩⟩
        intro hx
        cases hx
        cases hhead
  · rintro (⟨u, rfl, e, he, rfl⟩ |
      ⟨hslash, ⟨hhead, letters, ⟨rfl, hall, hrest⟩, rfl⟩ | ⟨hhead, rfl, rfl⟩⟩)
    · exact .number he
    · refine .letters ?_ hall hrest
      cases letters with
      | nil =>
        obtain ⟨x, hx, hletter⟩ := (Option.any_eq_true _ _).1 hhead
        simp only [List.nil_append] at hx
        simp [hx, hletter] at hrest
      | cons x letters => exact hhead
    · refine .missing ?_
      cases hx : rest.head? with
      | none => rfl
      | some x =>
        rw [List.nil_append, hx] at hslash hhead
        simp only [Option.any_some, Bool.not_eq_true] at hhead
        have hne : x ≠ '/' := fun h => hslash (congrArg some h)
        simp [Length.starts, hhead, hne]

theorem meets_tupletNumber : tupletNumber.Meets fun t n rest =>
    t ≠ [] ∧ IsDigits t ∧ rest.head?.any Char.isDigit = false ∧ Decimal.value t ≤ maxTuplet ∧
      n = Decimal.value t := by
  unfold tupletNumber
  refine (Meets.position_bind fun start => meets_digits_bind (o := fun ds =>
    if Decimal.value ds ≤ maxTuplet then some (Decimal.value ds) else none)
    (Meets.unexpected _) fun ds hds => ?_).congr fun t n rest => ?_
  · simp only [hds, ↓reduceIte]
    refine (Meets.ite (Meets.pure _) (Meets.throw _)).congr fun t n rest => ?_
    rw [Option.ite_none_right_eq_some, Option.some.injEq, eq_comm (b := n)]
    tauto
  · rw [Option.ite_none_right_eq_some, Option.some.injEq, eq_comm (b := n)]

/-- The spellings of a tuplet. -/
inductive SpelledTuplet : List Char → Option Tuplet → List Char → Prop
  | missing {rest : List Char} : rest.head? ≠ some '*' → SpelledTuplet [] none rest
  | triplet {rest : List Char} :
    rest.head?.any Char.isDigit = false → SpelledTuplet ['*'] (some { }) rest
  | ratio {count span rest : List Char} :
    count ∈ NoteText.number 1 4294967295 → span ∈ NoteText.number 1 4294967295 →
    rest.head?.any Char.isDigit = false →
    SpelledTuplet ('*' :: (count ++ ':' :: span))
      (some { count := Decimal.value count, span := Decimal.value span }) rest

theorem meets_tuplet : tuplet.Meets SpelledTuplet := by
  unfold tuplet
  refine (Meets.ite_eat (x := '*') (Meets.ite_peek (p := fun o => o.any Char.isDigit = true)
    (Meets.position_bind fun start => meets_tupletNumber.bind fun count =>
      (meets_expect ':').bind fun _ => meets_tupletNumber.bind_check
        (R := fun span (o : Option Tuplet) => count ≠ 0 ∧ span ≠ 0 ∧ o = some { count, span })
        fun span => ?_)
    (Meets.pure (some { }))) (Meets.pure none)).congr fun t o rest => ?_
  · by_cases hzero : count = 0 ∨ span = 0
    · simp only [hzero, ↓reduceIte]
      exact (Meets.throw_bind _ _).congr fun t o rest => by tauto
    · simp only [hzero, ↓reduceIte]
      exact (Meets.pure _).congr fun t o rest => by tauto
  · constructor
    · intro h
      cases h with
      | missing hrest => exact .inr ⟨hrest, rfl, rfl⟩
      | triplet hrest => exact .inl ⟨[], rfl, .inr ⟨by simpa using hrest, rfl, rfl⟩⟩
      | @ratio count span _ hcount hspan hrest =>
        obtain ⟨hne, hdigits, hpos, hle⟩ := hcount
        obtain ⟨hne', hdigits', hpos', hle'⟩ := hspan
        refine .inl ⟨_, rfl, .inl ⟨?_, _, count, _, rfl, ⟨hne, hdigits, rfl, hle, rfl⟩, (), [':'],
          span, rfl, rfl, _, ⟨hne', hdigits', hrest, hle', rfl⟩, by omega, by omega, rfl⟩⟩
        rw [List.append_assoc]
        exact head?_any_isDigit hdigits hne _
    · rintro (⟨u, rfl, ⟨-, count, ds, v, rfl, ⟨hne, hdigits, -, hle, rfl⟩, -, colon, ds', rfl, rfl,
        span, ⟨hne', hdigits', hrest, hle', rfl⟩, hpos, hpos', rfl⟩ | ⟨hrest, rfl, rfl⟩⟩ |
        ⟨hrest, rfl, rfl⟩)
      · exact .ratio ⟨hne, hdigits, Nat.one_le_iff_ne_zero.2 hpos, hle⟩
          ⟨hne', hdigits', Nat.one_le_iff_ne_zero.2 hpos', hle'⟩ hrest
      · exact .triplet (by simpa using hrest)
      · exact .missing hrest

theorem meets_leadingTie (note : NoteElement) : (leadingTie note).Meets fun t n rest =>
    (t = ['-'] ∧ n = if rest.head?.any Length.starts then { note with tieEnd := true }
      else { note with tieStart := true }) ∨
    (t = [] ∧ rest.head? ≠ some '-' ∧ n = note) where
  complete := by
    rintro t n rest (⟨rfl, rfl⟩ | ⟨rfl, hrest, rfl⟩) k
    · rw [List.head?_eq_getElem?]
      exact (leadingTie_apply _ _).trans (if_pos rfl)
    · exact (leadingTie_apply _ _).trans (if_neg hrest)
  sound := by
    intro c n d h
    rw [leadingTie_apply] at h
    split at h <;> cases h
    · rename_i hpeek
      refine ⟨['-'], Cursor.rest_of_peek hpeek, .inl ⟨rfl, ?_⟩⟩
      rw [List.head?_eq_getElem?, Cursor.rest_move, List.getElem?_drop]
    · rename_i hpeek
      exact ⟨[], rfl, .inr ⟨rfl, hpeek, rfl⟩⟩

/-- The spellings of a velocity. -/
inductive SpelledVelocity (note : NoteElement) : List Char → Option NoteElement → List Char → Prop
  | missing {rest : List Char} : rest.head? ≠ some 'a' → rest.head? ≠ some 'd' →
    SpelledVelocity note [] none rest
  | attack {t : List Char} {e : Expr Byte} {rest : List Char} : SpelledExpr SpelledByte t e rest →
    SpelledVelocity note ('a' :: t) (some { note with attack := some e }) rest
  | decay {t : List Char} {e : Expr Byte} {rest : List Char} : SpelledExpr SpelledByte t e rest →
    SpelledVelocity note ('d' :: t) (some { note with decay := some e }) rest

theorem meets_velocity (note : NoteElement) : (velocity note).Meets (SpelledVelocity note) := by
  unfold velocity
  refine (Meets.ite_eat (x := 'a') ((meets_expr meets_decimalByte).bind_check fun e => Meets.pure _)
    (Meets.ite_eat (x := 'd') ((meets_expr meets_decimalByte).bind_check fun e => Meets.pure _)
      (Meets.pure none))).congr fun t o rest => ?_
  constructor
  · intro h
    cases h with
    | missing ha hd => exact .inr ⟨ha, .inr ⟨hd, rfl, rfl⟩⟩
    | attack he => exact .inl ⟨_, rfl, _, he, rfl⟩
    | decay he => exact .inr ⟨by simp, .inl ⟨_, rfl, _, he, rfl⟩⟩
  · rintro (⟨u, rfl, e, he, rfl⟩ | ⟨ha, ⟨u, rfl, e, he, rfl⟩ | ⟨hd, rfl, rfl⟩⟩)
    · exact .attack he
    · exact .decay he
    · exact .missing ha hd

/-! ### Notes -/

/-- Takes what stands between the chord and the velocities of a note. -/
def afterChord (base : NoteElement) : Read NoteElement := do
  let base ← leadingTie base
  let duration ← length
  let tuplet ← tuplet
  let tied ← eat '-'
  return { base with duration, tuplet, tieStart := base.tieStart || tied }

/-- Takes a note without its velocities. -/
def noteHead (placement : Placement) : Read NoteElement := do
  let value ← noteValue
  let chord ← chordOf value
  afterChord { value, chord, placement }

theorem note_eq (placement : Placement) :
    note placement = noteHead placement >>= iterate velocity := by
  simp only [note, noteFrom, noteHead, afterChord, bind_assoc, pure_bind]

/-- The spellings of what stands between the chord and the velocities of a note. -/
inductive SpelledTail (base : NoteElement) : List Char → NoteElement → List Char → Prop
  | parts {first dur ratio last rest : List Char} {tiedBase : NoteElement}
    {duration : Option (Expr Float)} {tuplet : Option Tuplet} {tied : Bool} :
    (first = ['-'] ∧ tiedBase =
        (if (dur ++ (ratio ++ (last ++ rest))).head?.any Length.starts
          then { base with tieEnd := true } else { base with tieStart := true }) ∨
      first = [] ∧ (dur ++ (ratio ++ (last ++ rest))).head? ≠ some '-' ∧ tiedBase = base) →
    SpelledLength dur duration (ratio ++ (last ++ rest)) →
    SpelledTuplet ratio tuplet (last ++ rest) →
    (last = ['-'] ∧ tied = true ∨ last = [] ∧ tied = false ∧ rest.head? ≠ some '-') →
    SpelledTail base (first ++ (dur ++ (ratio ++ last)))
      { tiedBase with duration, tuplet, tieStart := tiedBase.tieStart || tied } rest

theorem meets_afterChord (base : NoteElement) : (afterChord base).Meets (SpelledTail base) := by
  unfold afterChord
  refine ((meets_leadingTie base).bind fun tiedBase => meets_length.bind fun duration =>
    meets_tuplet.bind fun tuplet => (meets_eat '-').bind_check fun tied => Meets.pure _).congr
    fun t n rest => ?_
  constructor
  · rintro ⟨hfirst, hdur, hratio, hlast⟩
    exact ⟨_, _, _, rfl, by simpa only [List.append_assoc] using hfirst, _, _, _, rfl,
      by simpa only [List.append_assoc] using hdur, _, _, _, rfl, hratio, _, hlast, rfl⟩
  · rintro ⟨tiedBase, first, v, rfl, hfirst, duration, dur, w, rfl, hdur, tuplet, ratio, last, rfl,
      hratio, tied, hlast, rfl⟩
    simp only [List.append_assoc] at hfirst hdur
    exact .parts hfirst hdur hratio hlast

/-- The spellings of a note without its velocities. -/
inductive SpelledHead (placement : Placement) : List Char → NoteElement → List Char → Prop
  | parts {u v w rest : List Char} {value : NoteValue} {chord : Option ChordSpec}
    {note : NoteElement} : SpelledValue u value (v ++ (w ++ rest)) →
    (value = .rest ∧ v = [] ∧ chord = none ∨ value ≠ .rest ∧ SpelledChord v chord (w ++ rest)) →
    SpelledTail { value, chord, placement } w note rest →
    SpelledHead placement (u ++ (v ++ w)) note rest

theorem meets_chordOf (value : NoteValue) : (chordOf value).Meets fun t chord rest =>
    (value = .rest ∧ t = [] ∧ chord = none) ∨ (value ≠ .rest ∧ SpelledChord t chord rest) := by
  cases value with
  | rest => exact (Meets.pure none).congr fun t o rest => by simp
  | _ => exact meets_chord.congr fun t o rest => by simp

theorem meets_noteHead (placement : Placement) :
    (noteHead placement).Meets (SpelledHead placement) := by
  unfold noteHead
  refine (meets_noteValue.bind fun value => (meets_chordOf value).bind fun chord =>
    meets_afterChord _).congr fun t n rest => ?_
  constructor
  · rintro ⟨hvalue, hchord, htail⟩
    exact ⟨_, _, _, rfl, by simpa only [List.append_assoc] using hvalue, _, _, _, rfl, hchord,
      htail⟩
  · rintro ⟨value, u, v, rfl, hvalue, chord, x, w, rfl, hchord, htail⟩
    rw [List.append_assoc] at hvalue
    exact .parts hvalue hchord htail

theorem SpelledHead.note_eq {placement : Placement} {t rest : List Char} {n : NoteElement}
    (h : SpelledHead placement t n rest) (k : Nat) :
    note placement ⟨k, t ++ rest⟩ = iterate velocity n ⟨k + t.length, rest⟩ := by
  rw [Grammar.note_eq]
  exact bind_of_ok ((meets_noteHead placement).complete h k)

theorem meets_velocities (note : NoteElement) :
    (iterate velocity note).Meets (Iterated SpelledVelocity note) :=
  meets_iterate meets_velocity (fun _ _ _ _ h => by cases h <;> simp) note

/-- The spellings of a note. -/
def SpelledNote (placement : Placement) (t : List Char) (n : NoteElement) (rest : List Char) :
    Prop :=
  ∃ first u v, t = u ++ v ∧ SpelledHead placement u first (v ++ rest) ∧
    Iterated SpelledVelocity first v n rest

theorem meets_note (placement : Placement) : (note placement).Meets (SpelledNote placement) := by
  rw [note_eq]
  exact (meets_noteHead placement).bind meets_velocities

/-! ### What is taken is in the language -/

theorem mem_letters_of_offset? {x : Char} {base : Int} (h : Pitch.offset? x = some base) :
    x ∈ ['A', 'B', 'C', 'D', 'E', 'F', 'G'] := by
  unfold Pitch.offset? at h
  split at h <;> first | decide | cases h

theorem isAccidental_iff {x : Char} : Pitch.isAccidental x = true ↔ x ∈ ['#', 'b', 'n'] := by
  simp [Pitch.isAccidental, or_assoc]

theorem mem_accidentals_iff {run : List Char} : run ∈ NoteText.accidentals ↔
    (Pitch.accidentals run).natAbs ≤ 12 ∧ ∀ y ∈ run, Pitch.isAccidental y = true := by
  rw [← NoteText.total_eq_accidentals]
  constructor
  · rintro ⟨hall, hlo, hhi⟩
    exact ⟨by omega, fun y hy => isAccidental_iff.2 (hall y hy)⟩
  · rintro ⟨hle, hall⟩
    exact ⟨fun y hy => isAccidental_iff.1 (hall y hy), by omega, by omega⟩

theorem SpelledValue.mem {t : List Char} {v : NoteValue} {after : List Char}
    (h : SpelledValue t v after) :
    (v = .rest ∧ t ∈ NoteText.oneOf ['R']) ∨ (v ≠ .rest ∧ t ∈ NoteText.named + NoteText.pitch) := by
  cases h with
  | rest => exact .inl ⟨rfl, 'R', List.mem_singleton_self _, rfl⟩
  | @named name _ _ hname hv =>
    unfold namedValue? at hv
    split at hv
    · rename_i hdigits
      obtain ⟨n, hn, rfl⟩ := Option.map_eq_some_iff.1 hv
      have hval : n.val = Decimal.value name.toList := Ranged.ofInt?_eq_some_iff.1 hn
      have hle := n.le_hi
      exact .inr ⟨nofun, .inl ⟨name.toList, hname, fun _ => by omega, rfl⟩⟩
    · rename_i hdigits
      cases hv
      refine .inr ⟨nofun, .inl ⟨name.toList, hname, fun h => ?_, rfl⟩⟩
      exact absurd (List.all_eq_true.2 h) hdigits
  | @pitch x base run ds _ hbase hle hall hstop hlength hds hrest =>
    have hrun : run ∈ NoteText.accidentals := mem_accidentals_iff.2 ⟨hle, hall⟩
    have hoctave : ds ∈ NoteText.octave := ⟨hds, hlength⟩
    exact .inr ⟨nofun, .inr (NoteText.cons_mem_oneOf_mul (mem_letters_of_offset? hbase)
      (Language.append_mem_mul hrun hoctave))⟩

theorem SpelledChord.mem {t : List Char} {o : Option ChordSpec} {rest : List Char}
    (h : SpelledChord t o rest) : t ∈ NoteText.opt NoteText.chord := by
  cases h with
  | missing _ => exact .inl rfl
  | named hname _ => exact .inr ⟨_, (longestMatch_eq_some_iff.1 hname).1, _, rfl⟩

theorem SpelledLength.mem {t : List Char} {o : Option (Expr Float)} {rest : List Char}
    (h : SpelledLength t o rest) : t ∈ NoteText.opt NoteText.duration := by
  cases h with
  | missing _ => exact .inl rfl
  | number he =>
    refine .inr (.inr (NoteText.cons_mem_oneOf_mul (List.mem_singleton_self _) ?_))
    cases he with
    | reference hname => exact .inr ⟨_, hname, rfl⟩
    | literal _ hx =>
      obtain ⟨negative, whole, part, ht, hwhole, hpart, hsome, -⟩ := hx
      exact .inl ⟨negative, whole, part, ht, hwhole, hpart, hsome⟩
  | letters hhead hall _ =>
    refine .inr (.inl (NoteText.mem_dotted_run_iff.2 ⟨hhead, fun y hy => ?_⟩))
    simpa [NoteText.mem_letters_iff] using hall y hy

theorem SpelledTuplet.mem {t : List Char} {o : Option Tuplet} {rest : List Char}
    (h : SpelledTuplet t o rest) : t ∈ NoteText.opt NoteText.tuplet := by
  have hstar : '*' ∈ ['*'] := List.mem_singleton_self _
  cases h with
  | missing _ => exact .inl rfl
  | triplet _ => exact .inr (NoteText.cons_mem_oneOf_mul hstar (NoteText.nil_mem_opt _))
  | ratio hcount hspan _ =>
    exact .inr (NoteText.cons_mem_oneOf_mul hstar (.inr (Language.append_mem_mul hcount
      (NoteText.cons_mem_oneOf_mul (List.mem_singleton_self _) hspan))))

theorem mem_byte_of_spelled {t : List Char} {e : Expr Byte} {rest : List Char}
    (h : SpelledExpr SpelledByte t e rest) : t ∈ NoteText.byte := by
  cases h with
  | reference hname => exact .inr ⟨_, hname, rfl⟩
  | @literal _ n _ _ hn =>
    obtain ⟨hne, hdigits, -, hval⟩ := hn
    have hle := n.le_hi
    exact .inl ⟨hne, hdigits, Nat.zero_le _, by omega⟩

theorem SpelledVelocity.mem {note : NoteElement} {t : List Char} {o : Option NoteElement}
    {rest : List Char} (h : SpelledVelocity note t o rest) :
    (o = none ∧ t = []) ∨ (o ≠ none ∧ t ∈ NoteText.velocity) := by
  cases h with
  | missing _ _ => exact .inl ⟨rfl, rfl⟩
  | attack he =>
    exact .inr ⟨nofun, NoteText.cons_mem_oneOf_mul (by decide) (mem_byte_of_spelled he)⟩
  | decay he =>
    exact .inr ⟨nofun, NoteText.cons_mem_oneOf_mul (by decide) (mem_byte_of_spelled he)⟩

theorem mem_velocities {note z : NoteElement} {t rest : List Char}
    (h : Iterated SpelledVelocity note t z rest) : t ∈ NoteText.velocity∗ := by
  induction h with
  | stop hstop =>
    rcases hstop.mem with ⟨-, rfl⟩ | ⟨hsome, -⟩
    · exact Language.nil_mem_kstar _
    · exact absurd rfl hsome
  | step hstep _ ih =>
    rcases hstep.mem with ⟨hnone, -⟩ | ⟨-, ht⟩
    · cases hnone
    · exact NoteText.cons_mem_kstar ht ih

theorem mem_opt_tie {t : List Char} (h : t = ['-'] ∨ t = []) : t ∈ NoteText.opt NoteText.tie := by
  rcases h with rfl | rfl
  · exact .inr (NoteText.singleton_mem_oneOf (List.mem_singleton_self _))
  · exact .inl rfl

theorem SpelledTail.mem {base n : NoteElement} {t rest : List Char}
    (h : SpelledTail base t n rest) : t ∈ NoteText.opt NoteText.tie * NoteText.length := by
  obtain ⟨hfirst, hdur, hratio, hlast⟩ := h
  have htie := mem_opt_tie (hfirst.imp And.left And.left)
  have htied := mem_opt_tie (hlast.imp And.left And.left)
  exact Language.append_mem_mul htie
    (Language.append_mem_mul hdur.mem (Language.append_mem_mul hratio.mem htied))

theorem SpelledHead.mem {placement : Placement} {n : NoteElement} {t rest : List Char}
    (h : SpelledHead placement t n rest) : t ∈ NoteText.head := by
  obtain ⟨hvalue, hchord, htail⟩ := h
  rw [← List.append_assoc]
  refine Language.append_mem_mul ?_ htail.mem
  rcases hvalue.mem with ⟨hrest, hu⟩ | ⟨hpitched, hu⟩
  · rcases hchord with ⟨-, rfl, -⟩ | ⟨hne, -⟩
    · rw [List.append_nil]
      exact .inl hu
    · exact absurd hrest hne
  · rcases hchord with ⟨hrest, -⟩ | ⟨-, hchord⟩
    · exact absurd hrest hpitched
    · exact .inr (Language.append_mem_mul hu hchord.mem)

/-! ### What is in the language is taken -/

theorem offset?_of_mem_letters {x : Char} (h : x ∈ ['A', 'B', 'C', 'D', 'E', 'F', 'G']) :
    ∃ base, Pitch.offset? x = some base := by
  have hall : ['A', 'B', 'C', 'D', 'E', 'F', 'G'].all (fun x => (Pitch.offset? x).isSome) := by
    decide
  exact Option.isSome_iff_exists.1 (List.all_eq_true.1 hall x h)

theorem exists_namedValue {name : String}
    (h : IsDigits name.toList → Decimal.value name.toList ≤ 255) :
    ∃ v, v ≠ .rest ∧ namedValue? name = some v := by
  unfold namedValue?
  split
  · rename_i hdigits
    have hle := h (List.all_eq_true.1 hdigits)
    have hn : (Ranged.ofInt? (Decimal.value name.toList : Int) : Option Byte) =
        some ⟨Decimal.value name.toList, by omega, by omega⟩ := Ranged.ofInt?_eq_some_iff.2 rfl
    exact ⟨.numeric (.literal _), nofun, by rw [hn]; rfl⟩
  · exact ⟨.numeric (.reference _), nofun, rfl⟩

/-- A letter, accidentals and an octave are a pitch, if nothing follows that would belong to it. -/
theorem spelledValue_pitch {x : Char} {base : Int} {run ds after : List Char}
    (hbase : Pitch.offset? x = some base) (hrun : run ∈ NoteText.accidentals)
    (hds : ds ∈ NoteText.octave) (hdigit : after.head?.any Char.isDigit = false)
    (haccidental : after.head?.any Pitch.isAccidental = false) :
    SpelledValue (x :: (run ++ ds)) (.pitch (base + Pitch.accidentals run) (octaveOf ds)) after := by
  obtain ⟨hle, hall⟩ := mem_accidentals_iff.1 hrun
  refine .pitch hbase hle hall ?_ hds.2 hds.1 fun _ => hdigit
  -- After the accidentals come digits, or what may follow the value.
  by_cases hne : ds = []
  · rwa [hne]
  · cases hy : (ds ++ after).head? with
    | none => rfl
    | some y =>
      refine Bool.eq_false_iff.2 fun haccidental => ?_
      have hdigits : ['#', 'b', 'n'].all (fun y => y.isDigit = false) = true := by decide
      have hdigit := List.all_eq_true.1 hdigits y (isAccidental_iff.1 haccidental)
      exact head?_of_digits hds.1 hne (of_decide_eq_true hdigit) hy

theorem exists_spelledValue {t : List Char} (h : t ∈ NoteText.named + NoteText.pitch) :
    ∃ v, v ≠ .rest ∧ ∀ after : List Char, after.head?.any Char.isDigit = false →
      after.head?.any Pitch.isAccidental = false → SpelledValue t v after := by
  rcases h with ⟨name, hname, hbyte, rfl⟩ | ⟨-, ⟨x, hx, rfl⟩, -, ⟨run, hrun, ds, hds, rfl⟩, rfl⟩
  · obtain ⟨s, rfl⟩ := exists_eq_toList name
    obtain ⟨v, hne, hv⟩ := exists_namedValue hbyte
    exact ⟨v, hne, fun after _ _ => .named hname hv⟩
  · obtain ⟨base, hbase⟩ := offset?_of_mem_letters hx
    exact ⟨.pitch (base + Pitch.accidentals run) (octaveOf ds), nofun,
      fun after => spelledValue_pitch hbase hrun hds⟩

theorem exists_spelledChord {t : List Char} (h : t ∈ NoteText.opt NoteText.chord) :
    ∃ o, ∀ rest ∈ NoteText.opt NoteText.tie * NoteText.length * NoteText.afterHead,
      SpelledChord t o rest := by
  rcases h with rfl | ⟨name, hname, n, rfl⟩
  · exact ⟨none, fun rest hrest => .missing (NoteText.noChord_afterChord hrest)⟩
  · refine ⟨_, fun rest hrest => .named (longestMatch_eq_some_iff.2
      ⟨hname, List.prefix_append _ _, fun longer hlonger hpre => ?_⟩) ?_⟩
    · refine NoteText.length_le_of_prefix_chord hname hlonger (fun x hx => ?_) hpre
      cases n with
      | zero =>
        have hnext : ('-' :: (NoteText.letters ++ ['/'] ++ ['*', '-', 'a', 'd', '+', '_'])).all
            (fun x => x ∉ "0123456789<>m".toList) = true := by decide
        exact of_decide_eq_true
          (List.all_eq_true.1 hnext x (NoteText.startsIn_afterChord rest hrest x hx))
      | succ n =>
        cases hx
        decide
    · exact NoteText.startsIn_afterChord.head?_ne (by decide) hrest

theorem exists_spelledExpr_byte {t : List Char}
    (h : t ∈ NoteText.byte) :
    ∃ e, ∀ rest : List Char, rest.head?.any Char.isDigit = false →
      SpelledExpr SpelledByte t e rest := by
  rcases h with ⟨hne, hdigits, -, hle⟩ | ⟨name, hname, rfl⟩
  · refine ⟨.literal ⟨Decimal.value t, by omega, by omega⟩, fun rest hrest => ?_⟩
    exact .literal (head?_of_digits hdigits hne (by decide)) ⟨hne, hdigits, hrest, rfl⟩
  · obtain ⟨e, he⟩ := exists_spelledExpr_bracketed hname
    exact ⟨e, fun rest _ => he rest⟩

theorem exists_spelledExpr_double {t : List Char} (h : t ∈ NoteText.double + NoteText.reference) :
    ∃ e, ∀ rest : List Char, rest.head?.any Char.isDigit = false → rest.head? ≠ some '.' →
      SpelledExpr SpelledDouble t e rest := by
  rcases h with ⟨negative, whole, part, rfl, hwhole, hpart, hsome⟩ | ⟨name, hname, rfl⟩
  · refine ⟨.literal _, fun rest hrest hpoint => .literal ?_ ⟨negative, whole, part, rfl, hwhole,
      hpart, hsome, hrest, fun _ h => hpoint h.1, rfl⟩⟩
    cases negative with
    | true => nofun
    | false =>
      by_cases hne : whole = []
      · have hne' : part ≠ [] := fun h => hsome ⟨hne, h⟩
        simp [sign, hne, pointed, hne']
      · show (whole ++ pointed part ++ rest).head? ≠ some '['
        rw [List.append_assoc]
        exact head?_of_digits hwhole hne (by decide)
  · obtain ⟨e, he⟩ := exists_spelledExpr_bracketed hname
    exact ⟨e, fun rest _ _ => he rest⟩

theorem exists_spelledLength {t : List Char} (h : t ∈ NoteText.opt NoteText.duration) :
    ∃ o, ∀ rest ∈ NoteText.opt NoteText.tuplet * (NoteText.opt NoteText.tie * NoteText.afterHead),
      SpelledLength t o rest := by
  have hstarts := NoteText.startsIn_afterDuration
  rcases h with rfl | ht | ⟨-, ⟨x, hx, rfl⟩, u, hu, rfl⟩
  · exact ⟨none, fun rest hrest => .missing (hstarts.any_eq_false (by decide) hrest)⟩
  · obtain ⟨hhead, hall⟩ := NoteText.mem_dotted_run_iff.1 ht
    refine ⟨_, fun rest hrest => .letters hhead (fun x hx => ?_)
      (hstarts.any_eq_false (by decide) hrest)⟩
    simpa [NoteText.mem_letters_iff] using hall x hx
  · obtain ⟨e, he⟩ := exists_spelledExpr_double hu
    rw [List.mem_singleton.1 hx]
    exact ⟨some e, fun rest hrest => .number (he rest (hstarts.any_eq_false (by decide) hrest)
      (hstarts.head?_ne (by decide) hrest))⟩

theorem exists_spelledTuplet {t : List Char} (h : t ∈ NoteText.opt NoteText.tuplet) :
    ∃ o, ∀ rest ∈ NoteText.opt NoteText.tie * NoteText.afterHead, SpelledTuplet t o rest := by
  have hstarts := NoteText.startsIn_afterTuplet
  rcases h with rfl | ⟨-, ⟨x, hx, rfl⟩, u, hu, rfl⟩
  · exact ⟨none, fun rest hrest => .missing (hstarts.head?_ne (by decide) hrest)⟩
  · rw [List.mem_singleton.1 hx]
    rcases hu with rfl | ⟨count, hcount, -, ⟨-, ⟨y, hy, rfl⟩, span, hspan, rfl⟩, rfl⟩
    · exact ⟨_, fun rest hrest => .triplet (hstarts.any_eq_false (by decide) hrest)⟩
    · rw [List.mem_singleton.1 hy]
      exact ⟨_, fun rest hrest => .ratio hcount hspan (hstarts.any_eq_false (by decide) hrest)⟩

/-- Whether a length stands after the first tie does not depend on what follows the note's head. -/
theorem exists_starts {dur : List Char} (h : dur ∈ NoteText.opt NoteText.duration) :
    ∃ b, ∀ rest ∈ NoteText.opt NoteText.tuplet * (NoteText.opt NoteText.tie * NoteText.afterHead),
      (dur ++ rest).head?.any Length.starts = b := by
  rcases h with rfl | h
  · exact ⟨false, fun rest hrest => NoteText.startsIn_afterDuration.any_eq_false (by decide) hrest⟩
  · cases dur with
    | nil => exact absurd h NoteText.nil_notMem_duration
    | cons x dur =>
      have hstarts : (NoteText.letters ++ ['/']).all Length.starts = true := by decide
      exact ⟨true, fun rest _ =>
        List.all_eq_true.1 hstarts x (NoteText.startsIn_duration _ h x rfl)⟩

/-- The parts after the first tie. -/
theorem exists_spelledParts {t : List Char} (h : t ∈ NoteText.length) :
    ∃ dur ratio last duration tuplet tied b, t = dur ++ (ratio ++ last) ∧
      ∀ rest ∈ NoteText.afterHead,
        (dur ++ (ratio ++ (last ++ rest))).head?.any Length.starts = b ∧
        SpelledLength dur duration (ratio ++ (last ++ rest)) ∧
        SpelledTuplet ratio tuplet (last ++ rest) ∧
        (last = ['-'] ∧ tied = true ∨ last = [] ∧ tied = false ∧ rest.head? ≠ some '-') := by
  obtain ⟨dur, hdur, -, ⟨ratio, hratio, last, hlast, rfl⟩, rfl⟩ := h
  obtain ⟨duration, hduration⟩ := exists_spelledLength hdur
  obtain ⟨tuplet, htuplet⟩ := exists_spelledTuplet hratio
  obtain ⟨b, hb⟩ := exists_starts hdur
  obtain ⟨tied, htied⟩ : ∃ tied, ∀ rest ∈ NoteText.afterHead,
      last = ['-'] ∧ tied = true ∨ last = [] ∧ tied = false ∧ rest.head? ≠ some '-' := by
    rcases hlast with rfl | ⟨x, hx, rfl⟩
    · exact ⟨false, fun rest hrest =>
        .inr ⟨rfl, rfl, NoteText.startsIn_afterHead.head?_ne (by decide) hrest⟩⟩
    · exact ⟨true, fun rest _ => .inl ⟨by rw [List.mem_singleton.1 hx], rfl⟩⟩
  refine ⟨dur, ratio, last, duration, tuplet, tied, b, rfl, fun rest hrest => ?_⟩
  have hafterTuplet := Language.append_mem_mul hlast hrest
  have hafterDuration := Language.append_mem_mul hratio hafterTuplet
  exact ⟨hb _ hafterDuration, hduration _ hafterDuration, htuplet _ hafterTuplet, htied rest hrest⟩

theorem exists_spelledTail (base : NoteElement) {t : List Char}
    (h : t ∈ NoteText.opt NoteText.tie * NoteText.length) :
    ∃ n, ∀ rest ∈ NoteText.afterHead, SpelledTail base t n rest := by
  rcases NoteText.mem_tie_length h with ⟨-, ⟨x, hx, rfl⟩, later, hlater, rfl⟩ | ⟨hlater, hhead⟩
  · obtain ⟨dur, ratio, last, duration, tuplet, tied, b, rfl, hspelled⟩ :=
      exists_spelledParts hlater
    let tiedBase : NoteElement :=
      if b then { base with tieEnd := true } else { base with tieStart := true }
    rw [List.mem_singleton.1 hx]
    refine ⟨{ tiedBase with duration, tuplet, tieStart := tiedBase.tieStart || tied },
      fun rest hrest => ?_⟩
    obtain ⟨hstarts, hdur, hratio, hlast⟩ := hspelled rest hrest
    show SpelledTail base (['-'] ++ (dur ++ (ratio ++ last))) _ rest
    refine .parts (.inl ⟨rfl, ?_⟩) hdur hratio hlast
    rw [hstarts]
  · obtain ⟨dur, ratio, last, duration, tuplet, tied, b, rfl, hspelled⟩ :=
      exists_spelledParts hlater
    refine ⟨{ base with duration, tuplet, tieStart := base.tieStart || tied }, fun rest hrest => ?_⟩
    obtain ⟨-, hdur, hratio, hlast⟩ := hspelled rest hrest
    show SpelledTail base ([] ++ (dur ++ (ratio ++ last))) _ rest
    refine .parts (.inr ⟨rfl, ?_, rfl⟩) hdur hratio hlast
    rw [← List.append_assoc ratio, ← List.append_assoc dur]
    rw [List.head?_append]
    cases hx : (dur ++ (ratio ++ last)).head? with
    | none => exact NoteText.startsIn_afterHead.head?_ne (by decide) hrest
    | some x => rwa [hx] at hhead

theorem exists_spelledHead (placement : Placement) {t : List Char} (h : t ∈ NoteText.head) :
    ∃ n, ∀ rest ∈ NoteText.afterHead, SpelledHead placement t n rest := by
  obtain ⟨first, hfirst, w, hw, rfl⟩ := h
  rcases hfirst with ⟨x, hx, rfl⟩ | ⟨u, hu, v, hv, rfl⟩
  · rw [List.mem_singleton.1 hx]
    obtain ⟨n, hn⟩ := exists_spelledTail { value := .rest, chord := none, placement } hw
    exact ⟨n, fun rest hrest => .parts (v := []) .rest (.inl ⟨rfl, rfl, rfl⟩) (hn rest hrest)⟩
  · obtain ⟨value, hne, hvalue⟩ := exists_spelledValue hu
    obtain ⟨chord, hchord⟩ := exists_spelledChord hv
    obtain ⟨n, hn⟩ := exists_spelledTail { value, chord, placement } hw
    refine ⟨n, fun rest hrest => ?_⟩
    have hafterChord := Language.append_mem_mul hw hrest
    have hafterValue := Language.append_mem_mul hv hafterChord
    have hstarts := NoteText.startsIn_chord.opt.mul NoteText.startsIn_afterChord
    show SpelledHead placement ((u ++ v) ++ w) n rest
    rw [List.append_assoc]
    exact .parts (hvalue _ (hstarts.any_eq_false (by decide) hafterValue)
      (hstarts.any_eq_false (by decide) hafterValue)) (.inr ⟨hne, hchord _ hafterChord⟩)
      (hn rest hrest)

theorem head?_any_append {p : Char → Bool} {t rest : List Char} (ht : t.head?.any p = false)
    (hrest : rest.head?.any p = false) : (t ++ rest).head?.any p = false := by
  cases t with
  | nil => exact hrest
  | cons x t => exact ht

/-- The note with a velocity, which is the attack or the decay by its letter. -/
def setVelocity (note : NoteElement) (letter : Char) (e : Expr Byte) : NoteElement :=
  if letter = 'a' then { note with attack := some e } else { note with decay := some e }

/-- The note with velocities, one after the other. -/
def setVelocities (note : NoteElement) (fields : List (Char × Expr Byte)) : NoteElement :=
  fields.foldl (fun n f => setVelocity n f.1 f.2) note

theorem velocity_of_letter {letter : Char} (h : letter ∈ ['a', 'd']) (note : NoteElement) (k : Nat)
    (rest : List Char) : velocity note ⟨k, letter :: rest⟩ =
      (do return some (setVelocity note letter (← byteExpr)) : Read _) ⟨k + 1, rest⟩ := by
  rcases List.mem_pair.1 h with rfl | rfl <;> rfl

theorem velocity_shortens (note : NoteElement) (c : Cursor) (next : NoteElement) (d : Cursor)
    (h : velocity note c = .ok (some next) d) : d.rest.length < c.rest.length :=
  (meets_velocity note).shortens (fun _ _ _ h => by cases h <;> simp) h

/-- A velocity as it is written: its letter and its field. -/
def IsVelocity (v : Char × List Char) : Prop :=
  v.1 ∈ ['a', 'd'] ∧ v.2 ∈ NoteText.byte

/-- The text of velocities. -/
def velocityText (vs : List (Char × List Char)) : List Char :=
  vs.flatMap fun v => v.1 :: v.2

theorem velocityText_mem {vs : List (Char × List Char)} (h : ∀ v ∈ vs, IsVelocity v) :
    velocityText vs ∈ NoteText.velocity∗ := by
  refine Language.mem_kstar.2 ⟨vs.map fun v : Char × List Char => v.1 :: v.2, List.flatMap_def,
    fun y hy => ?_⟩
  obtain ⟨v, hv, rfl⟩ := List.mem_map.1 hy
  exact NoteText.cons_mem_oneOf_mul (h v hv).1 (h v hv).2

theorem exists_velocityText {t : List Char} (h : t ∈ NoteText.velocity∗) :
    ∃ vs, t = velocityText vs ∧ ∀ v ∈ vs, IsVelocity v := by
  obtain ⟨parts, rfl, hparts⟩ := Language.mem_kstar.1 h
  clear h
  induction parts with
  | nil => exact ⟨[], rfl, by simp⟩
  | cons first later ih =>
    obtain ⟨⟨-, ⟨x, hx, rfl⟩, field, hfield, rfl⟩, hlater⟩ := List.forall_mem_cons.1 hparts
    obtain ⟨vs, hvs, hall⟩ := ih hlater
    exact ⟨(x, field) :: vs, by rw [List.flatten_cons, hvs]; rfl,
      List.forall_mem_cons.2 ⟨⟨hx, hfield⟩, hall⟩⟩

/-- Velocities are taken one after the other, up to what follows them. -/
theorem iterate_velocities {vs : List (Char × List Char)} (h : ∀ v ∈ vs, IsVelocity v) :
    ∃ fields : List (Char × Expr Byte), fields.map Prod.fst = vs.map Prod.fst ∧
      ∀ (note : NoteElement) (k : Nat) (rest : List Char), rest.head?.any Char.isDigit = false →
        iterate velocity note ⟨k, velocityText vs ++ rest⟩ =
          iterate velocity (setVelocities note fields)
            ⟨k + (velocityText vs).length, rest⟩ := by
  induction vs with
  | nil => exact ⟨[], rfl, fun note k rest _ => rfl⟩
  | cons v vs ih =>
    obtain ⟨⟨hletter, hfield⟩, hlater⟩ := List.forall_mem_cons.1 h
    obtain ⟨fields, hfields, hiterate⟩ := ih hlater
    obtain ⟨e, he⟩ := exists_spelledExpr_byte hfield
    refine ⟨(v.1, e) :: fields, by rw [List.map_cons, List.map_cons, hfields], ?_⟩
    intro note k rest hrest
    have hafter : (velocityText vs ++ rest).head?.any Char.isDigit = false :=
      head?_any_append (NoteText.startsIn_velocities.any_eq_false (by decide)
        (velocityText_mem hlater)) hrest
    have hread := (meets_expr meets_decimalByte).complete (he _ hafter) (k + 1)
    have hstep : velocity note ⟨k, v.1 :: (v.2 ++ (velocityText vs ++ rest))⟩ =
        .ok (some (setVelocity note v.1 e)) ⟨k + 1 + v.2.length, velocityText vs ++ rest⟩ :=
      (velocity_of_letter hletter note k _).trans (bind_of_ok hread)
    have htext : velocityText (v :: vs) ++ rest = v.1 :: (v.2 ++ (velocityText vs ++ rest)) := by
      simp [velocityText]
    have hlength : k + (velocityText (v :: vs)).length =
        k + 1 + v.2.length + (velocityText vs).length := by
      simp only [velocityText, List.flatMap_cons, List.length_append, List.length_cons]
      omega
    rw [htext, iterate_of_some velocity_shortens hstep, hiterate _ _ rest hrest, hlength]
    rfl

theorem iterate_velocity_afterNote (note : NoteElement) (k : Nat) {rest : List Char}
    (h : rest ∈ NoteText.afterNote) : iterate velocity note ⟨k, rest⟩ = .ok note ⟨k, rest⟩ :=
  (meets_velocities note).complete (t := []) (.stop (.missing
    (NoteText.startsIn_afterNote.head?_ne (by decide) h)
    (NoteText.startsIn_afterNote.head?_ne (by decide) h))) k

/-- A text of the language is taken as a note, up to a note that is joined to it. -/
theorem exists_note (placement : Placement) {t : List Char} (h : t ∈ NoteText.note) :
    ∃ n, ∀ k, ∀ rest ∈ NoteText.afterNote,
      note placement ⟨k, t ++ rest⟩ = .ok n ⟨k + t.length, rest⟩ := by
  obtain ⟨u, hu, v, hv, rfl⟩ := h
  obtain ⟨first, hfirst⟩ := exists_spelledHead placement hu
  obtain ⟨vs, rfl, hvs⟩ := exists_velocityText hv
  obtain ⟨fields, -, hvelocities⟩ := iterate_velocities hvs
  refine ⟨setVelocities first fields, fun k rest hrest => ?_⟩
  have hafter := NoteText.append_mem_afterHead hv (NoteText.mem_afterHead_of_afterNote hrest)
  have hdigit := NoteText.startsIn_afterNote.any_eq_false (p := Char.isDigit) (by decide) hrest
  show note placement ⟨k, u ++ velocityText vs ++ rest⟩ = _
  rw [List.append_assoc, (hfirst _ hafter).note_eq k, hvelocities first _ rest hdigit,
    iterate_velocity_afterNote _ _ hrest, Nat.add_assoc, ← List.length_append]

/-! ### Note tokens -/

/-- Joining either takes nothing, or adds a note. -/
theorem joined_cases {notes : List NoteElement} {o : Option (List NoteElement)} {c d : Cursor}
    (h : joined notes c = .ok o d) : (o = none ∧ d = c) ∨ ∃ n, o = some (notes ++ [n]) := by
  have hadded {placement : Placement} {e : Cursor}
      (h : (do return some (notes ++ [← note placement]) : Read _) e = .ok o d) :
      ∃ n, o = some (notes ++ [n]) := by
    obtain ⟨n, e', -, h⟩ := bind_eq_ok h
    cases h
    exact ⟨n, rfl⟩
  obtain ⟨plus, e, hplus, h⟩ := bind_eq_ok h
  cases plus with
  | true => exact .inr (hadded h)
  | false =>
    obtain ⟨underscore, e', hunderscore, h⟩ := bind_eq_ok h
    cases underscore with
    | true => exact .inr (hadded h)
    | false =>
      cases h
      rw [eat_eq_ok_false hunderscore, eat_eq_ok_false hplus]
      exact .inl ⟨rfl, rfl⟩

theorem iterateUpTo_joined {k : Nat} {notes out : List NoteElement} {c d : Cursor}
    (h : iterateUpTo joined k notes c = .ok out d) :
    (out = notes ∧ d = c) ∨ notes.length < out.length := by
  induction k generalizing notes c with
  | zero =>
    cases h
    exact .inl ⟨rfl, rfl⟩
  | succ k ih =>
    rw [iterateUpTo_succ] at h
    rcases hjoined : joined notes c with ⟨o, e⟩ | ⟨err, e⟩ <;> rw [hjoined] at h
    · rcases joined_cases hjoined with ⟨rfl, rfl⟩ | ⟨n, rfl⟩
      · cases h
        exact .inl ⟨rfl, rfl⟩
      · right
        rcases ih h with ⟨rfl, -⟩ | hlt
        · simp
        · rw [List.length_append] at hlt
          exact Nat.lt_of_le_of_lt (Nat.le_add_right _ _) hlt
    · cases h

/--
**The grammar of notes.**  A text is read as a single note, to its end, exactly if it is in the
language of notes.
-/
theorem noteToken_note_iff (text : List Char) :
    (∃ n c, noteToken (.start text) = .ok (.note n) c ∧ c.rest = []) ↔ text ∈ NoteText.note := by
  constructor
  · rintro ⟨n, c, htoken, hend⟩
    obtain ⟨first, d, hfirst, htoken⟩ := bind_eq_ok htoken
    obtain ⟨notes, e, hjoined, hcollect⟩ := bind_eq_ok htoken
    rcases iterateUpTo_joined hjoined with ⟨rfl, rfl⟩ | hlt
    · cases hcollect
      obtain ⟨t, ht, head, u, v, rfl, hu, hv⟩ := (meets_note .sequential).sound hfirst
      rw [hend, List.append_nil] at ht
      rw [show text = u ++ v from ht]
      exact Language.append_mem_mul hu.mem (mem_velocities hv)
    · -- Several notes form a collection.
      match notes, hlt with
      | first :: second :: later, _ => cases hcollect
  · intro h
    obtain ⟨n, hn⟩ := exists_note .sequential h
    have hread := hn 0 [] NoteText.nil_mem_afterNote
    rw [List.append_nil] at hread
    exact ⟨n, _, bind_of_ok hread, rfl⟩

end MusicString.Grammar

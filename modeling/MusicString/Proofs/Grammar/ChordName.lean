import MusicString.Proofs.Grammar.NoteLanguage

/-!
# The longest word that follows

Many names of chords start with the name of another chord, so a text can start with several words
of a vocabulary.  The longest of them is taken, and there is only one of its length, wherever it
stands in the vocabulary and however often.  So neither the chord that is read nor its intervals
depend on the order of the table of chords.

* `Read.LongestWord`, `Read.longestMatch_eq_some`: the longest word of a vocabulary;
* `Grammar.chordFrom`: the read of chords for any table;
* `Grammar.LongestRow`, `Grammar.chordFrom_of_longestRow`: the row of the table that is taken;
* `Grammar.longest_taken`: words, and chords whatever the order of their table.
-/

namespace MusicString

/-! ### Words -/

namespace Read

variable {vocabulary : List String} {text : List Char} {w : String} {c : Cursor}

/-- The text starts with the word of the vocabulary, and with no other one that is as long. -/
structure LongestWord (vocabulary : List String) (text : List Char) (w : String) : Prop where
  mem : w ∈ vocabulary
  starts : w.toList <+: text
  longest : ∀ v ∈ vocabulary, v.toList <+: text → v = w ∨ v.length < w.length

/-- A text starts with one word of each length. -/
theorem eq_of_starts {v : String} (hv : v.toList <+: text) (hw : w.toList <+: text)
    (h : v.length = w.length) : v = w := by
  rw [← String.length_toList, ← String.length_toList] at h
  exact String.toList_inj.1 ((List.prefix_of_prefix_length_le hv hw h.le).eq_of_length h)

theorem longestMatch_eq_some :
    longestMatch vocabulary text = some w ↔ LongestWord vocabulary text w := by
  rw [longestMatch_eq_some_iff]
  constructor
  · rintro ⟨hmem, hstarts, hlongest⟩
    refine ⟨hmem, hstarts, fun v hv hpre => ?_⟩
    rcases Nat.lt_or_eq_of_le (hlongest v hv hpre) with hlt | heq
    · exact .inr hlt
    · exact .inl (eq_of_starts hpre hstarts heq)
  · intro h
    refine ⟨h.mem, h.starts, fun v hv hpre => ?_⟩
    rcases h.longest v hv hpre with rfl | hlt
    · exact Nat.le_refl _
    · exact Nat.le_of_lt hlt

theorem keyword_eq_ok {d : Cursor} (h : keyword vocabulary c = .ok w d) :
    LongestWord vocabulary c.rest w ∧ d = c.move w.length := by
  cases hmatch : longestMatch vocabulary c.rest with
  | none =>
    rw [keyword_of_no_match hmatch] at h
    cases h
  | some v =>
    rw [keyword_of_match hmatch] at h
    cases h
    exact ⟨longestMatch_eq_some.1 hmatch, rfl⟩

/-- A word is found exactly if the text starts with one. -/
theorem exists_keyword_iff :
    (∃ w d, keyword vocabulary c = .ok w d) ↔ ∃ v ∈ vocabulary, v.toList <+: c.rest := by
  constructor
  · rintro ⟨w, d, h⟩
    have hword := (keyword_eq_ok h).1
    exact ⟨w, hword.mem, hword.starts⟩
  · rintro ⟨v, hv, hpre⟩
    cases hmatch : longestMatch vocabulary c.rest with
    | none => exact absurd hpre (longestMatch_eq_none_iff.1 hmatch v hv)
    | some w => exact ⟨w, _, keyword_of_match hmatch⟩

theorem keyword_eq_error {d : Cursor} {e : ParseError} (h : keyword vocabulary c = .error e d) :
    e.kind = .grammar ∧ e.position = c.pos ∧ d = c := by
  cases hmatch : longestMatch vocabulary c.rest with
  | some v =>
    rw [keyword_of_match hmatch] at h
    cases h
  | none =>
    rw [keyword_of_no_match hmatch] at h
    cases h
    exact ⟨rfl, rfl, rfl⟩

theorem optional_keyword_of_match (h : longestMatch vocabulary c.rest = some w) :
    optional (keyword vocabulary) c = .ok (some w) (c.move w.length) := by
  unfold optional
  rw [keyword_of_match h]

theorem optional_keyword_of_no_match (h : longestMatch vocabulary c.rest = none) :
    optional (keyword vocabulary) c = .ok none c := by
  unfold optional
  rw [keyword_of_no_match h]
  exact if_pos rfl

end Read

/-! ### Rows of a table of chords -/

namespace Grammar

open Read

variable {table : List (String × List Nat)} {text : List Char} {row : String × List Nat}
  {c : Cursor}

/-- Takes the name of a chord of the table and a mark for each inversion, if a name follows. -/
def chordFrom (table : List (String × List Nat)) : Read (Option ChordSpec) := do
  match ← optional (keyword (table.map (·.1))) with
  | none => return none
  | some name =>
    let intervals := ((table.find? (·.1 = name)).map (·.2)).getD []
    let marks ← run (· = '^')
    return some
      { name
        intervals := intervals.map fun i : Nat => .literal (Byte.nearest i)
        inversion := Byte.nearest marks.length }

theorem chordFrom_table : chordFrom Chord.table = chord := rfl

/-- The text starts with the name of the row, and with no other name that is as long. -/
structure LongestRow (table : List (String × List Nat)) (text : List Char)
    (row : String × List Nat) : Prop where
  mem : row ∈ table
  starts : row.1.toList <+: text
  longest : ∀ other ∈ table, other.1.toList <+: text →
    other = row ∨ other.1.length < row.1.length

theorem LongestRow.longestWord (h : LongestRow table text row) :
    LongestWord (table.map (·.1)) text row.1 where
  mem := List.mem_map_of_mem h.mem
  starts := h.starts
  longest := by
    intro v hv hpre
    obtain ⟨other, hother, rfl⟩ := List.mem_map.1 hv
    exact (h.longest other hother hpre).imp_left (congrArg Prod.fst)

/-- The order of the rows does not matter. -/
theorem LongestRow.perm {table' : List (String × List Nat)} (h : LongestRow table text row)
    (hperm : table'.Perm table) : LongestRow table' text row where
  mem := hperm.mem_iff.2 h.mem
  starts := h.starts
  longest other hother := h.longest other (hperm.mem_iff.1 hother)

/-- If all names are different, the name of the longest row tells the row. -/
theorem exists_longestRow (hnames : (table.map (·.1)).Nodup)
    (h : ∃ row ∈ table, row.1.toList <+: text) : ∃ row, LongestRow table text row := by
  obtain ⟨some', hsome, hpre⟩ := h
  cases hmatch : longestMatch (table.map (·.1)) text with
  | none => exact absurd hpre (longestMatch_eq_none_iff.1 hmatch _ (List.mem_map_of_mem hsome))
  | some w =>
    have hword := longestMatch_eq_some.1 hmatch
    obtain ⟨row, hrow, rfl⟩ := List.mem_map.1 hword.mem
    refine ⟨row, hrow, hword.starts, fun other hother hpre => ?_⟩
    refine (hword.longest other.1 (List.mem_map_of_mem hother) hpre).imp_left fun hname => ?_
    exact List.inj_on_of_nodup_map hnames hother hrow hname

theorem find?_of_mem (hnames : (table.map (·.1)).Nodup) (hrow : row ∈ table) :
    table.find? (·.1 = row.1) = some row := by
  cases hfind : table.find? (·.1 = row.1) with
  | none => simpa using List.find?_eq_none.1 hfind row hrow
  | some other =>
    have hname : other.1 = row.1 := by simpa using List.find?_some hfind
    rw [List.inj_on_of_nodup_map hnames (List.mem_of_find?_eq_some hfind) hrow hname]

/-- The longest row gives the chord, and the marks after its name the inversion. -/
theorem chordFrom_of_longestRow (hnames : (table.map (·.1)).Nodup)
    (h : LongestRow table c.rest row) :
    let marks := (c.rest.drop row.1.length).takeWhile (· = '^')
    chordFrom table c =
      .ok (some
        { name := row.1
          intervals := row.2.map fun i : Nat => .literal (Byte.nearest i)
          inversion := Byte.nearest marks.length }) (c.move (row.1.length + marks.length)) := by
  intro marks
  have hmatch := longestMatch_eq_some.2 h.longestWord
  unfold chordFrom
  rw [bind_of_ok (optional_keyword_of_match hmatch)]
  dsimp only
  rw [find?_of_mem hnames h.mem, bind_of_ok (run_apply _ _), Cursor.move_move]
  rfl

/-- Where no name follows, nothing is taken. -/
theorem chordFrom_of_none (h : ∀ row ∈ table, ¬ row.1.toList <+: c.rest) :
    chordFrom table c = .ok none c := by
  have hmatch : longestMatch (table.map (·.1)) c.rest = none :=
    longestMatch_eq_none_iff.2 (List.forall_mem_map.2 h)
  unfold chordFrom
  rw [bind_of_ok (optional_keyword_of_no_match hmatch)]
  rfl

theorem nodup_chordNames : (Chord.table.map (·.1)).Nodup := by
  decide

/-- The intervals of the table are bytes, so none of them is moved to the end of a range. -/
theorem toNat_interval (hrow : row ∈ Chord.table) :
    (row.2.map fun i : Nat => Byte.nearest i).map (·.toNat) = row.2 := by
  have hbytes : ∀ row ∈ Chord.table, ∀ i ∈ row.2, i ≤ 255 := by decide
  rw [List.map_map]
  refine (List.map_congr_left fun i hi => ?_).trans (List.map_id _)
  have hle := hbytes row hrow i hi
  show (Byte.nearest i).val.toNat = i
  rw [Byte.nearest, Ranged.clamp_val _ (by omega)]
  rfl

/-- A read of chords gives the same for every order of the table. -/
theorem chordFrom_perm (hperm : table.Perm Chord.table) (c : Cursor) :
    chordFrom table c = chord c := by
  have hnames : (table.map (·.1)).Nodup := (hperm.map _).nodup_iff.2 nodup_chordNames
  rw [← chordFrom_table]
  by_cases hfollows : ∃ row ∈ Chord.table, row.1.toList <+: c.rest
  · obtain ⟨row, hrow⟩ := exists_longestRow nodup_chordNames hfollows
    rw [chordFrom_of_longestRow hnames (hrow.perm hperm),
      chordFrom_of_longestRow nodup_chordNames hrow]
  · have hnone : ∀ row ∈ Chord.table, ¬ row.1.toList <+: c.rest :=
      fun row hrow hpre => hfollows ⟨row, hrow, hpre⟩
    rw [chordFrom_of_none hnone, chordFrom_of_none fun row hrow => hnone row (hperm.mem_iff.1 hrow)]

/--
**The longest word is taken.**  From any vocabulary, with repeated and empty words, a word is taken
exactly if the text starts with one; it is the only longest such word, and the cursor moves over
its characters.  Otherwise there is a failure of grammar at the cursor and nothing is taken.  So in
whatever order the table of chords is, the longest name of a chord that follows is taken, with the
intervals of its row.
-/
theorem longest_taken :
    (∀ (vocabulary : List String) (c : Cursor),
      ((∃ w d, keyword vocabulary c = .ok w d) ↔ ∃ v ∈ vocabulary, v.toList <+: c.rest) ∧
        (∀ w d, keyword vocabulary c = .ok w d →
          LongestWord vocabulary c.rest w ∧ d = c.move w.length) ∧
        ∀ e d, keyword vocabulary c = .error e d →
          e.kind = .grammar ∧ e.position = c.pos ∧ d = c) ∧
      ∀ table : List (String × List Nat), table.Perm Chord.table → ∀ c : Cursor,
        chordFrom table c = chord c ∧
          ((∀ row ∈ table, ¬ row.1.toList <+: c.rest) ∧ chord c = .ok none c ∨
            ∃ (row : String × List Nat) (intervals : List Byte),
              let marks := (c.rest.drop row.1.length).takeWhile (· = '^')
              LongestRow table c.rest row ∧ intervals.map (·.toNat) = row.2 ∧
                chord c =
                  .ok (some
                    { name := row.1
                      intervals := intervals.map .literal
                      inversion := Byte.nearest marks.length })
                    (c.move (row.1.length + marks.length))) := by
  refine ⟨fun vocabulary c => ⟨exists_keyword_iff, fun w d => keyword_eq_ok,
    fun e d => keyword_eq_error⟩, fun table hperm c => ⟨chordFrom_perm hperm c, ?_⟩⟩
  have hnames : (table.map (·.1)).Nodup := (hperm.map _).nodup_iff.2 nodup_chordNames
  rw [← chordFrom_perm hperm c]
  by_cases hfollows : ∃ row ∈ table, row.1.toList <+: c.rest
  · obtain ⟨row, hrow⟩ := exists_longestRow hnames hfollows
    refine .inr ⟨row, _, hrow, toNat_interval (hperm.mem_iff.1 hrow.mem), ?_⟩
    rw [List.map_map]
    exact chordFrom_of_longestRow hnames hrow
  · have hnone : ∀ row ∈ table, ¬ row.1.toList <+: c.rest :=
      fun row hrow hpre => hfollows ⟨row, hrow, hpre⟩
    exact .inl ⟨hnone, chordFrom_of_none hnone⟩

theorem longest_taken_reversed :
    let nested := ["dom7", "", "dom7<5", "dom7", "dom7<5<9"]
    let fifth : Cursor := .start "dom7<5<w".toList
    let short : Cursor := .start "ma".toList
    let missing := short.unexpected "one of [maj, min]"
    (keyword nested fifth = .ok "dom7<5" (fifth.move 6) ∧
        LongestWord nested fifth.rest "dom7<5") ∧
      (keyword ["maj", "min"] short = .error missing short ∧
        missing.kind = .grammar ∧ missing.position = short.pos) ∧
      Chord.table.reverse.Perm Chord.table ∧ Chord.table.reverse ≠ Chord.table ∧
        chordFrom Chord.table.reverse fifth = chord fifth := by
  intro nested fifth short missing
  have htaken : keyword nested fifth = .ok "dom7<5" (fifth.move 6) := rfl
  have hmissing : keyword ["maj", "min"] short = .error missing short := rfl
  have hperm := List.reverse_perm Chord.table
  obtain ⟨hword, -⟩ := (longest_taken.1 nested fifth).2.1 _ _ htaken
  obtain ⟨hkind, hposition, -⟩ := (longest_taken.1 _ short).2.2 _ _ hmissing
  exact ⟨⟨htaken, hword⟩, ⟨hmissing, hkind, hposition⟩, hperm, by decide,
    (longest_taken.2 _ hperm fifth).1⟩

end Grammar

end MusicString

import Mathlib.Data.Int.ModEq
import MusicString.Grammar.Token
import MusicString.Proofs.Element.Evaluate
import MusicString.Proofs.Grammar.NoteLanguage

/-!
# Keys on the circle of fifths

The root of a key and its sharps or flats come from two tables of letters and two sums over its
accidentals.  The two agree: a fifth is seven semitones, so the root of a key lies as many fifths
from C as the key has sharps, and nine semitones higher in a minor key.

* `Pitch.offset_modEq`: the tables agree on the letters;
* `Grammar.meets_keySignatureRule`: the texts that are key signatures;
* `Grammar.Key`: how a key with its letter, accidentals and scale is read as an element, as a note
  and as an event.
-/

namespace MusicString

namespace Scale

/-- The name of a scale in a key signature. -/
def shortName : Scale → String
  | major => "maj"
  | minor => "min"

/-- The semitones of a key's root above the root of the major key with the same sharps or flats. -/
def tonic : Scale → Int
  | major => 0
  | minor => 9

/-- The fifths from the major key of a root down to the key of the same root. -/
def lowering : Scale → Int
  | major => 0
  | minor => 3

end Scale

namespace Pitch

variable {x : Char} {fifths offset : Int}

/-- The place of a letter on the circle of fifths gives its semitones, but for octaves. -/
theorem offset_modEq (hf : fifths? x = some fifths) (ho : offset? x = some offset) :
    offset ≡ 7 * fifths [ZMOD 12] := by
  unfold fifths? at hf
  split at hf <;> cases hf <;> cases ho <;> decide

theorem fifths_bounds (hf : fifths? x = some fifths) : -1 ≤ fifths ∧ fifths ≤ 5 := by
  unfold fifths? at hf
  split at hf <;> cases hf <;> decide

theorem fifths?_isSome_of_offset? (ho : offset? x = some offset) :
    ∃ fifths, fifths? x = some fifths := by
  unfold offset? at ho
  split at ho <;> cases ho <;> exact ⟨_, rfl⟩

end Pitch

namespace Grammar

open Read Text

/-! ### Reading -/

theorem meets_keyLetter : keyLetter.Meets fun t place _ =>
    ∃ x, t = [x] ∧ Pitch.fifths? x = some place.1 ∧ Pitch.offset? x = some place.2 where
  complete := by
    rintro t ⟨fifths, offset⟩ rest ⟨x, rfl, hf, ho⟩ k
    exact keyLetter_of_letter rfl hf ho
  sound := by
    intro c place d h
    cases hplace : c.peek.bind Pitch.fifths? with
    | none =>
      rw [keyLetter_of_not_letter hplace] at h
      cases h
    | some fifths =>
      obtain ⟨x, hx, hf⟩ := Option.bind_eq_some_iff.1 hplace
      obtain ⟨offset, ho⟩ := Pitch.offset?_isSome_of_fifths? hf
      rw [keyLetter_of_letter hx hf ho] at h
      cases h
      exact ⟨[x], Cursor.rest_of_peek hx, x, rfl, hf, ho⟩

theorem longestMatch_shortName (scale : Scale) (rest : List Char) :
    longestMatch ["maj", "min"] (scale.shortName.toList ++ rest) = some scale.shortName := by
  cases scale <;> rfl

theorem meets_shortName : (keyword ["maj", "min"]).Meets fun t name _ =>
    ∃ scale : Scale, name = scale.shortName ∧ t = scale.shortName.toList := by
  refine (meets_keyword _).congr fun t name rest => ?_
  constructor
  · rintro ⟨scale, rfl, rfl⟩
    exact ⟨rfl, longestMatch_shortName scale rest⟩
  · rintro ⟨rfl, hmatch⟩
    have hmem := (longestMatch_eq_some_iff.1 hmatch).1
    rcases List.mem_pair.1 hmem with rfl | rfl
    · exact ⟨.major, rfl, rfl⟩
    · exact ⟨.minor, rfl, rfl⟩

theorem scaleOf_shortName (scale : Scale) : scaleOf scale.shortName = scale := by
  cases scale <;> rfl

/-- What follows the letter of a key: accidentals and the name of a scale. -/
theorem meets_afterKeyLetter (fifths offset : Int) (start : Nat) :
    Meets (do
        let shift ← accidentals start
        return some (keyOf fifths offset shift (scaleOf (← keyword ["maj", "min"]))) :
          Read (Option Element))
      fun t o _ => ∃ run ∈ NoteText.accidentals, ∃ scale : Scale,
        t = run ++ scale.shortName.toList ∧
          o = some (keyOf fifths offset (Pitch.accidentals run) scale) := by
  refine ((meets_accidentals start).bind fun shift =>
    meets_shortName.bind_check fun name => Meets.pure _).congr fun t o rest => ?_
  constructor
  · rintro ⟨run, hrun, scale, rfl, rfl⟩
    obtain ⟨hle, hall⟩ := mem_accidentals_iff.1 hrun
    -- No scale starts with an accidental, so the run ends where the name starts.
    have hstop : (scale.shortName.toList ++ rest).head?.any Pitch.isAccidental = false := by
      cases scale <;> rfl
    refine ⟨_, run, _, rfl, ⟨rfl, hle, hall, hstop⟩, _, ⟨scale, rfl, rfl⟩, ?_⟩
    rw [scaleOf_shortName]
  · rintro ⟨_, run, _, rfl, ⟨rfl, hle, hall, -⟩, _, ⟨scale, rfl, rfl⟩, rfl⟩
    rw [scaleOf_shortName]
    exact ⟨run, mem_accidentals_iff.2 ⟨hle, hall⟩, scale, rfl, rfl⟩

/-- The spellings of a key signature; a token that starts with another letter is none. -/
inductive SpelledKey : List Char → Option Element → List Char → Prop
  | missing {rest : List Char} : rest.head? ≠ some 'K' → SpelledKey [] none rest
  | key {x : Char} {run rest : List Char} {fifths offset : Int} (scale : Scale) :
    Pitch.fifths? x = some fifths → Pitch.offset? x = some offset → run ∈ NoteText.accidentals →
    SpelledKey ('K' :: x :: (run ++ scale.shortName.toList))
      (some (keyOf fifths offset (Pitch.accidentals run) scale)) rest

theorem meets_keySignatureRule (d : Dictionary) : (keySignatureRule.read d).Meets SpelledKey := by
  refine (Meets.position_bind fun start => Meets.ite_eat (x := 'K')
    (meets_keyLetter.bind fun place => meets_afterKeyLetter place.1 place.2 start)
    (Meets.pure none)).congr fun t o rest => ?_
  constructor
  · intro h
    cases h with
    | missing hrest => exact .inr ⟨hrest, rfl, rfl⟩
    | @key x run _ fifths offset scale hf ho hrun =>
      exact .inl ⟨_, rfl, (fifths, offset), [x], _, rfl, ⟨x, rfl, hf, ho⟩, run, hrun, scale, rfl,
        rfl⟩
  · rintro (⟨_, rfl, place, _, _, rfl, ⟨x, rfl, hf, ho⟩, run, hrun, scale, rfl, rfl⟩ |
      ⟨hrest, rfl, rfl⟩)
    · exact .key scale hf ho hrun
    · exact .missing hrest

/-- A value that nothing follows is a note of its own. -/
theorem spelledNote_of_value {t : List Char} {value : NoteValue} (hne : value ≠ .rest)
    (h : SpelledValue t value []) (placement : Placement) :
    SpelledNote placement t { value, placement } [] := by
  have hend (x : Char) : ([] : List Char).head? ≠ some x := nofun
  have htail : SpelledTail { value, placement } [] { value, placement } [] :=
    .parts (.inr ⟨rfl, hend '-', rfl⟩) (.missing rfl) (.missing (hend '*'))
      (.inr ⟨rfl, rfl, hend '-'⟩)
  have hhead : SpelledHead placement (t ++ ([] ++ [])) { value, placement } [] :=
    .parts h (.inr ⟨hne, .missing NoteText.noChord_nil⟩) htail
  rw [List.nil_append, List.append_nil] at hhead
  exact ⟨_, t, [], (List.append_nil t).symm, hhead, .stop (.missing (hend 'a') (hend 'd'))⟩

/-- A letter with accidentals and an octave is read as a note with nothing else. -/
theorem noteRule_of_letter {x : Char} {offset : Int} {run ds : List Char}
    (ho : Pitch.offset? x = some offset) (hrun : run ∈ NoteText.accidentals)
    (hds : ds ∈ NoteText.octave) (d : Dictionary) (k : Nat) :
    noteRule.read d ⟨k, x :: (run ++ ds)⟩ =
      .ok (some (.note { value := .pitch (offset + Pitch.accidentals run) (octaveOf ds) }))
        ⟨k + (x :: (run ++ ds)).length, []⟩ := by
  have hstarts : Pitch.startsNote x = true := by
    simp [Pitch.startsNote, ho]
  have hvalue : SpelledValue (x :: (run ++ ds)) _ [] := spelledValue_pitch ho hrun hds rfl rfl
  have hspelled := spelledNote_of_value (by simp) hvalue .sequential
  have hnote := (meets_note .sequential).complete hspelled k
  rw [List.append_nil] at hnote
  have htoken : noteToken ⟨k, x :: (run ++ ds)⟩ = .ok _ _ := bind_of_ok hnote
  show (if Pitch.startsNote x = true then _ else _ : Read (Option Element)) _ = _
  rw [if_pos hstarts]
  exact bind_of_ok htoken

/-! ### Roots, sharps and flats -/

/-- Both numbers of a key fit their kinds, so none of them is moved to the end of a range. -/
theorem keyOf_exact {fifths shift : Int} (hfifths : -1 ≤ fifths ∧ fifths ≤ 5)
    (hshift : shift.natAbs ≤ 12) (offset : Int) (scale : Scale) : ∃ (root : Byte) (sharps : Integer),
      keyOf fifths offset shift scale = .keySignature (.literal root) (.literal sharps) scale ∧
      root.val = (offset + shift) % 12 ∧ sharps.val = fifths + 7 * shift - scale.lowering := by
  refine ⟨_, _, rfl, nearest_val (by omega), ?_⟩
  cases scale <;> exact Ranged.clamp_val _ (by dsimp only; omega)

/--
The root of a key is the class of its letter with its accidentals; as many fifths from C as the key
has sharps, where flats count below zero, lead to the same class.
-/
theorem keyOf_eq {fifths shift : Int} (hfifths : -1 ≤ fifths ∧ fifths ≤ 5)
    (hshift : shift.natAbs ≤ 12) (offset : Int) (scale : Scale) : ∃ (root : Byte) (sharps : Integer),
      keyOf fifths offset shift scale = .keySignature (.literal root) (.literal sharps) scale ∧
      root.val = (offset + shift) % 12 ∧
      7 * sharps.val + scale.tonic ≡ 7 * fifths + shift [ZMOD 12] := by
  obtain ⟨root, sharps, helement, hroot, hsharps⟩ := keyOf_exact hfifths hshift offset scale
  refine ⟨root, sharps, helement, hroot, ?_⟩
  -- Seven fifths are a semitone above four octaves, and three fifths are three semitones below two.
  rw [hsharps]
  unfold Int.ModEq Scale.tonic Scale.lowering
  cases scale <;> dsimp only <;> omega

theorem evaluate_keySignature {root : Byte} (hroot : root.val < 12) (sharps : Integer)
    (scale : Scale) (d : Dictionary) (defaults : Defaults) (event : Event) :
    (Element.keySignature (.literal root) (.literal sharps) scale).evaluate d defaults = .ok event ↔
      (-7 ≤ sharps.val ∧ sharps.val ≤ 7) ∧ event = .keySignature root scale sharps.val := by
  have hlo := root.lo_le
  have hclass : Byte.nearest (root.val % 12) = root :=
    Ranged.ext ((nearest_val (by omega)).trans (by omega))
  constructor
  · intro h
    cases Element.evaluate_eq_ok h with
    | keySignature hroot' hsharps =>
      obtain ⟨hsharps', hrange⟩ := hsharps
      cases hroot'
      cases hsharps'
      exact ⟨hrange, by rw [hclass]⟩
  · rintro ⟨hrange, rfl⟩
    have hcheck : check .keySignature (-7) 7 sharps = .ok sharps := check_of_mem hrange
    simp [Element.evaluate, hcheck, hclass, bind, Except.bind, pure, Except.pure]

/--
The key of a letter, accidentals and a scale is an element that agrees with the circle of fifths,
with the note of the same letter and accidentals, and with the events that it gives.
-/
structure Key (x : Char) (run : List Char) (scale : Scale) (e : Element) (root : Byte)
    (sharps : Integer) : Prop where
  letter : x ∈ ['A', 'B', 'C', 'D', 'E', 'F', 'G']
  accidentals : run ∈ NoteText.accidentals
  element : e = .keySignature (.literal root) (.literal sharps) scale
  root_lt : root.val < 12
  /-- The root lies as many fifths from C as the key has sharps. -/
  circle : root.val ≡ 7 * sharps.val + scale.tonic [ZMOD 12]
  /-- The note of the same letter and accidentals, in any octave, has the root as its class. -/
  note : ∃ offset : Int, root.val = offset % 12 ∧
    ∀ ds ∈ NoteText.octave, ∀ (d : Dictionary) (k : Nat),
      noteRule.read d ⟨k, x :: (run ++ ds)⟩ =
        .ok (some (.note { value := .pitch offset (octaveOf ds) }))
          ⟨k + (x :: (run ++ ds)).length, []⟩
  event : ∀ (d : Dictionary) (defaults : Defaults) (event : Event),
    e.evaluate d defaults = .ok event ↔
      (-7 ≤ sharps.val ∧ sharps.val ≤ 7) ∧ event = .keySignature root scale sharps.val

theorem key_of_keyOf {x : Char} {run : List Char} {fifths offset : Int}
    (hf : Pitch.fifths? x = some fifths) (ho : Pitch.offset? x = some offset)
    (hrun : run ∈ NoteText.accidentals) (scale : Scale) : ∃ root sharps,
      Key x run scale (keyOf fifths offset (Pitch.accidentals run) scale) root sharps := by
  obtain ⟨root, sharps, helement, hroot, hsharps⟩ :=
    keyOf_eq (Pitch.fifths_bounds hf) (mem_accidentals_iff.1 hrun).1 offset scale
  have hlt : root.val < 12 := by omega
  have hcircle : root.val ≡ 7 * sharps.val + scale.tonic [ZMOD 12] := calc
    root.val = (offset + Pitch.accidentals run) % 12 := hroot
    _ ≡ offset + Pitch.accidentals run [ZMOD 12] := Int.mod_modEq _ _
    _ ≡ 7 * fifths + Pitch.accidentals run [ZMOD 12] := (Pitch.offset_modEq hf ho).add_right _
    _ ≡ 7 * sharps.val + scale.tonic [ZMOD 12] := hsharps.symm
  rw [helement]
  exact ⟨root, sharps, mem_letters_of_offset? ho, hrun, rfl, hlt, hcircle,
    ⟨_, hroot, fun ds hds => noteRule_of_letter ho hrun hds⟩,
    evaluate_keySignature hlt sharps scale⟩

/--
**Keys and the circle of fifths.**  Every key signature that is read has a letter, accidentals and a
scale for its text and is the key of these; and every letter with accidentals that come to at most
an octave has a key in each scale, whatever follows it.
-/
theorem keySignature_circle (d : Dictionary) :
    (∀ (c c' : Cursor) (e : Element), keySignatureRule.read d c = .ok (some e) c' →
      ∃ x run scale root sharps,
        c.rest = 'K' :: x :: (run ++ scale.shortName.toList) ++ c'.rest ∧
          Key x run scale e root sharps) ∧
    (∀ x ∈ ['A', 'B', 'C', 'D', 'E', 'F', 'G'], ∀ run ∈ NoteText.accidentals,
      ∀ (scale : Scale) (k : Nat) (rest : List Char), ∃ e root sharps,
        keySignatureRule.read d ⟨k, 'K' :: x :: (run ++ scale.shortName.toList) ++ rest⟩ =
            .ok (some e) ⟨k + ('K' :: x :: (run ++ scale.shortName.toList)).length, rest⟩ ∧
          Key x run scale e root sharps) := by
  constructor
  · intro c c' e h
    obtain ⟨t, ht, hspelled⟩ := (meets_keySignatureRule d).sound h
    cases hspelled with
    | @key x run _ fifths offset scale hf ho hrun =>
      obtain ⟨root, sharps, hkey⟩ := key_of_keyOf hf ho hrun scale
      exact ⟨x, run, scale, root, sharps, ht, hkey⟩
  · intro x hx run hrun scale k rest
    obtain ⟨offset, ho⟩ := offset?_of_mem_letters hx
    obtain ⟨fifths, hf⟩ := Pitch.fifths?_isSome_of_offset? ho
    obtain ⟨root, sharps, hkey⟩ := key_of_keyOf hf ho hrun scale
    exact ⟨_, root, sharps, (meets_keySignatureRule d).complete (.key scale hf ho hrun) k, hkey⟩

/-- B flat minor has five flats, also if its flat is written again after a natural. -/
theorem keySignature_circle_flats :
    let bFlatMinor : Element :=
      .keySignature (.literal (.nearest 10)) (.literal (.nearest (-5))) .minor
    keySignatureRule.read .empty ⟨3, "KBbnbmin C".toList⟩ =
        .ok (some bFlatMinor) ⟨11, " C".toList⟩ ∧
      (∃ x run scale root sharps,
        "KBbnbmin C".toList = 'K' :: x :: (run ++ scale.shortName.toList) ++ " C".toList ∧
          Key x run scale bFlatMinor root sharps) ∧
      'B' ∈ ['A', 'B', 'C', 'D', 'E', 'F', 'G'] ∧ "bnb".toList ∈ NoteText.accidentals ∧
      Key 'B' "bnb".toList .minor bFlatMinor (.nearest 10) (.nearest (-5)) := by
  intro bFlatMinor
  have hread : keySignatureRule.read .empty ⟨3, "KBbnbmin C".toList⟩ =
      .ok (some bFlatMinor) ⟨11, " C".toList⟩ := rfl
  have hletter : 'B' ∈ ['A', 'B', 'C', 'D', 'E', 'F', 'G'] := by simp
  have hrun : "bnb".toList ∈ NoteText.accidentals :=
    mem_accidentals_iff.2 ⟨by decide, List.all_eq_true.1 (by decide)⟩
  obtain ⟨hsound, hcomplete⟩ := keySignature_circle .empty
  obtain ⟨e, root, sharps, hread', hkey⟩ := hcomplete 'B' hletter _ hrun .minor 3 " C".toList
  cases hread.symm.trans hread'
  injection hkey.element with hroot hsharps
  cases hroot
  cases hsharps
  exact ⟨hread, hsound _ _ _ hread, hletter, hrun, hkey⟩

end Grammar

end MusicString

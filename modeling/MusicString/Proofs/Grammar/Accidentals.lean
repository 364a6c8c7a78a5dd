import Mathlib.Data.List.DropRight
import MusicString.Proofs.Grammar.KeySignature

/-!
# Runs of accidentals

A run of accidentals may be long, and its total may leave the allowed range and come back to it: a
flat takes a sharp back, and a natural takes back all that stands before it.  Only the total at the
end counts, which is that of the accidentals after the last natural.  It is kept in an int of 32
bits that stays where it is at the ends of its range, and no run that is shorter than this range
gets there.  What is made of a total that is allowed, the semitones of a note and the numbers of a
key, has room in the integers it is made in.

* `Grammar.net_eq_count`: the total by the last natural;
* `Grammar.accidentals_apply`: what is taken and what is given;
* `Grammar.noteValue_eq_pitch`, `Grammar.keySignatureRule_eq_some`: what totals are used for;
* `Grammar.accidentals_exact`: the three together.
-/

namespace MusicString

namespace Grammar

open Read

variable {c c' : Cursor}

/-! ### Totals -/

/-- The total is that of the sharps and flats after the last natural. -/
theorem net_eq_count (run : List Char) :
    let last := run.rtakeWhile (· ≠ 'n')
    NoteText.net run = (last.count '#' : Int) - last.count 'b' := by
  intro last
  simp only [last, List.rtakeWhile, List.count_reverse]
  rfl

/-- All accidentals that follow are taken, whether their total is allowed or not. -/
theorem accidentals_apply (start : Nat) (c : Cursor) :
    let run := c.rest.takeWhile Pitch.isAccidental
    let net := Pitch.accidentals run
    accidentals start c =
      if -12 ≤ net ∧ net ≤ 12 then .ok net (c.move run.length)
      else .error (.evaluation (.outOfRange .accidentals net (-12) 12) start)
        (c.move run.length) := by
  intro run net
  have hallowed : ((net.natAbs : Int) ≤ Pitch.maxAccidentals) ↔ -12 ≤ net ∧ net ≤ 12 := by
    rw [Pitch.maxAccidentals]
    omega
  unfold accidentals
  rw [bind_of_ok (run_apply _ c)]
  show (if (net.natAbs : Int) ≤ Pitch.maxAccidentals then _ else _ : Read Int) _ = _
  by_cases hnet : -12 ≤ net ∧ net ≤ 12
  · rw [if_pos (hallowed.2 hnet), if_pos hnet]
    rfl
  · rw [if_neg (mt hallowed.1 hnet), if_neg hnet]
    rfl

theorem accidentals_bounds {start : Nat} {shift : Int} (h : accidentals start c = .ok shift c') :
    -12 ≤ shift ∧ shift ≤ 12 := by
  rw [accidentals_apply] at h
  split at h <;> cases h
  assumption

/-! ### What totals are used for -/

theorem offset_bounds {x : Char} {base : Int} (h : Pitch.offset? x = some base) :
    0 ≤ base ∧ base ≤ 11 := by
  unfold Pitch.offset? at h
  split at h <;> cases h <;> decide

/-- The semitones of a note are those of its letter and those of its accidentals. -/
theorem noteValue_eq_pitch {offset : Int} {o : Option (Expr Byte)}
    (h : noteValue c = .ok (.pitch offset o) c') : ∃ x base shift stop,
      c.peek = some x ∧ Pitch.offset? x = some base ∧
        accidentals c.pos (c.move 1) = .ok shift stop ∧ offset = base + shift := by
  cases hstarts : c.peek.any Pitch.startsNote with
  | false =>
    rw [noteValue_of_not_start hstarts] at h
    cases h
  | true =>
    obtain ⟨x, hx, hstarts⟩ := (Option.any_eq_true _ _).1 hstarts
    rcases Pitch.startsNote_cases hstarts with ⟨base, hbase⟩ | rfl | rfl
    · rw [noteValue_of_letter hx hbase] at h
      obtain ⟨shift, stop, hshift, h⟩ := bind_eq_ok h
      obtain ⟨octave, _, -, h⟩ := bind_eq_ok h
      cases h
      exact ⟨x, base, shift, stop, hx, hbase, hshift, rfl⟩
    · rw [noteValue_of_rest hx] at h
      cases h
    · -- A bracketed text names a number or an entry, which is no letter.
      rw [noteValue_of_bracket hx] at h
      obtain ⟨name, _, -, h⟩ := bind_eq_ok h
      cases name with
      | none => cases h
      | some name =>
        obtain ⟨-, -, -, hnamed⟩ := (meets_namedNote name c.pos).sound h
        unfold namedValue? at hnamed
        split at hnamed
        · obtain ⟨n, -, hn⟩ := Option.map_eq_some_iff.1 hnamed
          cases hn
        · cases hnamed

/-- A key is that of its letter and its accidentals. -/
theorem keySignatureRule_eq_some {d : Dictionary} {e : Element}
    (h : keySignatureRule.read d c = .ok (some e) c') : ∃ x fifths offset shift stop scale,
      (c.move 1).peek = some x ∧ Pitch.fifths? x = some fifths ∧ Pitch.offset? x = some offset ∧
        accidentals c.pos (c.move 2) = .ok shift stop ∧ e = keyOf fifths offset shift scale := by
  obtain ⟨start, _, hstart, h⟩ := bind_eq_ok h
  cases hstart
  obtain ⟨eaten, _, heat, h⟩ := bind_eq_ok h
  cases eaten with
  | false => cases h
  | true =>
    obtain rfl := eat_eq_ok_true heat
    obtain ⟨⟨fifths, offset⟩, _, hletter, h⟩ := bind_eq_ok h
    obtain ⟨shift, stop, hshift, h⟩ := bind_eq_ok h
    obtain ⟨name, _, -, h⟩ := bind_eq_ok h
    cases h
    cases hplace : (c.move 1).peek.bind Pitch.fifths? with
    | none =>
      rw [keyLetter_of_not_letter hplace] at hletter
      cases hletter
    | some fifths' =>
      obtain ⟨x, hx, hf⟩ := Option.bind_eq_some_iff.1 hplace
      obtain ⟨offset', ho⟩ := Pitch.offset?_isSome_of_fifths? hf
      rw [keyLetter_of_letter hx hf ho] at hletter
      cases hletter
      rw [Cursor.move_move] at hshift
      exact ⟨x, fifths, offset, shift, stop, scaleOf name, hx, hf, ho, hshift, rfl⟩

/--
**Accidentals are counted exactly.**  All sharps, flats and naturals that follow are taken.  In a
run of fewer than `2 ^ 31` of them, the sharps less the flats after the last natural are the total,
also if it is kept in an int of 32 bits; from twelve flats to twelve sharps it is given, and
any other total is a failure at the given start.  Adding it to the semitones of a letter stays in a
signed byte, and all that the numbers of a key are made of stays in an int of 32 bits.
-/
theorem accidentals_exact :
    (∀ (start : Nat) (c : Cursor),
      let run := c.rest.takeWhile (· ∈ ['#', 'b', 'n'])
      let last := run.rtakeWhile (· ≠ 'n')
      let net : Int := last.count '#' - last.count 'b'
      run.length < 2 ^ 31 →
        (Pitch.saturatingTotal run).val = net ∧
          accidentals start c =
            if -12 ≤ net ∧ net ≤ 12 then .ok net (c.move run.length)
            else .error (.evaluation (.outOfRange .accidentals net (-12) 12) start)
              (c.move run.length)) ∧
      (∀ (c c' : Cursor) (offset : Int) (o : Option (Expr Byte)),
        noteValue c = .ok (.pitch offset o) c' → ∃ x base shift stop,
          c.peek = some x ∧ Pitch.offset? x = some base ∧
            accidentals c.pos (c.move 1) = .ok shift stop ∧ offset = base + shift ∧
            -128 ≤ base + shift ∧ base + shift ≤ 127) ∧
      ∀ (d : Dictionary) (c c' : Cursor) (e : Element),
        keySignatureRule.read d c = .ok (some e) c' →
          ∃ x fifths offset shift stop scale root sharps,
            (c.move 1).peek = some x ∧ Pitch.fifths? x = some fifths ∧
              Pitch.offset? x = some offset ∧ accidentals c.pos (c.move 2) = .ok shift stop ∧
              e = .keySignature (.literal root) (.literal sharps) scale ∧
              root.val = (offset + shift) % 12 ∧
              sharps.val = fifths + 7 * shift - scale.lowering ∧
              ∀ n ∈ [7 * shift, fifths + 7 * shift, fifths + 7 * shift - 3, offset + shift],
                -2147483648 ≤ n ∧ n ≤ 2147483647 := by
  have hmarks : (fun x => decide (x ∈ ['#', 'b', 'n'])) = Pitch.isAccidental := by
    funext x
    rw [Bool.eq_iff_iff, decide_eq_true_iff, isAccidental_iff]
  refine ⟨fun start c => ?_, fun c c' offset o h => ?_, fun d c c' e h => ?_⟩
  · intro run last net hrun
    have hnet : Pitch.accidentals run = net :=
      (NoteText.val_saturatingTotal hrun).trans (net_eq_count run)
    refine ⟨hnet, ?_⟩
    rw [accidentals_apply, ← hnet]
    simp only [run, hmarks]
  · obtain ⟨x, base, shift, stop, hx, hbase, hshift, hoffset⟩ := noteValue_eq_pitch h
    have hletter := offset_bounds hbase
    have htotal := accidentals_bounds hshift
    exact ⟨x, base, shift, stop, hx, hbase, hshift, hoffset, by omega, by omega⟩
  · obtain ⟨x, fifths, offset, shift, stop, scale, hx, hf, ho, hshift, rfl⟩ :=
      keySignatureRule_eq_some h
    have hplace := Pitch.fifths_bounds hf
    have hletter := offset_bounds ho
    have htotal := accidentals_bounds hshift
    have hmost : shift.natAbs ≤ 12 := by omega
    obtain ⟨root, sharps, helement, hroot, hsharps⟩ := keyOf_exact hplace hmost offset scale
    refine ⟨x, fifths, offset, shift, stop, scale, root, sharps, hx, hf, ho, hshift, helement,
      hroot, hsharps, ?_⟩
    intro n hn
    simp only [List.mem_cons, List.not_mem_nil, or_false] at hn
    omega

/--
Flats before a natural do not count and a thirteenth sharp is taken back by a flat, so the run has
twelve sharps; on a B they are 23 semitones.  B flat minor has five flats.
-/
theorem accidentals_exact_twelve :
    let c : Cursor := ⟨1, "bbbbbbbbbbbbbbn#############b5".toList⟩
    let bFlatMinor : Element :=
      .keySignature (.literal (.nearest 10)) (.literal (.nearest (-5))) .minor
    (c.rest.takeWhile (· ∈ ['#', 'b', 'n'])).length < 2 ^ 31 ∧
      accidentals 0 c = .ok 12 ⟨30, ['5']⟩ ∧
      noteValue ⟨0, 'B' :: c.rest⟩ = .ok (.pitch 23 (some (.literal (.nearest 5)))) ⟨31, []⟩ ∧
      (∃ base shift : Int, 23 = base + shift ∧ -128 ≤ base + shift ∧ base + shift ≤ 127) ∧
      keySignatureRule.read .empty ⟨0, "KBbmin".toList⟩ = .ok (some bFlatMinor) ⟨6, []⟩ ∧
      ∃ fifths offset shift : Int, 10 = (offset + shift) % 12 ∧ -5 = fifths + 7 * shift - 3 ∧
        ∀ n ∈ [7 * shift, fifths + 7 * shift, fifths + 7 * shift - 3, offset + shift],
          -2147483648 ≤ n ∧ n ≤ 2147483647 := by
  intro c bFlatMinor
  obtain ⟨hruns, hnotes, hkeys⟩ := accidentals_exact
  have hlength : (c.rest.takeWhile (· ∈ ['#', 'b', 'n'])).length < 2 ^ 31 := by decide
  have hread : accidentals 0 c = .ok 12 ⟨30, ['5']⟩ := (hruns 0 c hlength).2
  have hnote : noteValue ⟨0, 'B' :: c.rest⟩ =
      .ok (.pitch 23 (some (.literal (.nearest 5)))) ⟨31, []⟩ := by
    have hletter := noteValue_of_letter (c := ⟨0, 'B' :: c.rest⟩) rfl rfl
    exact hletter.trans (bind_of_ok hread)
  have hkey : keySignatureRule.read .empty ⟨0, "KBbmin".toList⟩ =
      .ok (some bFlatMinor) ⟨6, []⟩ := rfl
  obtain ⟨-, base, shift, -, -, -, -, hpitch⟩ := hnotes _ _ _ _ hnote
  obtain ⟨-, fifths, offset, shift', -, scale, root, sharps, -, -, -, -, helement, hroot, hsharps,
    hrange⟩ := hkeys _ _ _ _ hkey
  injection helement with hroot' hsharps' hscale
  cases hroot'
  cases hsharps'
  cases hscale
  exact ⟨hlength, hread, hnote, ⟨base, shift, hpitch⟩, hkey, fifths, offset, shift', hroot,
    hsharps, hrange⟩

end Grammar

end MusicString

import MusicString.Grammar.Note
import MusicString.Proofs.Read.Spelling

/-!
# The texts of notes

The texts of notes as a language: what may stand after what, without a word on how it is read.  A
note is a *head* (its value, chord, ties, length and tuplet) and velocities.  The parts share
characters: `a` begins a velocity and the chords `aug` and `add9`, `s` is a length and begins
`sus4`, and both ties are the same sign.  That a text splits into parts in the way in which it is
read rests on the characters that each part may begin with.

* `NoteText.note`: the texts of notes;
* `NoteText.StartsIn`: the characters that the texts of a language may begin with;
* `NoteText.noChord_afterChord`: what follows a missing chord does not look like one.
-/

namespace MusicString.Grammar.NoteText

open Read Text
open scoped Computability

/-! ### The language -/

/-- A part that may be missing. -/
def opt (L : Language Char) : Language Char :=
  1 + L

/-- The texts of one character. -/
def oneOf (chars : List Char) : Language Char :=
  {t | ∃ x ∈ chars, t = [x]}

/-- A reference to an entry. -/
def reference : Language Char :=
  {t | ∃ name ∈ nameText, t = bracketed name}

/-- A number between bounds, in decimal digits. -/
def number (lo hi : Nat) : Language Char :=
  {t | t ≠ [] ∧ IsDigits t ∧ lo ≤ Decimal.value t ∧ Decimal.value t ≤ hi}

/-- A byte: a number, or a reference to one. -/
def byte : Language Char :=
  number 0 255 + reference

/-- A number with a sign and a fraction, of which each may be missing. -/
def double : Language Char :=
  {t | ∃ negative whole part, t = sign negative ++ (whole ++ pointed part) ∧ IsDigits whole ∧
    IsDigits part ∧ ¬ (whole = [] ∧ part = [])}

/-- A name in brackets; if it is a number, this must be a byte. -/
def named : Language Char :=
  {t | ∃ name ∈ nameText, (IsDigits name → Decimal.value name ≤ 255) ∧ t = bracketed name}

/-- The sharps of a run of accidentals less the flats, from the last natural on. -/
def net (run : List Char) : Int :=
  let last := run.reverse.takeWhile (· ≠ 'n')
  last.count '#' - last.count 'b'

/-- The total of a run of accidentals, which is counted exactly unless the run is too long for it. -/
def total (run : List Char) : Int :=
  if run.length < 2 ^ 31 then net run else Pitch.accidentals run

/-- Sharps, flats and naturals that come to at most an octave. -/
def accidentals : Language Char :=
  {t | (∀ x ∈ t, x ∈ ['#', 'b', 'n']) ∧ -12 ≤ total t ∧ total t ≤ 12}

/-- The digits of an octave, at most two. -/
def octave : Language Char :=
  {t | IsDigits t ∧ t.length ≤ 2}

/-- A letter with accidentals and an octave. -/
def pitch : Language Char :=
  oneOf ['A', 'B', 'C', 'D', 'E', 'F', 'G'] * (accidentals * octave)

/-- The name of a chord and marks for its inversions. -/
def chord : Language Char :=
  {t | ∃ name ∈ Chord.names, ∃ inversions, t = name.toList ++ List.replicate inversions '^'}

/-- The letters of lengths. -/
def letters : List Char :=
  ['w', 'h', 'q', 'i', 's', 't', 'x', 'o']

/-- A letter and dots. -/
def dotted : Language Char :=
  oneOf letters * (oneOf ['.'])∗

/-- A length: letters with dots, or a slash and a number. -/
def duration : Language Char :=
  dotted * dotted∗ + oneOf ['/'] * (double + reference)

/-- A tuplet: a star, and its ratio unless it is a triplet. -/
def tuplet : Language Char :=
  oneOf ['*'] * opt (number 1 4294967295 * (oneOf [':'] * number 1 4294967295))

/-- The sign of a tie. -/
def tie : Language Char :=
  oneOf ['-']

/-- A velocity: its letter and a byte. -/
def velocity : Language Char :=
  oneOf ['a', 'd'] * byte

/-- A value and a chord; a rest has none. -/
def value : Language Char :=
  oneOf ['R'] + (named + pitch) * opt chord

/-- What follows the first tie. -/
def length : Language Char :=
  opt duration * (opt tuplet * opt tie)

/-- A note without velocities. -/
def head : Language Char :=
  value * (opt tie * length)

/-- A note. -/
def note : Language Char :=
  head * velocity∗

theorem singleton_mem_oneOf {x : Char} {chars : List Char} (h : x ∈ chars) : [x] ∈ oneOf chars :=
  ⟨x, h, rfl⟩

theorem cons_mem_oneOf_mul {x : Char} {chars t : List Char} {L : Language Char} (hx : x ∈ chars)
    (ht : t ∈ L) : x :: t ∈ oneOf chars * L :=
  Language.append_mem_mul (singleton_mem_oneOf hx) ht

/-! ### First characters -/

/-- The texts of a language that are not empty begin with one of the given characters. -/
def StartsIn (L : Language Char) (chars : List Char) : Prop :=
  ∀ t ∈ L, ∀ x, t.head? = some x → x ∈ chars

namespace StartsIn

variable {L M : Language Char} {w v : List Char}

theorem any_eq_false (h : StartsIn L w) {p : Char → Bool} (hp : w.all (! p ·) = true)
    {t : List Char} (ht : t ∈ L) : t.head?.any p = false := by
  cases hx : t.head? with
  | none => rfl
  | some x => simpa using List.all_eq_true.1 hp x (h t ht x hx)

theorem head?_ne (h : StartsIn L w) {x : Char} (hx : x ∉ w) {t : List Char} (ht : t ∈ L) :
    t.head? ≠ some x :=
  fun heq => hx (h t ht x heq)

theorem oneOf (w : List Char) : StartsIn (oneOf w) w := by
  rintro t ⟨x, hx, rfl⟩ y hy
  cases hy
  exact hx

theorem opt (h : StartsIn L w) : StartsIn (opt L) w := by
  rintro t (rfl | ht) x hx
  · cases hx
  · exact h t ht x hx

theorem add (hL : StartsIn L w) (hM : StartsIn M v) : StartsIn (L + M) (w ++ v) := by
  rintro t (ht | ht) x hx
  · exact List.mem_append_left _ (hL t ht x hx)
  · exact List.mem_append_right _ (hM t ht x hx)

theorem mul (hL : StartsIn L w) (hM : StartsIn M v) : StartsIn (L * M) (w ++ v) := by
  intro t ht x hx
  obtain ⟨a, ha, b, hb, rfl⟩ := Language.mem_mul.1 ht
  cases a with
  | nil => exact List.mem_append_right _ (hM b hb x hx)
  | cons y a => exact List.mem_append_left _ (hL _ ha x hx)

/-- What follows a part that is never empty does not begin the text. -/
theorem mul_of_ne_nil (hL : StartsIn L w) (hne : [] ∉ L) : StartsIn (L * M) w := by
  intro t ht x hx
  obtain ⟨a, ha, b, -, rfl⟩ := Language.mem_mul.1 ht
  cases a with
  | nil => exact absurd ha hne
  | cons y a => exact hL _ ha x hx

theorem kstar (h : StartsIn L w) : StartsIn L∗ w := by
  intro t ht x hx
  obtain ⟨parts, rfl, hparts⟩ := Language.mem_kstar_iff_exists_nonempty.1 ht
  cases parts with
  | nil => cases hx
  | cons first later =>
    obtain ⟨hfirst, hne⟩ := hparts first List.mem_cons_self
    refine h first hfirst x ?_
    rwa [List.flatten_cons, List.head?_append_of_ne_nil _ hne] at hx

end StartsIn

theorem nil_notMem_oneOf (w : List Char) : [] ∉ oneOf w := by
  rintro ⟨x, -, h⟩
  cases h

theorem nil_notMem_mul {L : Language Char} (h : [] ∉ L) (M : Language Char) : [] ∉ L * M := by
  rintro ⟨a, ha, b, -, hnil⟩
  exact h ((List.append_eq_nil_iff.1 hnil).1 ▸ ha)

theorem nil_notMem_tuplet : [] ∉ tuplet :=
  nil_notMem_mul (nil_notMem_oneOf _) _

theorem nil_notMem_duration : [] ∉ duration := by
  rintro (h | h)
  · exact nil_notMem_mul (nil_notMem_mul (nil_notMem_oneOf _) _) _ h
  · exact nil_notMem_mul (nil_notMem_oneOf _) _ h

theorem nil_mem_opt (L : Language Char) : [] ∈ opt L :=
  .inl rfl

theorem nil_mem_length : [] ∈ length :=
  Language.append_mem_mul (nil_mem_opt _)
    (Language.append_mem_mul (nil_mem_opt _) (nil_mem_opt _))

theorem startsIn_velocities : StartsIn velocity∗ ['a', 'd'] :=
  ((StartsIn.oneOf _).mul_of_ne_nil (nil_notMem_oneOf _)).kstar

theorem startsIn_tuplet : StartsIn tuplet ['*'] :=
  (StartsIn.oneOf _).mul_of_ne_nil (nil_notMem_oneOf _)

theorem startsIn_duration : StartsIn duration (letters ++ ['/']) := by
  refine StartsIn.add ?_ ((StartsIn.oneOf _).mul_of_ne_nil (nil_notMem_oneOf _))
  unfold dotted
  rw [mul_assoc]
  exact (StartsIn.oneOf _).mul_of_ne_nil (nil_notMem_oneOf _)

theorem startsIn_chord : StartsIn chord ['m', 'a', 'd', 's'] := by
  rintro t ⟨name, hname, inversions, rfl⟩ x hx
  have hfirst : ∀ name ∈ Chord.names,
      name.toList.head?.any ['m', 'a', 'd', 's'].contains = true := by decide
  obtain ⟨y, hhead, hy⟩ := (Option.any_eq_true _ _).1 (hfirst name hname)
  rw [List.head?_append, hhead] at hx
  cases hx
  exact List.contains_iff_mem.1 hy

theorem nil_notMem_named_add_pitch : [] ∉ named + pitch := by
  rintro (⟨name, -, -, h⟩ | h)
  · cases h
  · exact nil_notMem_mul (nil_notMem_oneOf _) _ h

theorem nil_notMem_value : [] ∉ value := by
  rintro (h | h)
  · exact nil_notMem_oneOf _ h
  · exact nil_notMem_mul nil_notMem_named_add_pitch _ h

theorem nil_notMem_head : [] ∉ head :=
  nil_notMem_mul nil_notMem_value _

/-- The characters that a note may begin with. -/
def noteStarts : List Char :=
  ['R', '[', 'A', 'B', 'C', 'D', 'E', 'F', 'G']

theorem startsIn_head : StartsIn head noteStarts := by
  have hnamed : StartsIn named ['['] := by
    rintro t ⟨name, -, -, rfl⟩ x hx
    cases hx
    exact List.mem_singleton_self _
  have hpitch : StartsIn pitch ['A', 'B', 'C', 'D', 'E', 'F', 'G'] :=
    (StartsIn.oneOf _).mul_of_ne_nil (nil_notMem_oneOf _)
  have hvalue : StartsIn value noteStarts :=
    (StartsIn.oneOf ['R']).add ((hnamed.add hpitch).mul_of_ne_nil nil_notMem_named_add_pitch)
  exact hvalue.mul_of_ne_nil nil_notMem_value

theorem startsIn_note : StartsIn note noteStarts :=
  startsIn_head.mul_of_ne_nil nil_notMem_head

/-! ### Runs of accidentals and of letters -/

theorem natAbs_net_le (run : List Char) : (net run).natAbs ≤ run.length := by
  have hlast : (run.reverse.takeWhile (· ≠ 'n')).length ≤ run.length :=
    (List.takeWhile_prefix _).length_le.trans_eq List.length_reverse
  have hsharps := (run.reverse.takeWhile (· ≠ 'n')).count_le_length (a := '#')
  have hflats := (run.reverse.takeWhile (· ≠ 'n')).count_le_length (a := 'b')
  simp only [net]
  omega

/-- A natural cancels the accidentals before it, and a sharp or a flat is one more. -/
theorem net_concat (run : List Char) (x : Char) :
    net (run ++ [x]) =
      match x with
      | '#' => net run + 1
      | 'b' => net run - 1
      | 'n' => 0
      | _ => net run := by
  simp only [net, List.reverse_append, List.reverse_singleton, List.singleton_append]
  split
  · simp
    omega
  · simp
    omega
  · simp
  · rename_i hsharp hflat hnatural
    have hkeep : decide (x ≠ 'n') = true := decide_eq_true hnatural
    rw [List.takeWhile_cons_of_pos (p := fun y => decide (y ≠ 'n')) hkeep,
      List.count_cons_of_ne hsharp, List.count_cons_of_ne hflat]

/-- The int after one more accidental counts it, if it is not at an end of its range. -/
theorem val_saturating {run : List Char} {total : Integer} (htotal : total.val = net run)
    (hrange : (net run).natAbs < 2147483647) (x : Char) :
    (Pitch.saturating total x).val = net (run ++ [x]) := by
  rw [net_concat, ← htotal]
  rw [← htotal] at hrange
  unfold Pitch.saturating
  split
  · exact Ranged.clamp_val _ (by omega)
  · exact Ranged.clamp_val _ (by omega)
  · exact Ranged.clamp_val _ (by omega)
  · simp [*]

/-- In a run that is shorter than the range of an int, every accidental is counted. -/
theorem val_saturatingTotal {run : List Char} (h : run.length < 2 ^ 31) :
    (Pitch.saturatingTotal run).val = net run := by
  induction run using List.reverseRecOn with
  | nil => rfl
  | append_singleton run x ih =>
    rw [List.length_append, List.length_singleton] at h
    have hle := natAbs_net_le run
    rw [Pitch.saturatingTotal, List.foldl_append]
    exact val_saturating (ih (by omega)) (by omega) x

theorem total_eq_accidentals (run : List Char) : total run = Pitch.accidentals run := by
  unfold total
  split
  case isTrue h => exact (val_saturatingTotal h).symm
  case isFalse => rfl

theorem mem_letters_iff {x : Char} : x ∈ letters ↔ Length.isLetter x = true := by
  constructor
  · have hall : letters.all Length.isLetter = true := by decide
    exact List.all_eq_true.1 hall x
  · intro h
    unfold Length.isLetter Length.ofLetter? at h
    split at h <;> first | decide | cases h

theorem cons_mem_kstar {L : Language Char} {t u : List Char} (ht : t ∈ L) (hu : u ∈ L∗) :
    t ++ u ∈ L∗ := by
  rw [← Language.one_add_self_mul_kstar_eq_kstar]
  exact .inr (Language.append_mem_mul ht hu)

theorem mem_dotted {t : List Char} : t ∈ dotted → ∀ y ∈ t, y ∈ letters ∨ y = '.' := by
  rintro ⟨-, ⟨x, hx, rfl⟩, dots, hdots, rfl⟩ y hy
  rcases List.mem_append.1 hy with hy | hy
  · exact .inl (List.mem_singleton.1 hy ▸ hx)
  · obtain ⟨parts, rfl, hparts⟩ := Language.mem_kstar.1 hdots
    obtain ⟨part, hpart, hy⟩ := List.mem_flatten.1 hy
    obtain ⟨z, hz, rfl⟩ := hparts part hpart
    exact .inr ((List.mem_singleton.1 hy).trans (List.mem_singleton.1 hz))

/-- Letters and dots are dots first, and then letters with dots. -/
theorem mem_dots_mul {u : List Char} (h : ∀ y ∈ u, y ∈ letters ∨ y = '.') :
    u ∈ (oneOf ['.'])∗ * dotted∗ := by
  induction u with
  | nil => exact Language.append_mem_mul (Language.nil_mem_kstar _) (Language.nil_mem_kstar _)
  | cons y u ih =>
    obtain ⟨hy, hu⟩ := List.forall_mem_cons.1 h
    obtain ⟨dots, hdots, groups, hgroups, rfl⟩ := Language.mem_mul.1 (ih hu)
    rcases hy with hy | rfl
    · have hgroup : y :: dots ∈ dotted := cons_mem_oneOf_mul hy hdots
      exact Language.append_mem_mul (Language.nil_mem_kstar _) (cons_mem_kstar hgroup hgroups)
    · have hdot : ['.'] ∈ oneOf ['.'] := singleton_mem_oneOf (List.mem_singleton_self _)
      exact Language.append_mem_mul (cons_mem_kstar hdot hdots) hgroups

theorem mem_dotted_run_iff {t : List Char} : t ∈ dotted * dotted∗ ↔
    t.head?.any Length.isLetter = true ∧ ∀ y ∈ t, y ∈ letters ∨ y = '.' := by
  constructor
  · rintro ⟨first, hfirst, later, hlater, rfl⟩
    refine ⟨?_, fun y hy => ?_⟩
    · obtain ⟨-, ⟨x, hx, rfl⟩, dots, -, rfl⟩ := hfirst
      exact mem_letters_iff.1 hx
    · rcases List.mem_append.1 hy with hy | hy
      · exact mem_dotted hfirst y hy
      · obtain ⟨parts, rfl, hparts⟩ := Language.mem_kstar.1 hlater
        obtain ⟨part, hpart, hy⟩ := List.mem_flatten.1 hy
        exact mem_dotted (hparts part hpart) y hy
  · rintro ⟨hhead, hall⟩
    cases t with
    | nil => cases hhead
    | cons x u =>
      obtain ⟨dots, hdots, groups, hgroups, rfl⟩ :=
        Language.mem_mul.1 (mem_dots_mul (List.forall_mem_cons.1 hall).2)
      have hgroup : x :: dots ∈ dotted := cons_mem_oneOf_mul (mem_letters_iff.2 hhead) hdots
      exact Language.append_mem_mul hgroup hgroups

/-! ### Where a chord is missing -/

/-- The two characters that the name of a chord begins with. -/
def chordStarts : List (List Char) :=
  Chord.names.map (·.toList.take 2)

/-- No name of a chord begins the text. -/
def NoChord (text : List Char) : Prop :=
  ∀ name ∈ Chord.names, ¬ name.toList <+: text

theorem noChord_nil : NoChord [] := by
  intro name hname hpre
  have hne : ∀ name ∈ Chord.names, name.toList ≠ [] := by decide
  exact hne name hname (List.prefix_nil.1 hpre)

theorem noChord_cons {x : Char} {more : List Char}
    (h : ∀ y, more.head? = some y → [x, y] ∉ chordStarts) : NoChord (x :: more) := by
  rintro name hname ⟨after, hafter⟩
  have hlength : ∀ name ∈ Chord.names, 2 ≤ name.toList.length := by decide
  have htake : (x :: more).take 2 = name.toList.take 2 := by
    rw [← hafter, List.take_append_of_le_length (hlength name hname)]
  have hstart : (x :: more).take 2 ∈ chordStarts := htake ▸ List.mem_map.2 ⟨name, hname, rfl⟩
  cases more with
  | nil =>
    have hpairs : ∀ pair ∈ chordStarts, pair.length = 2 := by decide
    cases hpairs _ hstart
  | cons y more => exact h y rfl hstart

/-- A chord begins with one of few letters. -/
theorem noChord_of_notMem {x : Char} (h : x ∉ ['m', 'a', 'd', 's']) (more : List Char) :
    NoChord (x :: more) := by
  have hpairs : ∀ pair ∈ chordStarts, pair.head?.all ['m', 'a', 'd', 's'].contains = true := by
    decide
  exact noChord_cons fun y _ hmem => h (List.contains_iff_mem.1 (hpairs _ hmem))

/-- The text begins like a number or a reference. -/
def StartsField (t : List Char) : Prop :=
  ∃ x, t.head? = some x ∧ (x = '[' ∨ x = '-' ∨ x.isDigit = true)

theorem startsField_of_digits {ds : List Char} (hds : IsDigits ds) (hne : ds ≠ [])
    (rest : List Char) : StartsField (ds ++ rest) := by
  obtain ⟨x, hx, hdigit⟩ := (Option.any_eq_true _ _).1 (head?_any_isDigit hds hne rest)
  exact ⟨x, hx, .inr (.inr hdigit)⟩

theorem startsField_bracketed (name rest : List Char) : StartsField (bracketed name ++ rest) :=
  ⟨'[', rfl, .inl rfl⟩

theorem startsField_byte {t : List Char} (h : t ∈ byte) (rest : List Char) :
    StartsField (t ++ rest) := by
  rcases h with ⟨hne, hdigits, -⟩ | ⟨name, -, rfl⟩
  · exact startsField_of_digits hdigits hne rest
  · exact startsField_bracketed name rest

/--
What may follow the head of a note: nothing, a velocity, of which the letter is enough, or another
note that is joined to it.
-/
def afterHead : Language Char :=
  {t | (∀ x, t.head? = some x → x ∈ ['a', 'd', '+', '_']) ∧ NoChord t}

theorem startsIn_afterHead : StartsIn afterHead ['a', 'd', '+', '_'] :=
  fun _ ht => ht.1

theorem cons_mem_afterHead_of_velocity {x : Char} (hx : x ∈ ['a', 'd']) {t : List Char}
    (ht : StartsField t) : x :: t ∈ afterHead := by
  -- After the letter comes no second letter of a chord.
  have hsecond : ∀ pair ∈ chordStarts,
      pair[1]?.all (fun y => y ≠ '[' ∧ y ≠ '-' ∧ y.isDigit = false) = true := by decide
  refine ⟨fun y hy => ?_, noChord_cons fun y hy hmem => ?_⟩
  · cases hy
    exact List.mem_append_left ['+', '_'] hx
  · obtain ⟨hbracket, hminus, hdigit⟩ := of_decide_eq_true (hsecond _ hmem)
    obtain ⟨z, hz, hstart⟩ := ht
    cases hz.symm.trans hy
    rcases hstart with rfl | rfl | hdigit'
    · exact hbracket rfl
    · exact hminus rfl
    · exact absurd hdigit' (by simp [hdigit])

/-- What may follow a note: nothing, or another note that is joined to it. -/
def afterNote : Language Char :=
  {t | ∀ x, t.head? = some x → x ∈ ['+', '_']}

theorem startsIn_afterNote : StartsIn afterNote ['+', '_'] :=
  fun _ ht => ht

theorem nil_mem_afterNote : [] ∈ afterNote :=
  fun _ hx => by cases hx

theorem cons_mem_afterNote {x : Char} (hx : x ∈ ['+', '_']) (t : List Char) :
    x :: t ∈ afterNote := by
  intro y hy
  cases hy
  exact hx

theorem mem_afterHead_of_afterNote {t : List Char} (h : t ∈ afterNote) : t ∈ afterHead := by
  refine ⟨fun x hx => List.mem_append_right ['a', 'd'] (h x hx), ?_⟩
  cases t with
  | nil => exact noChord_nil
  | cons x t =>
    refine noChord_of_notMem ?_ t
    rcases List.mem_pair.1 (h x rfl) with rfl | rfl <;> decide

theorem append_mem_afterHead {t rest : List Char} (h : t ∈ velocity∗) (hrest : rest ∈ afterHead) :
    t ++ rest ∈ afterHead := by
  rw [← Language.one_add_self_mul_kstar_eq_kstar] at h
  rcases h with rfl | ⟨first, ⟨-, ⟨x, hx, rfl⟩, field, hfield, rfl⟩, later, -, rfl⟩
  · exact hrest
  · refine cons_mem_afterHead_of_velocity hx ?_
    show StartsField (field ++ later ++ rest)
    rw [List.append_assoc]
    exact startsField_byte hfield _

theorem startsIn_afterTuplet : StartsIn (opt tie * afterHead) ['-', 'a', 'd', '+', '_'] :=
  (StartsIn.oneOf _).opt.mul startsIn_afterHead

theorem startsIn_afterDuration :
    StartsIn (opt tuplet * (opt tie * afterHead)) ['*', '-', 'a', 'd', '+', '_'] :=
  startsIn_tuplet.opt.mul startsIn_afterTuplet

theorem startsIn_afterTie :
    StartsIn (length * afterHead) (letters ++ ['/'] ++ ['*', '-', 'a', 'd', '+', '_']) := by
  rw [length, mul_assoc, mul_assoc]
  exact startsIn_duration.opt.mul startsIn_afterDuration

theorem startsIn_afterChord : StartsIn (opt tie * length * afterHead)
    ('-' :: (letters ++ ['/'] ++ ['*', '-', 'a', 'd', '+', '_'])) := by
  rw [mul_assoc]
  exact (StartsIn.oneOf ['-']).opt.mul startsIn_afterTie

theorem noChord_afterDuration {text : List Char}
    (h : text ∈ opt tuplet * (opt tie * afterHead)) : NoChord text := by
  obtain ⟨first, hfirst, later, ⟨second, hsecond, last, hlast, rfl⟩, rfl⟩ := h
  rcases hfirst with rfl | hfirst
  · rcases hsecond with rfl | ⟨x, hx, rfl⟩
    · exact hlast.2
    · rw [List.mem_singleton.1 hx]
      exact noChord_of_notMem (by decide) _
  · obtain ⟨-, ⟨x, hx, rfl⟩, ratio, -, rfl⟩ := hfirst
    rw [List.mem_singleton.1 hx]
    exact noChord_of_notMem (by decide) _

/-- What follows a chord that is missing does not look like one. -/
theorem noChord_afterChord {text : List Char} (h : text ∈ opt tie * length * afterHead) :
    NoChord text := by
  rw [length, mul_assoc, mul_assoc, mul_assoc] at h
  obtain ⟨first, hfirst, -, ⟨dur, hdur, later, hlater, rfl⟩, rfl⟩ := h
  rcases hfirst with rfl | ⟨x, hx, rfl⟩
  · rcases hdur with rfl | hdur | ⟨-, ⟨x, hx, rfl⟩, number, -, rfl⟩
    · exact noChord_afterDuration hlater
    · -- The letter of a sixteenth begins two chords, but no length goes on like them.
      obtain ⟨hhead, hall⟩ := mem_dotted_run_iff.1 hdur
      have hpairs : (letters.all fun x => (letters ++ ['.', '*', '-', 'a', 'd', '+', '_']).all
          fun y => [x, y] ∉ chordStarts) = true := by decide
      cases dur with
      | nil => cases hhead
      | cons x dur =>
        refine noChord_cons fun y hy => of_decide_eq_true
          (List.all_eq_true.1 (List.all_eq_true.1 hpairs x (mem_letters_iff.2 hhead)) y ?_)
        cases dur with
        | nil => exact List.mem_append_right _ (.tail _ (startsIn_afterDuration later hlater y hy))
        | cons z dur =>
          cases hy
          rcases hall y (.tail _ (.head _)) with hy | rfl
          · exact List.mem_append_left _ hy
          · exact List.mem_append_right _ (.head _)
    · rw [List.mem_singleton.1 hx]
      exact noChord_of_notMem (by decide) _
  · rw [List.mem_singleton.1 hx]
    exact noChord_of_notMem (by decide) _

/-- A longer name of a chord would go on with a character that does not follow a chord. -/
theorem length_le_of_prefix_chord {name longer : String} (hname : name ∈ Chord.names)
    (hlonger : longer ∈ Chord.names) {after : List Char}
    (hafter : ∀ x, after.head? = some x → x ∉ "0123456789<>m".toList)
    (hpre : longer.toList <+: name.toList ++ after) : longer.length ≤ name.length := by
  have hnext : ∀ name ∈ Chord.names, ∀ longer ∈ Chord.names, name.toList <+: longer.toList →
      (longer.toList.drop name.toList.length).head?.all "0123456789<>m".toList.contains = true := by
    decide
  refine Nat.le_of_not_lt fun hlt => ?_
  rw [← String.length_toList, ← String.length_toList] at hlt
  obtain ⟨more, hmore⟩ :=
    List.prefix_of_prefix_length_le (List.prefix_append _ _) hpre (Nat.le_of_lt hlt)
  rw [← hmore] at hpre
  obtain ⟨rest, hrest⟩ := (List.prefix_append_right_inj _).1 hpre
  cases more with
  | nil => simp [← hmore] at hlt
  | cons x more =>
    have hx := hnext name hname longer hlonger ⟨_, hmore⟩
    rw [← hmore, List.drop_left] at hx
    exact hafter x (by rw [← hrest]; rfl) (List.contains_iff_mem.1 hx)

/-! ### The two ties -/

/-- A tie that nothing follows can be read as the first one. -/
theorem mem_tie_length {t : List Char} (h : t ∈ opt tie * length) :
    t ∈ tie * length ∨ (t ∈ length ∧ t.head? ≠ some '-') := by
  obtain ⟨first, rfl | hfirst, later, hlater, rfl⟩ := h
  · by_cases hhead : later.head? = some '-'
    · obtain ⟨dur, hdur, more, hmore, rfl⟩ := Language.mem_mul.1 hlater
      rcases hdur with rfl | hdur
      · obtain ⟨ratio, hratio, last, hlast, rfl⟩ := Language.mem_mul.1 hmore
        rcases hratio with rfl | hratio
        · rcases hlast with rfl | hlast
          · cases hhead
          · exact .inl ⟨last, hlast, [], nil_mem_length, List.append_nil _⟩
        · have hstar : StartsIn (tuplet * opt tie) ['*'] :=
            startsIn_tuplet.mul_of_ne_nil nil_notMem_tuplet
          exact absurd hhead (hstar.head?_ne (by decide) ⟨ratio, hratio, last, hlast, rfl⟩)
      · have hletter : StartsIn (duration * (opt tuplet * opt tie)) (letters ++ ['/']) :=
          startsIn_duration.mul_of_ne_nil nil_notMem_duration
        exact absurd hhead (hletter.head?_ne (by decide) ⟨dur, hdur, more, hmore, rfl⟩)
    · exact .inr ⟨hlater, hhead⟩
  · exact .inl ⟨first, hfirst, later, hlater, rfl⟩

end MusicString.Grammar.NoteText

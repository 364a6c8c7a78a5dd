import Mathlib
import MusicString.Chord
import MusicString.Proofs.Event.WellFormed

/-!
# Inversions of chords

An inversion raises the lowest tone of a chord by an octave.  As long as the tones that have been
raised stay above those that have not, `k` inversions raise the `k` lowest tones, each of them once.
A tone that was raised may become the lowest again, though: then it is raised a second time in the
place of a tone that is left where it was.  This happens exactly if the `k` lowest tones of the
chord do not lie within an octave.

* `ChordSpec.raiseLowest_perm`: one inversion, whatever the order of the tones;
* `ChordSpec.raised`: the tones after the lowest ones were raised once each;
* `ChordSpec.invert_eq_ascending_raised_iff`: where inversions come to that;
* `ChordSpec.raisesOnce_notes_iff`: the notes of a chord that is evaluated.
-/

namespace MusicString.ChordSpec

open List

variable {tones rest : List Nat} {m lowest k : Nat}

/-! ### Tones in order -/

theorem ascending_perm (tones : List Nat) : (ascending tones).Perm tones :=
  mergeSort_perm tones _

/-- The order of tones can be told from the tones. -/
theorem eq_ascending_of_perm {other : List Nat} (hperm : other.Perm tones)
    (hother : other.Pairwise (· ≤ ·)) : other = ascending tones :=
  (hperm.trans (ascending_perm tones).symm).eq_of_pairwise
    (fun _ _ _ _ => Nat.le_antisymm) hother (pairwise_ascending tones)

theorem ascending_eq_iff {other : List Nat} :
    ascending tones = ascending other ↔ tones.Perm other := by
  constructor
  · intro h
    exact (ascending_perm tones).symm.trans (h ▸ ascending_perm other)
  · intro h
    exact eq_ascending_of_perm ((ascending_perm tones).trans h) (pairwise_ascending tones)

theorem ascending_map_add (root : Nat) (intervals : List Nat) :
    ascending (intervals.map (root + ·)) = (ascending intervals).map (root + ·) := by
  refine (eq_ascending_of_perm ((ascending_perm intervals).map _) ?_).symm
  rw [pairwise_map]
  exact (pairwise_ascending intervals).imp fun h => Nat.add_le_add_left h root

/-! ### One inversion -/

/-- One inversion raises a lowest tone, and leaves the others. -/
theorem raiseLowest_perm (htones : tones.Perm (lowest :: rest)) (h : ∀ x ∈ rest, lowest ≤ x) :
    (raiseLowest tones).Perm ((lowest + 12) :: rest) := by
  have hsorted : lowest :: ascending rest = ascending tones := by
    refine eq_ascending_of_perm (((ascending_perm rest).cons lowest).trans htones.symm) ?_
    refine pairwise_cons.2 ⟨fun x hx => h x ((ascending_perm rest).mem_iff.1 hx), ?_⟩
    exact pairwise_ascending rest
  rw [raiseLowest, ← hsorted]
  exact (ascending_perm rest).cons _

/-- Of some tones there is a lowest one, which an inversion raises. -/
theorem exists_raiseLowest (hne : tones ≠ []) :
    ∃ lowest rest, tones.Perm (lowest :: rest) ∧ (∀ x ∈ rest, lowest ≤ x) ∧
      (raiseLowest tones).Perm ((lowest + 12) :: rest) := by
  cases hsorted : ascending tones with
  | nil => exact absurd (hsorted ▸ (ascending_perm tones).symm).eq_nil hne
  | cons lowest rest =>
    have htones : tones.Perm (lowest :: rest) := hsorted ▸ (ascending_perm tones).symm
    have hle := (pairwise_cons.1 (hsorted ▸ pairwise_ascending tones)).1
    exact ⟨lowest, rest, htones, hle, raiseLowest_perm htones hle⟩

/-- Inversions do not depend on the order of the tones. -/
theorem repeat_raiseLowest_congr {other : List Nat} (h : tones.Perm other) (k : Nat) :
    (Nat.repeat raiseLowest k tones).Perm (Nat.repeat raiseLowest k other) := by
  induction k with
  | zero => exact h
  | succ k ih =>
    show (raiseLowest _).Perm (raiseLowest _)
    rw [raiseLowest, ascending_eq_iff.2 ih, ← raiseLowest]

/-! ### Raising each tone once -/

/-- The tones after the `k` lowest of them, which come first, were raised by an octave. -/
def raised (k : Nat) (tones : List Nat) : List Nat :=
  tones.drop k ++ (tones.take k).map (· + 12)

theorem raised_map_add (k root : Nat) (intervals : List Nat) :
    raised k (intervals.map (root + ·)) = (raised k intervals).map (root + ·) := by
  simp [raised, Function.comp_def, Nat.add_assoc]

/-- Tones of which none is more than an octave above another. -/
def WithinOctave (tones : List Nat) : Prop :=
  ∀ x ∈ tones, ∀ y ∈ tones, x ≤ y + 12

instance (tones : List Nat) : Decidable (WithinOctave tones) :=
  inferInstanceAs (Decidable (∀ x ∈ tones, ∀ y ∈ tones, x ≤ y + 12))

theorem withinOctave_map_add {root : Nat} {intervals : List Nat} :
    WithinOctave (intervals.map (root + ·)) ↔ WithinOctave intervals := by
  simp [WithinOctave, Nat.add_assoc]

/-- Tones within an octave are raised one after the other, up to those that are left. -/
theorem repeat_raiseLowest_perm {low high : List Nat} (hsorted : (low ++ high).Pairwise (· ≤ ·))
    (hnear : WithinOctave low) :
    (Nat.repeat raiseLowest low.length (low ++ high)).Perm (high ++ low.map (· + 12)) := by
  -- The last tone to be raised is the highest of the low ones; before that, it was left.
  induction low using reverseRecOn generalizing high with
  | nil => simp [Nat.repeat]
  | append_singleton low x ih =>
    rw [append_assoc, singleton_append] at hsorted
    have hbefore := ih hsorted fun y hy z hz =>
      hnear y (mem_append_left _ hy) z (mem_append_left _ hz)
    have hx := (pairwise_cons.1 (pairwise_append.1 hsorted).2.1).1
    have hlowest : ∀ y ∈ high ++ low.map (· + 12), x ≤ y := by
      intro y hy
      rcases mem_append.1 hy with hy | hy
      · exact hx y hy
      · obtain ⟨z, hz, rfl⟩ := mem_map.1 hy
        exact hnear x (by simp) z (mem_append_left _ hz)
    have hraise := raiseLowest_perm hbefore hlowest
    rw [length_append, length_singleton, append_assoc, singleton_append, map_append]
    refine hraise.trans ?_
    rw [← append_assoc]
    exact (perm_append_singleton _ _).symm

/-! ### Raising a tone again -/

/-- Where no tone is below `m`, each inversion raises one of the tones that are at `m`. -/
theorem count_raiseLowest (h : ∀ x ∈ tones, m ≤ x) :
    (∀ x ∈ raiseLowest tones, m ≤ x) ∧ (raiseLowest tones).count m = tones.count m - 1 := by
  by_cases hne : tones = []
  · subst hne
    simp [raiseLowest, ascending]
  · obtain ⟨lowest, rest, htones, hle, hraise⟩ := exists_raiseLowest hne
    have hm : m ≤ lowest := h lowest (htones.mem_iff.2 mem_cons_self)
    constructor
    · intro x hx
      rcases mem_cons.1 (hraise.mem_iff.1 hx) with rfl | hx
      · omega
      · exact Nat.le_trans hm (hle x hx)
    · rw [hraise.count_eq, htones.count_eq, count_cons_of_ne (by omega)]
      by_cases hlowest : lowest = m
      · simp [hlowest]
      · have hrest : rest.count m = 0 := count_eq_zero.2 fun hmem => by
          have := hle m hmem
          omega
        rw [count_cons_of_ne hlowest, hrest]

theorem count_repeat_raiseLowest (h : ∀ x ∈ tones, m ≤ x) (k : Nat) :
    (∀ x ∈ Nat.repeat raiseLowest k tones, m ≤ x) ∧
      (Nat.repeat raiseLowest k tones).count m = tones.count m - k := by
  induction k with
  | zero => exact ⟨h, rfl⟩
  | succ k ih =>
    obtain ⟨hle, hcount⟩ := count_raiseLowest ih.1
    exact ⟨hle, by rw [Nat.repeat, hcount, ih.2, Nat.sub_sub]⟩

theorem repeat_add {α : Type} (f : α → α) (i j : Nat) (a : α) :
    Nat.repeat f (i + j) a = Nat.repeat f j (Nat.repeat f i a) := by
  induction j with
  | zero => rfl
  | succ j ih => rw [← Nat.add_assoc, Nat.repeat, ih, Nat.repeat]

/-- Tones in order fall into those up to a bound and those beyond it. -/
theorem exists_append_of_pairwise (hsorted : tones.Pairwise (· ≤ ·)) (bound : Nat) :
    ∃ low high, tones = low ++ high ∧ (∀ x ∈ low, x ≤ bound) ∧ ∀ x ∈ high, bound < x := by
  induction tones with
  | nil => exact ⟨[], [], rfl, by simp, by simp⟩
  | cons first later ih =>
    obtain ⟨hfirst, hlater⟩ := pairwise_cons.1 hsorted
    by_cases hle : first ≤ bound
    · obtain ⟨low, high, rfl, hlow, hhigh⟩ := ih hlater
      exact ⟨first :: low, high, rfl, forall_mem_cons.2 ⟨hle, hlow⟩, hhigh⟩
    · refine ⟨[], first :: later, rfl, by simp, forall_mem_cons.2 ⟨by omega, fun x hx => ?_⟩⟩
      have := hfirst x hx
      omega

/-- If the `k` lowest tones do not lie within an octave, the lowest of them is raised again. -/
theorem not_perm_raised (hsorted : tones.Pairwise (· ≤ ·)) {x y : Nat} (hx : x ∈ tones.take k)
    (hy : y ∈ tones.take k) (hxy : y + 12 < x) :
    ¬ (Nat.repeat raiseLowest k tones).Perm (raised k tones) := by
  obtain ⟨first, later, hcons⟩ := exists_cons_of_ne_nil (ne_nil_of_mem (mem_of_mem_take hy))
  have hfirst : ∀ z ∈ tones, first ≤ z := by
    rw [hcons] at hsorted ⊢
    exact forall_mem_cons.2 ⟨Nat.le_refl first, (pairwise_cons.1 hsorted).1⟩
  obtain ⟨low, high, rfl, hlow, hhigh⟩ := exists_append_of_pairwise hsorted (first + 12)
  have hmem : first ∈ low := by
    rcases mem_append.1 (hcons ▸ mem_cons_self : first ∈ low ++ high) with h | h
    · exact h
    · have := hhigh first h
      omega
  -- Not all of the `k` lowest tones are low, so after the low ones more are to be raised.
  have hlt : low.length < k := by
    by_contra hle
    rw [take_append_of_le_length (by omega)] at hx
    have := hlow x (mem_of_mem_take hx)
    have := hfirst y (mem_of_mem_take hy)
    omega
  obtain ⟨i, rfl⟩ : ∃ i, k = low.length + (i + 1) := ⟨k - low.length - 1, by omega⟩
  have hnear : WithinOctave low := fun x hx y hy => by
    have := hlow x hx
    have := hfirst y (mem_append_left _ hy)
    omega
  have hmiddle := repeat_raiseLowest_perm hsorted hnear
  have hle : ∀ z ∈ Nat.repeat raiseLowest low.length (low ++ high), first + 12 ≤ z := by
    intro z hz
    rcases mem_append.1 (hmiddle.mem_iff.1 hz) with hz | hz
    · exact Nat.le_of_lt (hhigh z hz)
    · obtain ⟨w, hw, rfl⟩ := mem_map.1 hz
      exact Nat.add_le_add_right (hfirst w (mem_append_left _ hw)) 12
  -- By then the lowest tones are those that were lowest at first, and they are raised again.
  have hcount := (count_repeat_raiseLowest hle (i + 1)).2
  have hnone : high.count (first + 12) = 0 := count_eq_zero.2 fun h =>
    Nat.lt_irrefl _ (hhigh _ h)
  rw [hmiddle.count_eq, count_append, hnone, Nat.zero_add, ← repeat_add] at hcount
  have hpos : 0 < (low.map (· + 12)).count (first + 12) :=
    count_pos_iff.2 (mem_map_of_mem hmem)
  intro hperm
  rw [hperm.count_eq, raised, take_length_add_append, map_append, count_append, count_append]
    at hcount
  omega

theorem invert_eq_ascending_raised_iff (hk : k ≤ tones.length) :
    invert k tones = ascending (raised k (ascending tones)) ↔
      WithinOctave ((ascending tones).take k) := by
  have hinvert : invert k tones = ascending (Nat.repeat raiseLowest k (ascending tones)) :=
    ascending_eq_iff.2 (repeat_raiseLowest_congr (ascending_perm tones).symm k)
  have hsorted := pairwise_ascending tones
  rw [hinvert, ascending_eq_iff]
  constructor
  · intro hperm x hx y hy
    by_contra hxy
    exact not_perm_raised hsorted hx hy (by omega) hperm
  · intro hnear
    have hlength : ((ascending tones).take k).length = k := by
      rw [length_take, (ascending_perm tones).length_eq, Nat.min_eq_left hk]
    rw [← take_append_drop k (ascending tones)] at hsorted
    have hraise := repeat_raiseLowest_perm hsorted hnear
    rwa [take_append_drop, hlength] at hraise

/-! ### Chords -/

/-- The chords of the table with so many inversions that some tone is raised again. -/
def raisedAgain : List (String × Nat) :=
  [("min11", 4), ("min11", 5), ("dom11", 4), ("dom13", 5), ("min13", 5), ("maj13", 5)]

theorem withinOctave_take_iff_of_mem_table : ∀ chord ∈ Chord.table, ∀ k < chord.2.length,
    WithinOctave (chord.2.take k) ↔ (chord.1, k) ∉ raisedAgain := by
  decide

theorem ascending_of_mem_table {chord : String × List Nat} (h : chord ∈ Chord.table) :
    ascending chord.2 = chord.2 := by
  have hsorted : ∀ chord ∈ Chord.table, chord.2.Pairwise (· ≤ ·) := by decide
  exact (eq_ascending_of_perm (Perm.refl _) (hsorted chord h)).symm

/-- The notes are the `k` lowest tones of the chord an octave higher, and the others as they were. -/
def RaisesOnce (root k : Nat) (intervals notes : List Nat) : Prop :=
  notes = ascending ((raised k (ascending intervals)).map (root + ·))

theorem raisesOnce_invert_iff {root : Nat} {intervals : List Nat} (hk : k ≤ intervals.length) :
    RaisesOnce root k intervals (invert k (intervals.map (root + ·))) ↔
      WithinOctave ((ascending intervals).take k) := by
  rw [RaisesOnce, ← raised_map_add, ← ascending_map_add,
    invert_eq_ascending_raised_iff (by rwa [length_map]), ascending_map_add, ← map_take,
    withinOctave_map_add]

/--
**Inversions of a chord.**  If a chord is evaluated, it has fewer inversions than tones, and each of
them raises another tone exactly if the tones to be raised lie within an octave.  In the table they
do, but for six inversions of the eleventh and thirteenth chords.
-/
theorem raisesOnce_notes_iff {c : ChordSpec} {root : Byte} {d : Dictionary} {event : ChordEvent}
    (h : c.evaluate root d = .ok event) :
    let intervals := event.intervals.map (·.toNat)
    let notes := event.notes.map (·.toNat)
    let k := c.inversion.toNat
    c.intervals.mapM (·.eval d) = .ok event.intervals ∧ k < intervals.length ∧
      (RaisesOnce root.toNat k intervals notes ↔ WithinOctave ((ascending intervals).take k)) ∧
      ∀ chord ∈ Chord.table, intervals = chord.2 →
        (RaisesOnce root.toNat k intervals notes ↔ (chord.1, k) ∉ raisedAgain) := by
  intro intervals notes k
  obtain ⟨values, hvalues, h⟩ := Evaluation.bind_eq_ok h
  dsimp only at h
  split at h
  · cases h
  · next hinversion =>
    obtain ⟨checked, hchecked, h⟩ := Evaluation.bind_eq_ok h
    cases h
    have hnotes : notes = invert k (intervals.map (root.toNat + ·)) := by
      rw [map_map]
      exact toNat_of_mapM_checkNote hchecked
    have hk : k < intervals.length := by simpa [intervals] using hinversion
    have hiff : RaisesOnce root.toNat k intervals notes ↔
        WithinOctave ((ascending intervals).take k) := by
      rw [hnotes]
      exact raisesOnce_invert_iff (Nat.le_of_lt hk)
    refine ⟨hvalues, hk, hiff, fun chord hmem hchord => ?_⟩
    rw [hiff, hchord, ascending_of_mem_table hmem]
    exact withinOctave_take_iff_of_mem_table chord hmem k (hchord ▸ hk)

/-- A ninth chord with all of its tones but the highest raised. -/
def ninth : ChordSpec where
  name := "dom9"
  intervals := [0, 4, 7, 10, 14].map fun interval => .literal (.nearest interval)
  inversion := .nearest 4

theorem raisesOnce_notes_ninth :
    ∃ event, ninth.evaluate (.nearest 36) .empty = .ok event ∧
      event.notes.map (·.toNat) = [48, 50, 52, 55, 58] ∧
      ("dom9", [0, 4, 7, 10, 14]) ∈ Chord.table ∧
      RaisesOnce 36 4 [0, 4, 7, 10, 14] (event.notes.map (·.toNat)) := by
  have h : ninth.evaluate (.nearest 36) .empty = .ok
      { name := "dom9", intervals := [0, 4, 7, 10, 14].map .nearest, inversion := .nearest 4,
        notes := [48, 50, 52, 55, 58].map .nearest } := by cbv
  have hmem : ("dom9", [0, 4, 7, 10, 14]) ∈ Chord.table := by decide
  have hone : ("dom9", 4) ∉ raisedAgain := by decide
  exact ⟨_, h, rfl, hmem, ((raisesOnce_notes_iff h).2.2.2 _ hmem rfl).2 hone⟩

/-- An eleventh chord with four inversions. -/
def eleventh : ChordSpec where
  name := "min11"
  intervals := [0, 7, 10, 14, 15, 17].map fun interval => .literal (.nearest interval)
  inversion := .nearest 4

/-- The root of an eleventh chord is raised by two octaves, in the place of its fourth tone. -/
theorem eleventh_raises_root_again :
    ∃ event, eleventh.evaluate (.nearest 36) .empty = .ok event ∧
      event.notes.map (·.toNat) = [50, 51, 53, 55, 58, 60] ∧
      ¬ RaisesOnce 36 4 [0, 7, 10, 14, 15, 17] (event.notes.map (·.toNat)) := by
  have h : eleventh.evaluate (.nearest 36) .empty = .ok
      { name := "min11", intervals := [0, 7, 10, 14, 15, 17].map .nearest, inversion := .nearest 4,
        notes := [50, 51, 53, 55, 58, 60].map .nearest } := by cbv
  have hclosed : ascending ((raised 4 (ascending [0, 7, 10, 14, 15, 17])).map (36 + ·)) =
      [48, 51, 53, 55, 58, 62] := by cbv
  refine ⟨_, h, rfl, ?_⟩
  rw [RaisesOnce, hclosed]
  decide

end MusicString.ChordSpec

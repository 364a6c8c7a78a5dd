import MusicString.Proofs.Element.Inversion

/-!
# What inversions keep of a chord

Raising a lowest tone by an octave, again and again, is a relation between multisets of tones: which
of several lowest tones is raised makes no difference.  Each time one more octave is added to the
sum of the tones, and their number and their pitch classes stay.  Evaluating a chord comes down to
this relation, and fails only if there are too many inversions or if a tone gets too high.

* `ChordSpec.Raises`, `ChordSpec.RaisesTimes`: one inversion and several;
* `ChordSpec.Conserves`: what they keep, for one step and for a run;
* `ChordSpec.evaluate_cases`: all that evaluating a chord can do;
* `ChordSpec.conserves_or_outOfRange`: chords are kept, or refused for one of two reasons.
-/

namespace MusicString

namespace ChordSpec

open Evaluation

variable {tones notes : Multiset Nat} {k : Nat}

/-! ### Raising a lowest tone -/

/-- One of the lowest tones is raised by an octave, and the others stay. -/
def Raises (tones raised : Multiset Nat) : Prop :=
  ∃ lowest ∈ tones, (∀ tone ∈ tones, lowest ≤ tone) ∧
    raised = (lowest + 12) ::ₘ tones.erase lowest

/-- A lowest tone is raised a number of times. -/
inductive RaisesTimes (tones : Multiset Nat) : Nat → Multiset Nat → Prop
  | start : RaisesTimes tones 0 tones
  | next {k : Nat} {before after : Multiset Nat} :
    RaisesTimes tones k before → Raises before after → RaisesTimes tones (k + 1) after

/-- The lowest tones of a chord are all the same tone. -/
theorem Raises.unique {other : Multiset Nat} (h : Raises tones notes) (hother : Raises tones other) :
    notes = other := by
  obtain ⟨lowest, hmem, hle, rfl⟩ := h
  obtain ⟨lowest', hmem', hle', rfl⟩ := hother
  have heq : lowest = lowest' := Nat.le_antisymm (hle lowest' hmem') (hle' lowest hmem)
  rw [heq]

theorem RaisesTimes.unique {other : Multiset Nat} (h : RaisesTimes tones k notes)
    (hother : RaisesTimes tones k other) : notes = other := by
  induction h generalizing other with
  | start =>
    cases hother
    rfl
  | next _ hraise ih =>
    cases hother with
    | next hbefore hraise' =>
      obtain rfl := ih hbefore
      exact hraise.unique hraise'

/-! ### What is kept -/

/-- As many tones, of the same pitch classes, and `k` octaves more in all. -/
structure Conserves (k : Nat) (tones notes : Multiset Nat) : Prop where
  card_eq : notes.card = tones.card
  sum_eq : notes.sum = tones.sum + 12 * k
  classes_eq : notes.map (· % 12) = tones.map (· % 12)
  le_add : ∀ most, (∀ tone ∈ tones, tone ≤ most) → ∀ note ∈ notes, note ≤ most + 12 * k

theorem Conserves.refl (tones : Multiset Nat) : Conserves 0 tones tones :=
  ⟨rfl, rfl, rfl, fun _ h => h⟩

theorem Conserves.trans {j : Nat} {later : Multiset Nat} (h : Conserves k tones notes)
    (hlater : Conserves j notes later) : Conserves (k + j) tones later where
  card_eq := hlater.card_eq.trans h.card_eq
  sum_eq := by rw [hlater.sum_eq, h.sum_eq, Nat.mul_add, Nat.add_assoc]
  classes_eq := hlater.classes_eq.trans h.classes_eq
  le_add most hmost note hnote := by
    rw [Nat.mul_add, ← Nat.add_assoc]
    exact hlater.le_add _ (h.le_add most hmost) note hnote

theorem Raises.conserves (h : Raises tones notes) : Conserves 1 tones notes := by
  obtain ⟨lowest, hmem, -, rfl⟩ := h
  obtain ⟨others, rfl⟩ := Multiset.exists_cons_of_mem hmem
  rw [Multiset.erase_cons_head]
  refine ⟨?_, ?_, ?_, fun most hmost note hnote => ?_⟩
  · simp
  · simp only [Multiset.sum_cons]
    omega
  · simp
  · rcases Multiset.mem_cons.1 hnote with rfl | hnote
    · have := hmost lowest (Multiset.mem_cons_self _ _)
      omega
    · have := hmost note (Multiset.mem_cons_of_mem hnote)
      omega

theorem RaisesTimes.conserves (h : RaisesTimes tones k notes) : Conserves k tones notes := by
  induction h with
  | start => exact .refl tones
  | next _ hraise ih => exact ih.trans hraise.conserves

/-! ### The loop of inversions -/

theorem raises_raiseLowest {tones : List Nat} (hne : tones ≠ []) :
    Raises tones (raiseLowest tones : List Nat) := by
  obtain ⟨lowest, rest, htones, hle, hraise⟩ := exists_raiseLowest hne
  have hcons : (tones : Multiset Nat) = lowest ::ₘ (rest : Multiset Nat) :=
    Multiset.coe_eq_coe.2 htones
  refine ⟨lowest, by simp [hcons], fun tone htone => ?_, ?_⟩
  · rcases Multiset.mem_cons.1 (hcons ▸ htone) with rfl | htone
    · exact Nat.le_refl _
    · exact hle tone htone
  · rw [hcons, Multiset.erase_cons_head]
    exact Multiset.coe_eq_coe.2 hraise

theorem raisesTimes_repeat {tones : List Nat} (hne : tones ≠ []) (k : Nat) :
    RaisesTimes tones k (Nat.repeat raiseLowest k tones : List Nat) := by
  induction k with
  | zero => exact .start
  | succ k ih =>
    refine .next ih (raises_raiseLowest fun hnil => hne ?_)
    have hcard := ih.conserves.card_eq
    rw [hnil] at hcard
    exact List.length_eq_zero_iff.1 hcard.symm

theorem raisesTimes_invert {tones : List Nat} (hne : tones ≠ []) (k : Nat) :
    RaisesTimes tones k (invert k tones : List Nat) := by
  have hperm : (invert k tones : Multiset Nat) = (Nat.repeat raiseLowest k tones : List Nat) :=
    Multiset.coe_eq_coe.2 (ascending_perm _)
  rw [hperm]
  exact raisesTimes_repeat hne k

/-- Each inversion finds a lowest tone, which is not too high by more than the octaves so far. -/
theorem exists_lowest {tones : List Nat} (hne : tones ≠ []) {most : Nat}
    (hmost : ∀ tone ∈ tones, tone ≤ most) (j : Nat) :
    ∃ lowest rest, ascending (Nat.repeat raiseLowest j tones) = lowest :: rest ∧
      lowest ≤ most + 12 * j := by
  have hconserves := (raisesTimes_repeat hne j).conserves
  have hperm := ascending_perm (Nat.repeat raiseLowest j tones)
  have hne' : ascending (Nat.repeat raiseLowest j tones) ≠ [] := by
    intro hnil
    have hlength := hperm.length_eq.trans hconserves.card_eq
    rw [hnil] at hlength
    exact hne (List.length_eq_zero_iff.1 hlength.symm)
  obtain ⟨lowest, rest, hsorted⟩ := List.exists_cons_of_ne_nil hne'
  refine ⟨lowest, rest, hsorted, hconserves.le_add most hmost lowest ?_⟩
  exact hperm.mem_iff.1 (hsorted ▸ List.mem_cons_self)

/-! ### Evaluating a chord -/

/-- The tones are all notes, or the first that is none is reported. -/
theorem mapM_checkNote_cases (field : Field) (tones : List Nat) :
    ((∀ n ∈ tones, n ≤ 127) ∧ ∃ notes, tones.mapM (fun n : Nat => checkNote field n) = .ok notes) ∨
    ∃ n ∈ tones, 127 < n ∧
      tones.mapM (fun n : Nat => checkNote field n) = .error (.outOfRange field n 0 127) := by
  induction tones with
  | nil => exact .inl ⟨by simp, [], rfl⟩
  | cons tone rest ih =>
    rw [List.mapM_cons]
    by_cases htone : tone ≤ 127
    · have hcheck : checkNote field tone = .ok (.nearest tone) :=
        if_pos ⟨Int.natCast_nonneg _, by simpa [maxNote] using htone⟩
      rw [hcheck]
      rcases ih with ⟨hrest, notes, hnotes⟩ | ⟨n, hn, hlt, herror⟩
      · refine .inl ⟨List.forall_mem_cons.2 ⟨htone, hrest⟩, .nearest tone :: notes, ?_⟩
        rw [hnotes]
        rfl
      · refine .inr ⟨n, List.mem_cons_of_mem _ hn, hlt, ?_⟩
        rw [herror]
        rfl
    · have hcheck : checkNote field tone = .error (.outOfRange field tone 0 127) :=
        if_neg fun h => htone (by simpa [maxNote] using h.2)
      rw [hcheck]
      exact .inr ⟨tone, List.mem_cons_self, by omega, rfl⟩

section Evaluate

variable {c : ChordSpec} {root : Byte} {d : Dictionary} {intervals : List Byte}

/-- There are too many inversions, or a tone is too high, or the tones are the notes. -/
theorem evaluate_cases (root : Byte) (h : c.intervals.mapM (·.eval d) = .ok intervals) :
    let k := c.inversion.toNat
    let tones := intervals.map fun i => root.toNat + i.toNat
    (intervals.length ≤ k ∧ c.evaluate root d =
      .error (.outOfRange .inversion c.inversion.val 0 (intervals.length - 1 : Nat))) ∨
    k < intervals.length ∧
      ((∃ n ∈ invert k tones, 127 < n ∧
        c.evaluate root d = .error (.outOfRange .chordNote n 0 127)) ∨
      (∀ n ∈ invert k tones, n ≤ 127) ∧ ∃ notes : List Byte,
        notes.map (·.toNat) = invert k tones ∧
        c.evaluate root d = .ok ⟨c.name, intervals, c.inversion, notes⟩) := by
  intro k tones
  by_cases hk : intervals.length ≤ k
  · refine .inl ⟨hk, ?_⟩
    simp only [evaluate, h, bind, Except.bind]
    rw [if_pos hk]
    rfl
  · have hstep : c.evaluate root d = (do
        let notes ← (invert k tones).mapM fun n : Nat => checkNote .chordNote n
        return ⟨c.name, intervals, c.inversion, notes⟩) := by
      simp only [evaluate, h, bind, Except.bind]
      rw [if_neg hk]
    refine .inr ⟨Nat.lt_of_not_le hk, ?_⟩
    rw [hstep]
    rcases mapM_checkNote_cases .chordNote (invert k tones) with
      ⟨hle, notes, hnotes⟩ | ⟨n, hn, hlt, herror⟩
    · refine .inr ⟨hle, notes, toNat_of_mapM_checkNote hnotes, ?_⟩
      rw [hnotes]
      rfl
    · refine .inl ⟨n, hn, hlt, ?_⟩
      rw [herror]
      rfl

theorem tones_ne_nil (root : Byte) {intervals : List Byte} (hk : k < intervals.length) :
    (intervals.map fun i => root.toNat + i.toNat) ≠ [] := by
  intro hnil
  rw [List.map_eq_nil_iff.1 hnil] at hk
  exact Nat.not_lt_zero _ hk

theorem sum_tones (root : Byte) (intervals : List Byte) :
    (intervals.map fun i => root.toNat + i.toNat).sum =
      intervals.length * root.toNat + (intervals.map (·.toNat)).sum := by
  induction intervals with
  | nil => simp
  | cons i rest ih =>
    simp only [List.map_cons, List.sum_cons, List.length_cons, ih, Nat.succ_mul]
    omega

theorem toNat_le (b : Byte) : b.toNat ≤ 255 := by
  have := b.le_hi
  simp only [Ranged.toNat]
  omega

end Evaluate

end ChordSpec

/-- A chord on a root: its notes are its tones, but for octaves. -/
structure ChordEvent.Conserves (event : ChordEvent) (root inversion : Byte)
    (intervals : List Byte) : Prop where
  intervals_eq : event.intervals = intervals
  length_notes : event.notes.length = intervals.length
  ascending : event.notes.Pairwise (·.val ≤ ·.val)
  sum_notes : (event.notes.map (·.toNat)).sum =
    intervals.length * root.toNat + (intervals.map (·.toNat)).sum + 12 * inversion.toNat
  classes_perm : (event.notes.map (·.toNat % 12)).Perm
    (intervals.map fun i => (root.toNat + i.toNat) % 12)

namespace ChordSpec

variable {c : ChordSpec} {root : Byte} {d : Dictionary} {intervals : List Byte}

theorem conserves_of_evaluate (h : c.intervals.mapM (·.eval d) = .ok intervals) {event : ChordEvent}
    (hevent : c.evaluate root d = .ok event) : event.Conserves root c.inversion intervals := by
  have hwell := wellFormed_of_evaluate hevent
  obtain ⟨-, herror⟩ | ⟨hk, ⟨n, -, -, herror⟩ | ⟨-, notes, hnotes, hok⟩⟩ := evaluate_cases root h
  · cases hevent.symm.trans herror
  · cases hevent.symm.trans herror
  · cases hevent.symm.trans hok
    have hconserves :=
      (raisesTimes_invert (tones_ne_nil root hk) c.inversion.toNat).conserves
    refine ⟨rfl, hwell.length_notes, hwell.ascending, ?_, ?_⟩
    · have hsum := hconserves.sum_eq
      rw [Multiset.sum_coe, Multiset.sum_coe, sum_tones, ← hnotes] at hsum
      exact hsum
    · have hclasses := hconserves.classes_eq
      rw [Multiset.map_coe, Multiset.map_coe, Multiset.coe_eq_coe, ← hnotes, List.map_map,
        List.map_map] at hclasses
      exact hclasses

/--
**Chords are kept, or refused for one of two reasons.**  A chord whose intervals are bytes fails to
be evaluated exactly if it has no more tones than inversions, or if raising a lowest tone once for
each inversion leads beyond the highest note.  Otherwise its notes are its tones but for octaves.
The inversions always find a lowest tone, and stay far within 16 bits.
-/
theorem conserves_or_outOfRange (h : c.intervals.mapM (·.eval d) = .ok intervals) :
    let k := c.inversion.toNat
    let tones := intervals.map fun i => root.toNat + i.toNat
    ((∃ e, c.evaluate root d = .error e) ↔ intervals.length ≤ k ∨
      ∃ notes : Multiset Nat, RaisesTimes tones k notes ∧ ∃ n ∈ notes, 127 < n) ∧
    (∀ e, c.evaluate root d = .error e → ∃ field n min max, e = .outOfRange field n min max) ∧
    (∀ event, c.evaluate root d = .ok event → event.Conserves root c.inversion intervals) ∧
    (∀ tone ∈ tones, tone < 65536) ∧
    (k < intervals.length → ∀ j < k, ∃ lowest rest,
      ascending (Nat.repeat raiseLowest j tones) = lowest :: rest ∧ lowest + 12 < 65536) := by
  intro k tones
  have hmost : ∀ tone ∈ tones, tone ≤ 510 := by
    intro tone htone
    obtain ⟨i, -, rfl⟩ := List.mem_map.1 htone
    have := toNat_le root
    have := toNat_le i
    omega
  have hne (hk : k < intervals.length) : tones ≠ [] := tones_ne_nil root hk
  refine ⟨?_, fun e he => ?_, fun event => conserves_of_evaluate h, fun tone htone => ?_,
    fun hk j hj => ?_⟩
  · obtain ⟨hk, herror⟩ | ⟨hk, ⟨n, hn, hlt, herror⟩ | ⟨hle, notes, -, hok⟩⟩ := evaluate_cases root h
    · exact ⟨fun _ => .inl hk, fun _ => ⟨_, herror⟩⟩
    · exact ⟨fun _ => .inr ⟨_, raisesTimes_invert (hne hk) k, n, hn, hlt⟩, fun _ => ⟨_, herror⟩⟩
    · refine ⟨fun ⟨e, he⟩ => absurd (he.symm.trans hok) nofun, ?_⟩
      -- The tones that the inversions come to are those of any other order of raising them.
      rintro (hk' | ⟨notes, hraised, n, hn, hlt⟩)
      · exact absurd hk (Nat.not_lt_of_le hk')
      · rw [hraised.unique (raisesTimes_invert (hne hk) k)] at hn
        exact absurd (hle n hn) (Nat.not_le_of_lt hlt)
  · obtain ⟨-, herror⟩ | ⟨-, ⟨n, -, -, herror⟩ | ⟨-, notes, -, hok⟩⟩ := evaluate_cases root h
    · cases he.symm.trans herror
      exact ⟨_, _, _, _, rfl⟩
    · cases he.symm.trans herror
      exact ⟨_, _, _, _, rfl⟩
    · cases he.symm.trans hok
  · exact Nat.lt_of_le_of_lt (hmost tone htone) (by decide)
  · obtain ⟨lowest, rest, hsorted, hle⟩ := exists_lowest (hne hk) hmost j
    have hj' : k ≤ 255 := toNat_le c.inversion
    exact ⟨lowest, rest, hsorted, by omega⟩

/-- A chord that is in no table: one of its intervals is a reference, and two of them are equal. -/
def wide : ChordSpec where
  name := "wide"
  intervals := [.reference "Wide", .literal (.nearest 3), .literal (.nearest 3)]
  inversion := .nearest 2

theorem conserves_wide :
    let d : Dictionary := NameMap.empty.insert "Wide" ⟨.int (.nearest 40), .value⟩
    wide.intervals.mapM (·.eval d) = .ok ([40, 3, 3].map .nearest) ∧
      ∃ event, wide.evaluate (.nearest 60) d = .ok event ∧
        event.notes.map (·.toNat) = [75, 75, 100] ∧
        event.Conserves (.nearest 60) (.nearest 2) ([40, 3, 3].map .nearest) := by
  intro d
  have h : wide.intervals.mapM (·.eval d) = .ok ([40, 3, 3].map .nearest) := by cbv
  have hevent : wide.evaluate (.nearest 60) d = .ok
      ⟨"wide", [40, 3, 3].map .nearest, .nearest 2, [75, 75, 100].map .nearest⟩ := by cbv
  exact ⟨h, _, hevent, rfl, (conserves_or_outOfRange h).2.2.1 _ hevent⟩

end ChordSpec

end MusicString

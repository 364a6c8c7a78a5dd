import MusicString.Proofs.Element.Evaluate

/-!
# Well-formed events

An event is well formed if every number in it fits the message that it will become: notes,
velocities, programs and pressures are data bytes, voices and layers have four bits, and numbers of
14 bits agree with their halves.  The numbers that a token leaves out come from the defaults, so
they must be in range themselves.

* `Defaults.InRange`;
* `ChordEvent.WellFormed`, `NoteEvent.WellFormed`, `Event.WellFormed`;
* `Element.Evaluates.wellFormed`: an element is evaluated to a well-formed event.
-/

namespace MusicString

open Evaluation

/-- Defaults that fit the messages they go into. -/
structure Defaults.InRange (defaults : Defaults) : Prop where
  attack_le : defaults.attack.val ≤ 127
  decay_le : defaults.decay.val ≤ 127
  voice_le : defaults.voice.val ≤ 15
  layer_le : defaults.layer.val ≤ 15

/-- A chord with a note for each interval, in ascending order, and not inverted all around. -/
structure ChordEvent.WellFormed (c : ChordEvent) : Prop where
  length_notes : c.notes.length = c.intervals.length
  ascending : c.notes.Pairwise (·.val ≤ ·.val)
  notes_le : ∀ note ∈ c.notes, note.val ≤ 127
  inversion_lt : c.inversion.val < c.notes.length

/-- A note that fits its messages and has some length. -/
structure NoteEvent.WellFormed (n : NoteEvent) : Prop where
  value_le : n.value.val ≤ 127
  attack_le : n.attack.val ≤ 127
  decay_le : n.decay.val ≤ 127
  voice_le : n.voice.val ≤ 15
  layer_le : n.layer.val ≤ 15
  value_rest : n.rest = true → n.value.val = 0
  duration_pos : 0.0 < n.duration
  duration_finite : n.duration.isFinite = true
  chord : ∀ c, n.chord = some c → c.WellFormed

/-- The messages that set a controller: one, or a coarse and a fine one. -/
def ControllerMessages (index value : Int) (messages : List (Byte × Byte)) : Prop :=
  (index ≤ 127 ∧ ∃ a x, messages = [(a, x)] ∧ a.val = index ∧ x.val = value) ∨
    (127 < index ∧ ∃ a x b y, messages = [(a, x), (b, y)] ∧
      a.val * 128 + b.val = index ∧ x.val * 128 + y.val = value)

/-- An event all of whose numbers fit their messages. -/
def Event.WellFormed : Event → Prop
  | note n => n.WellFormed
  | noteCollection notes => ∀ n ∈ notes, n.WellFormed
  | tempo bpm => 1 ≤ bpm.val
  | keySignature root _ accidentals => root.val < 12 ∧ -7 ≤ accidentals ∧ accidentals ≤ 7
  | controller v index value messages =>
    v.val ≤ 15 ∧ 0 ≤ index.val ∧ index.val ≤ 16383 ∧
      (∀ m ∈ messages, m.1.val ≤ 127 ∧ m.2.val ≤ 127) ∧
      ControllerMessages index.val value.val messages
  | instrument v program => v.val ≤ 15 ∧ program.val ≤ 127
  | voice v => v.val ≤ 15
  | layer l => l.val ≤ 15
  | time t => 0 ≤ t.val
  | pitchBend v value lsb msb =>
    v.val ≤ 15 ∧ 0 ≤ value.val ∧ value.val ≤ 16383 ∧ lsb.val ≤ 127 ∧ msb.val ≤ 127 ∧
      msb.val * 128 + lsb.val = value.val
  | channelPressure v pressure => v.val ≤ 15 ∧ pressure.val ≤ 127
  | polyphonicPressure v key pressure => v.val ≤ 15 ∧ key.val ≤ 127 ∧ pressure.val ≤ 127
  | measure | systemExclusive _ | comment _ | property .. | define .. => True

/-! ### Chords -/

namespace ChordSpec

theorem length_raiseLowest (notes : List Nat) : (raiseLowest notes).length = notes.length := by
  have hlength : (ascending notes).length = notes.length := List.length_mergeSort notes
  unfold raiseLowest
  cases hnotes : ascending notes with
  | nil => rw [← hlength, hnotes]
  | cons lowest rest => rw [← hlength, hnotes]; rfl

theorem length_invert (inversions : Nat) (notes : List Nat) :
    (invert inversions notes).length = notes.length := by
  unfold invert ascending
  rw [List.length_mergeSort]
  induction inversions with
  | zero => rfl
  | succ n ih => rw [Nat.repeat, length_raiseLowest, ih]

theorem pairwise_ascending (notes : List Nat) : (ascending notes).Pairwise (· ≤ ·) := by
  have h : (ascending notes).Pairwise fun a b => decide (a ≤ b) = true :=
    List.pairwise_mergeSort (by simpa using fun a b c => Nat.le_trans)
      (by simpa using Nat.le_total) _
  simpa using h

theorem pairwise_invert (inversions : Nat) (notes : List Nat) :
    (invert inversions notes).Pairwise (· ≤ ·) :=
  pairwise_ascending _

/-- The tones that pass the check are the notes of the chord. -/
theorem toNat_of_mapM_checkNote {field : Field} {tones : List Nat} {notes : List Byte}
    (h : tones.mapM (fun n : Nat => checkNote field n) = .ok notes) :
    notes.map (·.toNat) = tones := by
  induction tones generalizing notes with
  | nil =>
    cases h
    rfl
  | cons tone rest ih =>
    rw [List.mapM_cons] at h
    obtain ⟨note, hnote, h⟩ := bind_eq_ok h
    obtain ⟨notes, hnotes, h⟩ := bind_eq_ok h
    cases h
    rw [List.map_cons, ih hnotes, Ranged.toNat, (checkNote_eq_ok hnote).1, Int.toNat_natCast]

theorem wellFormed_of_evaluate {c : ChordSpec} {root : Byte} {d : Dictionary} {event : ChordEvent}
    (h : c.evaluate root d = .ok event) : event.WellFormed := by
  obtain ⟨intervals, hintervals, h⟩ := bind_eq_ok h
  dsimp only at h
  split at h
  · cases h
  · next hinversion =>
    obtain ⟨notes, hnotes, h⟩ := bind_eq_ok h
    cases h
    have htones := toNat_of_mapM_checkNote hnotes
    have hlength : notes.length = intervals.length := by
      rw [← List.length_map (·.toNat), htones, length_invert, List.length_map]
    refine ⟨hlength, ?_, ?_, ?_⟩
    · -- The notes are the inverted tones, which are sorted last of all.
      have hpairwise := pairwise_invert c.inversion.toNat (intervals.map fun i => root.toNat + i.toNat)
      rw [← htones, List.pairwise_map] at hpairwise
      refine hpairwise.imp fun {a b} hab => ?_
      have ha := a.lo_le
      have hb := b.lo_le
      simp only [Ranged.toNat] at hab
      omega
    · intro note hmem
      obtain ⟨tone, -, hnote⟩ := (mapM_eq_ok hnotes).2 note hmem
      obtain ⟨hval, -, hle⟩ := checkNote_eq_ok hnote
      exact hval ▸ hle
    · have hlo := c.inversion.lo_le
      simp only [Ranged.toNat] at hinversion
      show c.inversion.val < notes.length
      omega

end ChordSpec

/-! ### Notes and events -/

theorem NoteElement.Evaluates.wellFormed {n : NoteElement} {d : Dictionary} {defaults : Defaults}
    {event : NoteEvent} (h : n.Evaluates d defaults event) (hdefaults : defaults.InRange) :
    event.WellFormed where
  value_le := (evaluateValue_eq_ok h.value).1
  attack_le := evaluateVelocity_eq_ok h.attack hdefaults.attack_le
  decay_le := evaluateVelocity_eq_ok h.decay hdefaults.decay_le
  voice_le := h.voice ▸ hdefaults.voice_le
  layer_le := h.layer ▸ hdefaults.layer_le
  value_rest hrest := by
    rw [h.rest] at hrest
    exact (evaluateValue_eq_ok h.value).2 (of_decide_eq_true hrest)
  duration_pos := (evaluateDuration_eq_ok h.duration).1
  duration_finite := (evaluateDuration_eq_ok h.duration).2
  chord c hc := by
    obtain ⟨spec, -, hspec⟩ := h.chord c hc
    exact ChordSpec.wellFormed_of_evaluate hspec

theorem msb_le (n : Int) : (msb n).val ≤ 127 := by
  simp only [msb, max14Bit]
  omega

theorem lsb_le (n : Int) : (lsb n).val ≤ 127 := by
  simp only [lsb]
  omega

/-- The halves of a number of 14 bits make up the number. -/
theorem msb_mul_add_lsb_of_le {n : Int} (h : 0 ≤ n ∧ n ≤ 16383) :
    (msb n).val * 128 + (lsb n).val = n := by
  rw [msb_mul_add_lsb, max14Bit]
  omega

theorem wellFormed_controllerMessages {index value : Integer} {messages : List (Byte × Byte)}
    (hindex : 0 ≤ index.val ∧ index.val ≤ 16383)
    (h : controllerMessages index value = .ok messages) :
    (∀ m ∈ messages, m.1.val ≤ 127 ∧ m.2.val ≤ 127) ∧
      ControllerMessages index.val value.val messages := by
  rcases controllerMessages_eq_ok h with ⟨hlarge, hlo, hhi, rfl⟩ | ⟨hsmall, hlo, hhi, rfl⟩
  · refine ⟨?_, .inr ⟨hlarge, _, _, _, _, rfl, msb_mul_add_lsb_of_le hindex,
      msb_mul_add_lsb_of_le ⟨hlo, hhi⟩⟩⟩
    simp [msb_le, lsb_le]
  · have hindex' : (Byte.nearest index.val).val = index.val :=
      nearest_val ⟨hindex.1, by omega⟩
    have hvalue : (Byte.nearest value.val).val = value.val := nearest_val ⟨hlo, by omega⟩
    refine ⟨?_, .inl ⟨hsmall, _, _, rfl, hindex', hvalue⟩⟩
    simp [hindex', hvalue, hsmall, hhi]

/-- With defaults in range, an element is evaluated to a well-formed event. -/
theorem Element.Evaluates.wellFormed {element : Element} {d : Dictionary} {defaults : Defaults}
    {event : Event} (h : element.Evaluates d defaults event) (hdefaults : defaults.InRange) :
    event.WellFormed := by
  cases h with
  | note hnote => exact hnote.wellFormed hdefaults
  | noteCollection hnotes =>
    intro event hmem
    obtain ⟨n, -, hnote⟩ := hnotes event hmem
    exact hnote.wellFormed hdefaults
  | tempo hbpm => exact hbpm.2.1
  | @keySignature _ _ _ root _ _ hfifths =>
    refine ⟨?_, hfifths.2⟩
    rw [nearest_val (by omega)]
    omega
  | controller hindex _ hmessages =>
    exact ⟨hdefaults.voice_le, hindex.2.1, hindex.2.2,
      wellFormed_controllerMessages hindex.2 hmessages⟩
  | instrument hprogram => exact ⟨hdefaults.voice_le, hprogram.2.2⟩
  | voice hvoice => exact hvoice.2.2
  | layer hlayer => exact hlayer.2.2
  | time htime => exact htime.2.1
  | pitchBend hvalue =>
    exact ⟨hdefaults.voice_le, hvalue.2.1, hvalue.2.2, lsb_le _, msb_le _,
      msb_mul_add_lsb_of_le hvalue.2⟩
  | channelPressure hpressure => exact ⟨hdefaults.voice_le, hpressure.2.2⟩
  | polyphonicPressure hkey hpressure => exact ⟨hdefaults.voice_le, hkey.2.2, hpressure.2.2⟩
  | measure | systemExclusive | comment | property | define => trivial

end MusicString

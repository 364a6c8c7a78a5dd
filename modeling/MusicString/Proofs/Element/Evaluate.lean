import MusicString.Element.Evaluate

/-!
# What a successful evaluation says

An evaluation in `Except` that succeeds has gone through all its steps.  The lemmas of this module
take such an evaluation apart: into the steps of a sequence, the members of a list, and the checks
that its numbers have passed.

* `Evaluation.bind_eq_ok`, `Evaluation.mapM_eq_ok`;
* `Expr.Passes`: an expression that is evaluated and passes a check;
* `NoteElement.Evaluates`, `Element.Evaluates`: what evaluation makes of an element, one case for
  each kind, and `Element.evaluate_eq_ok`.
-/

namespace MusicString

namespace Evaluation

variable {ε α β : Type}

theorem bind_eq_ok {x : Except ε α} {k : α → Except ε β} {b : β} (h : (x >>= k) = .ok b) :
    ∃ a, x = .ok a ∧ k a = .ok b := by
  cases x with
  | error e => cases h
  | ok a => exact ⟨a, rfl, h⟩

theorem map_eq_ok {x : Except ε α} {g : α → β} {b : β} (h : (g <$> x) = .ok b) :
    ∃ a, x = .ok a ∧ b = g a := by
  cases x with
  | error e => cases h
  | ok a =>
    cases h
    exact ⟨a, rfl, rfl⟩

/-- A list whose members are all evaluated: as many results, each of some member. -/
theorem mapM_eq_ok {f : α → Except ε β} {l : List α} {l' : List β} (h : l.mapM f = .ok l') :
    l'.length = l.length ∧ ∀ b ∈ l', ∃ a ∈ l, f a = .ok b := by
  induction l generalizing l' with
  | nil =>
    cases h
    exact ⟨rfl, fun b hb => absurd hb List.not_mem_nil⟩
  | cons a rest ih =>
    rw [List.mapM_cons] at h
    obtain ⟨b, hb, h⟩ := bind_eq_ok h
    obtain ⟨rest', hrest, h⟩ := bind_eq_ok h
    cases h
    obtain ⟨hlength, hmem⟩ := ih hrest
    refine ⟨congrArg (· + 1) hlength, fun b' hb' => ?_⟩
    rcases List.mem_cons.1 hb' with rfl | hb'
    · exact ⟨a, List.mem_cons_self, hb⟩
    · obtain ⟨a', ha', heq⟩ := hmem b' hb'
      exact ⟨a', List.mem_cons_of_mem _ ha', heq⟩

/-- A list that is evaluated has no member that fails. -/
theorem exists_ok_of_mapM {f : α → Except ε β} {l : List α} {l' : List β} (h : l.mapM f = .ok l')
    {a : α} (ha : a ∈ l) : ∃ b, f a = .ok b := by
  induction l generalizing l' with
  | nil => cases ha
  | cons first rest ih =>
    rw [List.mapM_cons] at h
    obtain ⟨b, hb, h⟩ := bind_eq_ok h
    obtain ⟨rest', hrest, -⟩ := bind_eq_ok h
    rcases List.mem_cons.1 ha with rfl | ha
    · exact ⟨b, hb⟩
    · exact ih hrest ha

/-- Evaluating a list depends on what its members evaluate to. -/
theorem mapM_congr {f : α → Except ε β} {l m : List α} (h : l.map f = m.map f) :
    l.mapM f = m.mapM f := by
  have hid (l : List α) : l.mapM f = (l.map f).mapM id := by
    rw [List.mapM_map]
    rfl
  rw [hid, hid, h]

end Evaluation

open Evaluation

/-! ### Checks -/

theorem check_eq_ok {lo hi : Int} {field : Field} {min max : Int} {n n' : Ranged lo hi}
    (h : check field min max n = .ok n') : n' = n ∧ min ≤ n'.val ∧ n'.val ≤ max := by
  unfold check at h
  split at h
  · cases h
    exact ⟨rfl, ‹_›⟩
  · cases h

theorem check_of_mem {lo hi : Int} {field : Field} {min max : Int} {n : Ranged lo hi}
    (h : min ≤ n.val ∧ n.val ≤ max) : check field min max n = .ok n :=
  if_pos h

theorem check_of_gt {lo hi : Int} {field : Field} {min max : Int} {n : Ranged lo hi}
    (h : max < n.val) : check field min max n = .error (.outOfRange field n.val min max) :=
  if_neg fun hrange => absurd hrange.2 (Int.not_le.2 h)

/-- The number that an expression stands for lies between `min` and `max`. -/
def Expr.Passes {lo hi : Int} [Scalar (Ranged lo hi)] (expr : Expr (Ranged lo hi)) (d : Dictionary)
    (min max : Int) (n : Ranged lo hi) : Prop :=
  expr.eval d = .ok n ∧ min ≤ n.val ∧ n.val ≤ max

theorem Expr.passes_of_check {lo hi : Int} [Scalar (Ranged lo hi)] {field : Field} {min max : Int}
    {expr : Expr (Ranged lo hi)} {d : Dictionary} {n n' : Ranged lo hi} (heval : expr.eval d = .ok n)
    (hcheck : check field min max n = .ok n') : expr.Passes d min max n' := by
  obtain ⟨rfl, hrange⟩ := check_eq_ok hcheck
  exact ⟨heval, hrange⟩

theorem nearest_val {n : Int} (h : 0 ≤ n ∧ n ≤ 255) : (Byte.nearest n).val = n :=
  Ranged.clamp_val _ h

theorem checkNote_eq_ok {field : Field} {n : Int} {note : Byte} (h : checkNote field n = .ok note) :
    note.val = n ∧ 0 ≤ n ∧ n ≤ 127 := by
  unfold checkNote at h
  split at h
  · next hn =>
    cases h
    exact ⟨nearest_val ⟨hn.1, Int.le_trans hn.2 (by decide)⟩, hn⟩
  · cases h

/-! ### Notes -/

namespace NoteElement

variable {n : NoteElement} {d : Dictionary} {defaults : Defaults}

/-- The number of a note is at most the largest, and zero for a rest. -/
theorem evaluateValue_eq_ok {value : Byte} (h : n.evaluateValue d defaults = .ok value) :
    value.val ≤ 127 ∧ (n.value = .rest → value.val = 0) := by
  unfold evaluateValue at h
  cases hn : n.value with
  | rest =>
    rw [hn] at h
    cases h
    exact ⟨by decide, fun _ => rfl⟩
  | numeric number =>
    rw [hn] at h
    obtain ⟨_, -, hcheck⟩ := bind_eq_ok h
    exact ⟨(check_eq_ok hcheck).2.2, fun hrest => by cases hrest⟩
  | pitch offset octave =>
    rw [hn] at h
    have hnote : ∃ octave' : Byte, checkNote .note (octave'.val * 12 + offset) = .ok value := by
      cases octave with
      | none => exact ⟨_, h⟩
      | some octave =>
        obtain ⟨_, -, h⟩ := bind_eq_ok h
        obtain ⟨octave', -, h⟩ := bind_eq_ok h
        exact ⟨octave', h⟩
    obtain ⟨octave', hnote⟩ := hnote
    obtain ⟨hval, -, hle⟩ := checkNote_eq_ok hnote
    exact ⟨hval ▸ hle, fun hrest => by cases hrest⟩

theorem evaluateDuration_eq_ok {duration : Float}
    (h : n.evaluateDuration d defaults = .ok duration) :
    0.0 < duration ∧ duration.isFinite = true := by
  have htest (x : Float)
      (hx : (if 0.0 < x && x.isFinite then pure x else throw (.badDuration x) :
        Except EvalError Float) = .ok duration) :
      0.0 < duration ∧ duration.isFinite = true := by
    split at hx
    · next hpositive =>
      cases hx
      simpa using hpositive
    · cases hx
  unfold evaluateDuration at h
  cases hlength : n.duration with
  | none =>
    rw [hlength] at h
    exact htest _ h
  | some duration =>
    rw [hlength] at h
    obtain ⟨length, -, h⟩ := bind_eq_ok h
    exact htest _ h

theorem evaluateVelocity_eq_ok {field : Field} {written : Option (Expr Byte)} {default velocity : Byte}
    (h : evaluateVelocity field written default d = .ok velocity) (hdefault : default.val ≤ 127) :
    velocity.val ≤ 127 := by
  cases written with
  | none =>
    cases h
    exact hdefault
  | some expr =>
    obtain ⟨_, -, hcheck⟩ := bind_eq_ok h
    exact (check_eq_ok hcheck).2.2

/-- Where the fields of the event of a note come from. -/
structure Evaluates (n : NoteElement) (d : Dictionary) (defaults : Defaults) (event : NoteEvent) :
    Prop where
  value : n.evaluateValue d defaults = .ok event.value
  rest : event.rest = decide (n.value = .rest)
  duration : n.evaluateDuration d defaults = .ok event.duration
  attack : evaluateVelocity .attack n.attack defaults.attack d = .ok event.attack
  decay : evaluateVelocity .decay n.decay defaults.decay d = .ok event.decay
  voice : event.voice = defaults.voice
  layer : event.layer = defaults.layer
  chord : ∀ chord, event.chord = some chord →
    ∃ spec, n.chord = some spec ∧ spec.evaluate event.value d = .ok chord

theorem evaluate_eq_ok {event : NoteEvent} (h : n.evaluate d defaults = .ok event) :
    n.Evaluates d defaults event := by
  obtain ⟨value, hvalue, h⟩ := bind_eq_ok h
  obtain ⟨duration, hduration, h⟩ := bind_eq_ok h
  obtain ⟨attack, hattack, h⟩ := bind_eq_ok h
  obtain ⟨decay, hdecay, h⟩ := bind_eq_ok h
  cases hchord : n.chord with
  | none =>
    rw [hchord] at h
    cases h
    exact ⟨hvalue, rfl, hduration, hattack, hdecay, rfl, rfl, fun _ hnone => by cases hnone⟩
  | some spec =>
    rw [hchord] at h
    obtain ⟨chord, hmap, h⟩ := bind_eq_ok h
    obtain ⟨sounding, hspec, rfl⟩ := map_eq_ok hmap
    cases h
    refine ⟨hvalue, rfl, hduration, hattack, hdecay, rfl, rfl, fun chord hsome => ?_⟩
    cases hsome
    exact ⟨spec, hchord, hspec⟩

end NoteElement

/-! ### Elements -/

theorem controllerMessages_eq_ok {index value : Integer} {messages : List (Byte × Byte)}
    (h : controllerMessages index value = .ok messages) :
    (127 < index.val ∧ 0 ≤ value.val ∧ value.val ≤ 16383 ∧
      messages = [(msb index.val, msb value.val), (lsb index.val, lsb value.val)]) ∨
    (index.val ≤ 127 ∧ 0 ≤ value.val ∧ value.val ≤ 127 ∧
      messages = [(.nearest index.val, .nearest value.val)]) := by
  unfold controllerMessages at h
  split at h
  · next hlarge =>
    obtain ⟨value', hcheck, hmessages⟩ := bind_eq_ok h
    obtain ⟨rfl, hlo, hhi⟩ := check_eq_ok hcheck
    cases hmessages
    exact .inl ⟨hlarge, hlo, hhi, rfl⟩
  · next hsmall =>
    obtain ⟨value', hcheck, hmessages⟩ := bind_eq_ok h
    obtain ⟨rfl, hlo, hhi⟩ := check_eq_ok hcheck
    cases hmessages
    exact .inr ⟨Int.not_lt.1 hsmall, hlo, hhi, rfl⟩

/-- What evaluation makes of an element, and the checks that its numbers have passed. -/
inductive Element.Evaluates (d : Dictionary) (defaults : Defaults) : Element → Event → Prop
  | note {n : NoteElement} {event : NoteEvent} :
    n.Evaluates d defaults event → Evaluates d defaults (.note n) (.note event)
  | noteCollection {notes : List NoteElement} {events : List NoteEvent} :
    (∀ event ∈ events, ∃ n ∈ notes, n.Evaluates d defaults event) →
    Evaluates d defaults (.noteCollection notes) (.noteCollection events)
  | tempo {expr : Expr Integer} {bpm : Integer} :
    expr.Passes d 1 2147483647 bpm → Evaluates d defaults (.tempo expr) (.tempo bpm)
  | keySignature {root : Expr Byte} {fifths : Expr Integer} {scale : Scale} {r : Byte}
    {f : Integer} :
    root.eval d = .ok r → fifths.Passes d (-7) 7 f →
    Evaluates d defaults (.keySignature root fifths scale)
      (.keySignature (.nearest (r.val % 12)) scale f.val)
  | controller {index value : Expr Integer} {i v : Integer} {messages : List (Byte × Byte)} :
    index.Passes d 0 16383 i → value.eval d = .ok v → controllerMessages i v = .ok messages →
    Evaluates d defaults (.controller index value) (.controller defaults.voice i v messages)
  | instrument {expr : Expr Byte} {program : Byte} :
    expr.Passes d 0 127 program →
    Evaluates d defaults (.instrument expr) (.instrument defaults.voice program)
  | voice {expr : Expr Byte} {v : Byte} :
    expr.Passes d 0 15 v → Evaluates d defaults (.voice expr) (.voice v)
  | layer {expr : Expr Byte} {l : Byte} :
    expr.Passes d 0 15 l → Evaluates d defaults (.layer expr) (.layer l)
  | measure : Evaluates d defaults .measure .measure
  | time {expr : Expr Long} {t : Long} :
    expr.Passes d 0 Value.maxLong t → Evaluates d defaults (.time expr) (.time t)
  | systemExclusive {exprs : List (Expr Byte)} {bytes : List Byte} :
    exprs.mapM (·.eval d) = .ok bytes →
    Evaluates d defaults (.systemExclusive exprs) (.systemExclusive bytes)
  | pitchBend {expr : Expr Integer} {value : Integer} :
    expr.Passes d 0 16383 value →
    Evaluates d defaults (.pitchBend expr)
      (.pitchBend defaults.voice value (lsb value.val) (msb value.val))
  | channelPressure {expr : Expr Byte} {pressure : Byte} :
    expr.Passes d 0 127 pressure →
    Evaluates d defaults (.channelPressure expr) (.channelPressure defaults.voice pressure)
  | polyphonicPressure {key pressure : Expr Byte} {k p : Byte} :
    key.Passes d 0 127 k → pressure.Passes d 0 127 p →
    Evaluates d defaults (.polyphonicPressure key pressure)
      (.polyphonicPressure defaults.voice k p)
  | comment {text : String} : Evaluates d defaults (.comment text) (.comment text)
  | property {key value : String} : Evaluates d defaults (.property key value) (.property key value)
  | define {name : String} {entry : Entry} :
    Evaluates d defaults (.define name entry) (.define name entry)

/-- An evaluation that succeeds is one of the cases. -/
theorem Element.evaluate_eq_ok {element : Element} {d : Dictionary} {defaults : Defaults}
    {event : Event} (h : element.evaluate d defaults = .ok event) :
    element.Evaluates d defaults event := by
  cases element with
  | note n =>
    obtain ⟨event, hnote, h⟩ := bind_eq_ok h
    cases h
    exact .note (NoteElement.evaluate_eq_ok hnote)
  | noteCollection notes =>
    obtain ⟨events, hnotes, h⟩ := bind_eq_ok h
    cases h
    refine .noteCollection fun event hmem => ?_
    obtain ⟨n, hn, hnote⟩ := (mapM_eq_ok hnotes).2 event hmem
    exact ⟨n, hn, NoteElement.evaluate_eq_ok hnote⟩
  | tempo =>
    obtain ⟨_, heval, h⟩ := bind_eq_ok h
    obtain ⟨_, hcheck, h⟩ := bind_eq_ok h
    cases h
    exact .tempo (Expr.passes_of_check heval hcheck)
  | keySignature =>
    obtain ⟨_, hroot, h⟩ := bind_eq_ok h
    obtain ⟨_, heval, h⟩ := bind_eq_ok h
    obtain ⟨_, hcheck, h⟩ := bind_eq_ok h
    cases h
    exact .keySignature hroot (Expr.passes_of_check heval hcheck)
  | controller =>
    obtain ⟨_, heval, h⟩ := bind_eq_ok h
    obtain ⟨_, hcheck, h⟩ := bind_eq_ok h
    obtain ⟨_, hvalue, h⟩ := bind_eq_ok h
    obtain ⟨_, hmessages, h⟩ := bind_eq_ok h
    cases h
    exact .controller (Expr.passes_of_check heval hcheck) hvalue hmessages
  | instrument =>
    obtain ⟨_, heval, h⟩ := bind_eq_ok h
    obtain ⟨_, hcheck, h⟩ := bind_eq_ok h
    cases h
    exact .instrument (Expr.passes_of_check heval hcheck)
  | voice =>
    obtain ⟨_, heval, h⟩ := bind_eq_ok h
    obtain ⟨_, hcheck, h⟩ := bind_eq_ok h
    cases h
    exact .voice (Expr.passes_of_check heval hcheck)
  | layer =>
    obtain ⟨_, heval, h⟩ := bind_eq_ok h
    obtain ⟨_, hcheck, h⟩ := bind_eq_ok h
    cases h
    exact .layer (Expr.passes_of_check heval hcheck)
  | time =>
    obtain ⟨_, heval, h⟩ := bind_eq_ok h
    obtain ⟨_, hcheck, h⟩ := bind_eq_ok h
    cases h
    exact .time (Expr.passes_of_check heval hcheck)
  | systemExclusive =>
    obtain ⟨_, hbytes, h⟩ := bind_eq_ok h
    cases h
    exact .systemExclusive hbytes
  | pitchBend =>
    obtain ⟨_, heval, h⟩ := bind_eq_ok h
    obtain ⟨_, hcheck, h⟩ := bind_eq_ok h
    cases h
    exact .pitchBend (Expr.passes_of_check heval hcheck)
  | channelPressure =>
    obtain ⟨_, heval, h⟩ := bind_eq_ok h
    obtain ⟨_, hcheck, h⟩ := bind_eq_ok h
    cases h
    exact .channelPressure (Expr.passes_of_check heval hcheck)
  | polyphonicPressure =>
    obtain ⟨_, hkey, h⟩ := bind_eq_ok h
    obtain ⟨_, hcheck, h⟩ := bind_eq_ok h
    obtain ⟨_, hpressure, h⟩ := bind_eq_ok h
    obtain ⟨_, hcheck', h⟩ := bind_eq_ok h
    cases h
    exact .polyphonicPressure (Expr.passes_of_check hkey hcheck)
      (Expr.passes_of_check hpressure hcheck')
  | measure =>
    cases h
    exact .measure
  | comment =>
    cases h
    exact .comment
  | property =>
    cases h
    exact .property
  | define =>
    cases h
    exact .define

end MusicString

import Mathlib.Data.Set.Defs
import MusicString.Proofs.Element.Evaluate

/-!
# The names that an element refers to

Evaluation looks into the dictionary for the references of an element and for nothing else.  So the
event of an element is the same in dictionaries that agree on the names it refers to.

* `Dictionary.AgreeOn`: dictionaries that hold the same under given names;
* `Element.RefersTo`: an element whose references all have one of the given names;
* `Element.evaluate_congr`: its event depends on these names only.
-/

namespace MusicString

open Evaluation

/-- Dictionaries that hold the same, or nothing, under each of the names. -/
def Dictionary.AgreeOn (names : Set String) (d d' : Dictionary) : Prop :=
  ∀ name ∈ names, d.get? name = d'.get? name

theorem Dictionary.AgreeOn.insertAll {names : Set String} {d d' : Dictionary}
    (h : AgreeOn names d d') (bindings : List (String × Entry)) :
    AgreeOn names (d.insertAll bindings) (d'.insertAll bindings) := by
  intro name hname
  rw [NameMap.get?_insertAll, NameMap.get?_insertAll, h name hname]

/-! ### References -/

/-- A number, or a reference with one of the names. -/
def Expr.RefersTo {α : Type} (names : Set String) : Expr α → Prop
  | literal _ => True
  | reference name => name ∈ names

/-- The value of a note all of whose references have one of the names. -/
def NoteValue.RefersTo (names : Set String) : NoteValue → Prop
  | pitch _ octave => ∀ e ∈ octave, e.RefersTo names
  | numeric number => number.RefersTo names
  | rest => True

/-- A note all of whose references have one of the names. -/
structure NoteElement.RefersTo (names : Set String) (n : NoteElement) : Prop where
  value : n.value.RefersTo names
  chord : ∀ c ∈ n.chord, ∀ e ∈ c.intervals, e.RefersTo names
  duration : ∀ e ∈ n.duration, e.RefersTo names
  attack : ∀ e ∈ n.attack, e.RefersTo names
  decay : ∀ e ∈ n.decay, e.RefersTo names

/-- An element all of whose references have one of the names. -/
def Element.RefersTo (names : Set String) : Element → Prop
  | note n => n.RefersTo names
  | noteCollection notes => ∀ n ∈ notes, n.RefersTo names
  | keySignature root fifths _ => root.RefersTo names ∧ fifths.RefersTo names
  | controller index value => index.RefersTo names ∧ value.RefersTo names
  | polyphonicPressure key pressure => key.RefersTo names ∧ pressure.RefersTo names
  | systemExclusive bytes => ∀ e ∈ bytes, e.RefersTo names
  | voice e | layer e | instrument e | channelPressure e => e.RefersTo names
  | tempo e | pitchBend e => e.RefersTo names
  | time e => e.RefersTo names
  | measure | comment _ | property .. | define .. => True

/-! ### Evaluation -/

/-- A list is evaluated alike if its members are. -/
theorem Evaluation.mapM_congr_left {ε α β : Type} {f g : α → Except ε β} {l : List α}
    (h : ∀ a ∈ l, f a = g a) : l.mapM f = l.mapM g := by
  induction l with
  | nil => rfl
  | cons a rest ih =>
    obtain ⟨ha, hrest⟩ := List.forall_mem_cons.1 h
    rw [List.mapM_cons, List.mapM_cons, ha, ih hrest]

section Congr

variable {names : Set String} {d d' : Dictionary} (h : Dictionary.AgreeOn names d d')

include h

theorem Expr.eval_congr {α : Type} [Scalar α] {e : Expr α} (he : e.RefersTo names) :
    e.eval d = e.eval d' := by
  cases e with
  | literal value => rfl
  | reference name => rw [Expr.eval, Expr.eval, h name he]

theorem ChordSpec.evaluate_congr {c : ChordSpec} (hc : ∀ e ∈ c.intervals, e.RefersTo names)
    (root : Byte) : c.evaluate root d = c.evaluate root d' := by
  have hintervals : c.intervals.mapM (·.eval d) = c.intervals.mapM (·.eval d') :=
    mapM_congr_left fun e he => Expr.eval_congr h (hc e he)
  rw [ChordSpec.evaluate, ChordSpec.evaluate, hintervals]

namespace NoteElement

variable {n : NoteElement} (defaults : Defaults)

theorem evaluateValue_congr (hn : n.value.RefersTo names) :
    n.evaluateValue d defaults = n.evaluateValue d' defaults := by
  unfold evaluateValue
  cases hvalue : n.value with
  | rest => rfl
  | numeric number =>
    rw [hvalue] at hn
    simp only [Expr.eval_congr h hn]
  | pitch offset octave =>
    rw [hvalue] at hn
    cases octave with
    | none => rfl
    | some e => simp only [Expr.eval_congr h (hn e rfl)]

theorem evaluateDuration_congr (hn : ∀ e ∈ n.duration, e.RefersTo names) :
    n.evaluateDuration d defaults = n.evaluateDuration d' defaults := by
  unfold evaluateDuration
  cases hduration : n.duration with
  | none => rfl
  | some e => simp only [Expr.eval_congr h (hn e hduration)]

theorem evaluateVelocity_congr {written : Option (Expr Byte)}
    (hwritten : ∀ e ∈ written, e.RefersTo names) (field : Field) (default : Byte) :
    evaluateVelocity field written default d = evaluateVelocity field written default d' := by
  cases written with
  | none => rfl
  | some e => simp only [evaluateVelocity, Expr.eval_congr h (hwritten e rfl)]

theorem evaluate_congr (hn : n.RefersTo names) :
    n.evaluate d defaults = n.evaluate d' defaults := by
  unfold evaluate
  rw [evaluateValue_congr h defaults hn.value, evaluateDuration_congr h defaults hn.duration,
    evaluateVelocity_congr h hn.attack, evaluateVelocity_congr h hn.decay]
  cases hchord : n.chord with
  | none => rfl
  | some c => simp only [ChordSpec.evaluate_congr h (hn.chord c hchord)]

end NoteElement

/-- **The event of an element** depends on the entries of the names that it refers to. -/
theorem Element.evaluate_congr {element : Element} (he : element.RefersTo names)
    (defaults : Defaults) : element.evaluate d defaults = element.evaluate d' defaults := by
  cases element with
  | note n => simp only [evaluate, n.evaluate_congr h defaults he]
  | noteCollection notes =>
    have hnotes : notes.mapM (·.evaluate d defaults) = notes.mapM (·.evaluate d' defaults) :=
      mapM_congr_left fun n hn => n.evaluate_congr h defaults (he n hn)
    simp only [evaluate, hnotes]
  | systemExclusive bytes =>
    have hbytes : bytes.mapM (·.eval d) = bytes.mapM (·.eval d') :=
      mapM_congr_left fun e hmem => Expr.eval_congr h (he e hmem)
    simp only [evaluate, hbytes]
  | keySignature | controller | polyphonicPressure =>
    simp only [evaluate, Expr.eval_congr h he.1, Expr.eval_congr h he.2]
  | voice | layer | instrument | channelPressure | tempo | pitchBend | time =>
    simp only [evaluate, Expr.eval_congr h he]
  | measure | comment | property | define => rfl

end Congr

end MusicString

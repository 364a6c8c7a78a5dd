import MusicString.Proofs.Element.Evaluate
import MusicString.Proofs.Grammar.NoteLanguage

/-!
# How an event depends on a field

The event of an element depends on a field only through the number that the field stands for.
Every field of a token is looked up when the element is evaluated, except for a velocity that a
later one has replaced.

* `DependsOn`: what an element owes to one of its fields;
* `dependsOn_of_bind`: for fields that are evaluated at once;
* `dependsOn_byte`, `dependsOn_velocity`: for fields in lists.
-/

namespace MusicString

open Evaluation

/--
The event of an element depends on a field through the number that the field stands for.  If the
field is `used`, there is an event only if there is a number, which lies between `least` and `most`.
-/
structure DependsOn {lo hi : Int} [Scalar (Ranged lo hi)] (used : Bool) (least most : Int)
    (build : Expr (Ranged lo hi) → Element) : Prop where
  congr : ∀ (d : Dictionary) (defaults : Defaults) (e e' : Expr (Ranged lo hi)),
    e.eval d = e'.eval d → (build e).evaluate d defaults = (build e').evaluate d defaults
  needs : used = true → ∀ (d : Dictionary) (defaults : Defaults) (e : Expr (Ranged lo hi)) event,
    (build e).evaluate d defaults = .ok event →
      ∃ n, e.eval d = .ok n ∧ least ≤ n.val ∧ n.val ≤ most

/-! ### Fields that are evaluated at once -/

section

variable {lo hi : Int} [Scalar (Ranged lo hi)] {β : Type}

/-- An element whose evaluation comes to the field after something else. -/
theorem dependsOn_of_bind {build : Expr (Ranged lo hi) → Element}
    (f : Dictionary → Defaults → Except EvalError β)
    (k : Dictionary → Defaults → β → Ranged lo hi → Except EvalError Event)
    (h : ∀ d defaults e, (build e).evaluate d defaults =
      f d defaults >>= fun b => e.eval d >>= k d defaults b) : DependsOn true lo hi build where
  congr d defaults e e' heval := by rw [h, h, heval]
  needs _ d defaults e event hevent := by
    rw [h] at hevent
    obtain ⟨b, -, hevent⟩ := bind_eq_ok hevent
    obtain ⟨n, hn, -⟩ := bind_eq_ok hevent
    exact ⟨n, hn, n.lo_le, n.le_hi⟩

/-- An element whose evaluation begins with the field. -/
theorem dependsOn_of_first {build : Expr (Ranged lo hi) → Element}
    (k : Dictionary → Defaults → Ranged lo hi → Except EvalError Event)
    (h : ∀ d defaults e, (build e).evaluate d defaults = e.eval d >>= k d defaults) :
    DependsOn true lo hi build :=
  dependsOn_of_bind (fun _ _ => .ok ()) (fun d defaults _ => k d defaults) h

end

theorem dependsOn_voice : DependsOn true 0 255 Element.voice :=
  dependsOn_of_first _ fun _ _ _ => rfl

theorem dependsOn_layer : DependsOn true 0 255 Element.layer :=
  dependsOn_of_first _ fun _ _ _ => rfl

theorem dependsOn_instrument : DependsOn true 0 255 Element.instrument :=
  dependsOn_of_first _ fun _ _ _ => rfl

theorem dependsOn_channelPressure : DependsOn true 0 255 Element.channelPressure :=
  dependsOn_of_first _ fun _ _ _ => rfl

theorem dependsOn_tempo : DependsOn true (-2147483648) 2147483647 Element.tempo :=
  dependsOn_of_first _ fun _ _ _ => rfl

theorem dependsOn_pitchBend : DependsOn true (-2147483648) 2147483647 Element.pitchBend :=
  dependsOn_of_first _ fun _ _ _ => rfl

theorem dependsOn_controllerIndex (value : Expr Integer) :
    DependsOn true (-2147483648) 2147483647 fun index => Element.controller index value :=
  dependsOn_of_first _ fun _ _ _ => rfl

theorem dependsOn_key (pressure : Expr Byte) :
    DependsOn true 0 255 fun key => Element.polyphonicPressure key pressure :=
  dependsOn_of_first _ fun _ _ _ => rfl

theorem dependsOn_time : DependsOn true (-Value.maxLong) Value.maxLong Element.time where
  congr d defaults e e' heval := by simp only [Element.evaluate, heval]
  needs _ d defaults e event h := by
    cases Element.evaluate_eq_ok h with
    | @time _ t hpasses =>
      obtain ⟨heval, hlo, hhi⟩ := hpasses
      exact ⟨t, heval, Int.le_trans (by decide) hlo, hhi⟩

theorem dependsOn_controllerValue (index : Expr Integer) :
    DependsOn true (-2147483648) 2147483647 (Element.controller index) :=
  dependsOn_of_bind (fun d _ => index.eval d >>= check .controllerIndex 0 max14Bit)
    (fun _ defaults i v => do
      return .controller defaults.voice i v (← controllerMessages i v)) fun d defaults e => by
        simp only [Element.evaluate, bind_assoc]

theorem dependsOn_pressure (key : Expr Byte) :
    DependsOn true 0 255 (Element.polyphonicPressure key) :=
  dependsOn_of_bind (fun d _ => key.eval d >>= check .note 0 maxNote)
    (fun _ defaults k p => do
      return .polyphonicPressure defaults.voice k (← check .pressure 0 maxDataByte p))
    fun d defaults e => by simp only [Element.evaluate, bind_assoc]

/-! ### Fields in lists -/

theorem dependsOn_byte (bytes bytes' : List (Expr Byte)) :
    DependsOn true 0 255 fun e => .systemExclusive (bytes ++ [e] ++ bytes') where
  congr d defaults e e' heval := by
    have hmap : (bytes ++ [e] ++ bytes').map (·.eval d) =
        (bytes ++ [e'] ++ bytes').map (·.eval d) := by
      simp [heval]
    simp only [Element.evaluate, mapM_congr hmap]
  needs _ d defaults e event h := by
    obtain ⟨values, hvalues, -⟩ := bind_eq_ok h
    obtain ⟨n, hn⟩ := exists_ok_of_mapM hvalues (a := e) (by simp)
    exact ⟨n, hn, n.lo_le, n.le_hi⟩

/-! ### Velocities -/

namespace NoteElement

variable {d : Dictionary} {n n' : NoteElement}

/-- Notes that are equal except for velocities that stand for the same numbers. -/
structure Alike (d : Dictionary) (n n' : NoteElement) : Prop where
  attack : ∀ field default,
    evaluateVelocity field n.attack default d = evaluateVelocity field n'.attack default d
  decay : ∀ field default,
    evaluateVelocity field n.decay default d = evaluateVelocity field n'.decay default d
  others : { n with attack := none, decay := none } = { n' with attack := none, decay := none }

theorem Alike.refl (d : Dictionary) (n : NoteElement) : Alike d n n :=
  ⟨fun _ _ => rfl, fun _ _ => rfl, rfl⟩

theorem Alike.evaluate_eq (h : Alike d n n') (defaults : Defaults) :
    n.evaluate d defaults = n'.evaluate d defaults := by
  obtain ⟨hattack, hdecay, hothers⟩ := h
  cases n
  cases n'
  simp only [NoteElement.mk.injEq] at hothers
  obtain ⟨rfl, rfl, rfl, rfl, -, -, rfl, rfl, rfl⟩ := hothers
  unfold evaluate
  simp only [hattack, hdecay]
  rfl

theorem Alike.setVelocity (h : Alike d n n') (letter : Char) {e e' : Expr Byte}
    (heval : e.eval d = e'.eval d) :
    Alike d (Grammar.setVelocity n letter e) (Grammar.setVelocity n' letter e') := by
  have hvelocity (field : Field) (default : Byte) :
      evaluateVelocity field (some e) default d = evaluateVelocity field (some e') default d := by
    simp only [evaluateVelocity, heval]
  unfold Grammar.setVelocity
  split
  · exact ⟨hvelocity, h.decay, h.others⟩
  · exact ⟨h.attack, hvelocity, h.others⟩

theorem Alike.setVelocities (h : Alike d n n') (fields : List (Char × Expr Byte)) :
    Alike d (Grammar.setVelocities n fields) (Grammar.setVelocities n' fields) := by
  induction fields generalizing n n' with
  | nil => exact h
  | cons f fields ih => exact ih (h.setVelocity f.1 rfl)

/-- The velocity that a letter stands for. -/
def velocityOf (n : NoteElement) (letter : Char) : Option (Expr Byte) :=
  if letter = 'a' then n.attack else n.decay

theorem velocityOf_setVelocity (n : NoteElement) (letter : Char) (e : Expr Byte) :
    (Grammar.setVelocity n letter e).velocityOf letter = some e := by
  unfold velocityOf Grammar.setVelocity
  split <;> rfl

theorem velocityOf_setVelocity_of_ne {letter other : Char} (hletter : letter ∈ ['a', 'd'])
    (hother : other ∈ ['a', 'd']) (h : letter ≠ other) (n : NoteElement) (e : Expr Byte) :
    (Grammar.setVelocity n other e).velocityOf letter = n.velocityOf letter := by
  rcases List.mem_pair.1 hletter with rfl | rfl <;> rcases List.mem_pair.1 hother with rfl | rfl
  · exact absurd rfl h
  · rfl
  · rfl
  · exact absurd rfl h

/-- A velocity stays unless a later one has its letter. -/
theorem velocityOf_setVelocities {letter : Char} (hletter : letter ∈ ['a', 'd'])
    {fields : List (Char × Expr Byte)} (hfields : ∀ f ∈ fields, f.1 ∈ ['a', 'd'])
    (h : letter ∉ fields.map Prod.fst) (n : NoteElement) :
    (Grammar.setVelocities n fields).velocityOf letter = n.velocityOf letter := by
  induction fields generalizing n with
  | nil => rfl
  | cons f fields ih =>
    obtain ⟨hf, hfields⟩ := List.forall_mem_cons.1 hfields
    rw [List.map_cons, List.mem_cons, not_or] at h
    exact (ih hfields h.2 _).trans (velocityOf_setVelocity_of_ne hletter hf h.1 n f.2)

/-- A note whose velocity fails has no event. -/
theorem exists_ok_of_velocityOf {defaults : Defaults} {event : NoteEvent}
    (h : n.evaluate d defaults = .ok event) {letter : Char} {e : Expr Byte}
    (he : n.velocityOf letter = some e) : ∃ v, e.eval d = .ok v := by
  have hfields := evaluate_eq_ok h
  unfold velocityOf at he
  split at he
  · have hattack := hfields.attack
    rw [he] at hattack
    obtain ⟨v, hv, -⟩ := bind_eq_ok hattack
    exact ⟨v, hv⟩
  · have hdecay := hfields.decay
    rw [he] at hdecay
    obtain ⟨v, hv, -⟩ := bind_eq_ok hdecay
    exact ⟨v, hv⟩

end NoteElement

theorem collect_of_length_ne {notes : List NoteElement} (h : notes.length ≠ 1) :
    Grammar.collect notes = .noteCollection notes := by
  unfold Grammar.collect
  split
  · exact absurd rfl h
  · rfl

/-- What joined notes form depends on the events of the notes. -/
theorem evaluate_collect_congr {d : Dictionary} {defaults : Defaults}
    {notes notes' : List NoteElement}
    (h : notes.map (·.evaluate d defaults) = notes'.map (·.evaluate d defaults)) :
    (Grammar.collect notes).evaluate d defaults = (Grammar.collect notes').evaluate d defaults := by
  have hlength : notes.length = notes'.length := by simpa using congrArg List.length h
  by_cases hone : notes.length = 1
  · obtain ⟨n, rfl⟩ := List.length_eq_one_iff.1 hone
    obtain ⟨n', rfl⟩ := List.length_eq_one_iff.1 (hlength.symm.trans hone)
    have hn : n.evaluate d defaults = n'.evaluate d defaults := by simpa using h
    simp only [Grammar.collect, Element.evaluate, hn]
  · rw [collect_of_length_ne hone, collect_of_length_ne (hlength ▸ hone)]
    simp only [Element.evaluate, mapM_congr h]

theorem exists_ok_of_collect {d : Dictionary} {defaults : Defaults} {notes : List NoteElement}
    {event : Event} (h : (Grammar.collect notes).evaluate d defaults = .ok event) {n : NoteElement}
    (hn : n ∈ notes) : ∃ event, n.evaluate d defaults = .ok event := by
  by_cases hone : notes.length = 1
  · obtain ⟨n', rfl⟩ := List.length_eq_one_iff.1 hone
    rw [List.mem_singleton.1 hn]
    obtain ⟨event, hevent, -⟩ := bind_eq_ok h
    exact ⟨event, hevent⟩
  · rw [collect_of_length_ne hone] at h
    obtain ⟨events, hevents, -⟩ := bind_eq_ok h
    exact exists_ok_of_mapM hevents hn

theorem dependsOn_velocity {letter : Char} (hletter : letter ∈ ['a', 'd'])
    {fields : List (Char × Expr Byte)} (hfields : ∀ f ∈ fields, f.1 ∈ ['a', 'd'])
    (notes notes' : List NoteElement) (note : NoteElement) :
    DependsOn (letter ∉ fields.map Prod.fst) 0 255 fun e => Grammar.collect
      (notes ++ [Grammar.setVelocities (Grammar.setVelocity note letter e) fields] ++ notes') where
  congr d defaults e e' heval := by
    refine evaluate_collect_congr ?_
    have halike := ((NoteElement.Alike.refl d note).setVelocity letter heval).setVelocities fields
    simp [halike.evaluate_eq defaults]
  needs hused d defaults e event h := by
    obtain ⟨noteEvent, hnote⟩ := exists_ok_of_collect h
      (List.mem_append_left _ (List.mem_append_right _ (List.mem_singleton_self _)))
    have hvelocity := NoteElement.velocityOf_setVelocities hletter hfields (of_decide_eq_true hused)
      (Grammar.setVelocity note letter e)
    rw [NoteElement.velocityOf_setVelocity] at hvelocity
    obtain ⟨v, hv⟩ := NoteElement.exists_ok_of_velocityOf hnote hvelocity
    exact ⟨v, hv, v.lo_le, v.le_hi⟩

end MusicString

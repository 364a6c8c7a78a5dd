import MusicString.Proofs.Environment.Firing
import MusicString.Proofs.Grammar.OpenField
import MusicString.Proofs.Element.Evaluate

/-!
# Joined notes

A text that is read as a single note is read as the same note where others are joined to it, before
and behind it: the mark between two notes ends every optional part of the first, and only says how
the second is placed.

* `NoteElement.placed`: placing a note in another way commutes with reading (`Grammar.note_placed`)
  and with evaluating it (`NoteElement.evaluate_placed`);
* `Grammar.ReadsAsNote`, `Grammar.ReadsAsNote.note_append`;
* `Evaluation.FirstError`: a list fails with the error of its first member that fails;
* `Grammar.noteToken_joined`: a collection is the sequence of its notes.
-/

namespace MusicString

open Read Evaluation

/-! ### Placements -/

/-- The mark that joins a note to the one before it. -/
def Placement.mark : Placement → Char
  | sequential => '_'
  | parallel => '+'

theorem Placement.mark_mem (placement : Placement) : placement.mark ∈ ['+', '_'] := by
  cases placement <;> decide

/-- The same note, placed in another way. -/
def NoteElement.placed (n : NoteElement) (placement : Placement) : NoteElement :=
  { n with placement }

/-- The same event, placed in another way. -/
def NoteEvent.placed (n : NoteEvent) (placement : Placement) : NoteEvent :=
  { n with placement }

namespace Read

variable {α : Type}

theorem iterateUpTo_map {step : α → Read (Option α)} {g : α → α}
    (h : ∀ a, step (g a) = Option.map g <$> step a) (n : Nat) (a : α) :
    iterateUpTo step n (g a) = g <$> iterateUpTo step n a := by
  induction n generalizing a with
  | zero => rw [iterateUpTo, iterateUpTo, map_pure]
  | succ n ih =>
    rw [iterateUpTo, iterateUpTo, h, bind_map_left, map_bind]
    refine bind_congr fun next => ?_
    cases next with
    | none => exact (map_pure g a).symm
    | some b => exact ih b

theorem iterate_map {step : α → Read (Option α)} {g : α → α}
    (h : ∀ a, step (g a) = Option.map g <$> step a) (a : α) :
    iterate step (g a) = g <$> iterate step a := by
  rw [iterate, iterate, map_bind]
  exact bind_congr fun c => iterateUpTo_map h _ a

end Read

namespace Grammar

theorem leadingTie_placed (n : NoteElement) (placement : Placement) :
    leadingTie (n.placed placement) = (·.placed placement) <$> leadingTie n := by
  simp only [leadingTie, map_bind]
  refine bind_congr fun next => ?_
  split
  · simp only [map_bind, map_pure]
    refine bind_congr fun after => bind_congr fun _ => ?_
    split <;> rfl
  · exact (map_pure _ _).symm

theorem velocity_placed (n : NoteElement) (placement : Placement) :
    velocity (n.placed placement) = Option.map (·.placed placement) <$> velocity n := by
  simp only [velocity, map_bind]
  refine bind_congr fun attack => ?_
  cases attack with
  | true =>
    simp only [↓reduceIte, map_bind, map_pure]
    rfl
  | false =>
    simp only [Bool.false_eq_true, ↓reduceIte, map_bind]
    refine bind_congr fun decay => ?_
    cases decay with
    | true =>
      simp only [↓reduceIte, map_bind, map_pure]
      rfl
    | false => rfl

/-- A note is read in the same way, however it is placed. -/
theorem note_placed (placement : Placement) :
    note placement = (·.placed placement) <$> note .sequential := by
  simp only [note, noteFrom, map_bind]
  refine bind_congr fun value => bind_congr fun chord => ?_
  have hbase : ({ value, chord, placement } : NoteElement) =
      ({ value, chord, placement := .sequential } : NoteElement).placed placement := rfl
  rw [hbase, leadingTie_placed, bind_map_left]
  refine bind_congr fun base => bind_congr fun duration => bind_congr fun tuplet =>
    bind_congr fun tied => ?_
  exact iterate_map (fun n => velocity_placed n placement)
    { base with duration, tuplet, tieStart := base.tieStart || tied }

/-! ### Notes behind one another -/

/-- The text is read as a single note, to its end. -/
def ReadsAsNote (text : List Char) (n : NoteElement) : Prop :=
  ∃ c, noteToken (.start text) = .ok (.note n) c ∧ c.rest = []

/-- What is read as a single note is the first note of the token, and all of it. -/
theorem ReadsAsNote.first {text : List Char} {n : NoteElement} (h : ReadsAsNote text n) :
    ∃ c, note .sequential (.start text) = .ok n c ∧ c.rest = [] := by
  obtain ⟨c, htoken, hend⟩ := h
  obtain ⟨first, d, hfirst, htoken⟩ := bind_eq_ok htoken
  obtain ⟨notes, e, hjoined, hcollect⟩ := bind_eq_ok htoken
  rcases iterateUpTo_joined hjoined with ⟨rfl, rfl⟩ | hlt
  · cases hcollect
    exact ⟨c, hfirst, hend⟩
  · match notes, hlt with
    | first :: second :: later, _ => cases hcollect

theorem ReadsAsNote.mem {text : List Char} {n : NoteElement} (h : ReadsAsNote text n) :
    text ∈ NoteText.note := by
  obtain ⟨c, hread, hend⟩ := h.first
  obtain ⟨t, ht, head, u, v, rfl, hu, hv⟩ := (meets_note .sequential).sound hread
  rw [hend, List.append_nil] at ht
  rw [show text = u ++ v from ht]
  exact Language.append_mem_mul hu.mem (mem_velocities hv)

/-- A text that is read as a single note is read as that note wherever it is joined to others. -/
theorem ReadsAsNote.note_append {text : List Char} {n : NoteElement} (h : ReadsAsNote text n)
    (placement : Placement) (k : Nat) {rest : List Char} (hrest : rest ∈ NoteText.afterNote) :
    note placement ⟨k, text ++ rest⟩ = .ok (n.placed placement) ⟨k + text.length, rest⟩ := by
  obtain ⟨c, hread, -⟩ := h.first
  obtain ⟨m, hm⟩ := exists_note .sequential h.mem
  have hmn : m = n := by
    have halone := hm 0 [] NoteText.nil_mem_afterNote
    rw [List.append_nil] at halone
    cases halone.symm.trans hread
    rfl
  rw [note_placed, map_eq_pure_bind, bind_of_ok (hm k rest hrest), hmn]
  rfl

/-- A note that stands alone follows the one before it. -/
theorem ReadsAsNote.placed_sequential {text : List Char} {n : NoteElement}
    (h : ReadsAsNote text n) : n.placed .sequential = n := by
  obtain ⟨c, hread, -⟩ := h.first
  have halone := h.note_append .sequential 0 NoteText.nil_mem_afterNote
  rw [List.append_nil] at halone
  injection halone.symm.trans hread

end Grammar

/-- A note that is joined to the one before it: how it is placed, its text and what that spells. -/
structure JoinedNote where
  placement : Placement
  text : List Char
  note : NoteElement

namespace JoinedNote

/-- The note as a member of the collection. -/
def element (j : JoinedNote) : NoteElement :=
  j.note.placed j.placement

/-- The texts of joined notes, with its mark before each. -/
def texts (later : List JoinedNote) : List Char :=
  later.flatMap fun j => j.placement.mark :: j.text

end JoinedNote

namespace Grammar

theorem texts_mem_afterNote (later : List JoinedNote) :
    JoinedNote.texts later ∈ NoteText.afterNote := by
  cases later with
  | nil => exact NoteText.nil_mem_afterNote
  | cons j later => exact NoteText.cons_mem_afterNote j.placement.mark_mem _

theorem noteAfter_mark (placement : Placement) : noteAfter placement.mark = note placement := by
  cases placement <;> rfl

/-- Joined notes are all added to those before them. -/
theorem iterate_joined {later : List JoinedNote} (h : ∀ j ∈ later, ReadsAsNote j.text j.note)
    (notes : List NoteElement) (k : Nat) :
    iterate joined notes ⟨k, JoinedNote.texts later⟩ =
      .ok (notes ++ later.map (·.element)) ⟨k + (JoinedNote.texts later).length, []⟩ := by
  induction later generalizing notes k with
  | nil =>
    show iterateUpTo joined (0 + 1) notes ⟨k, []⟩ = _
    rw [iterateUpTo_succ, divided_joined.stop, List.map_nil, List.append_nil]
    rfl
  | cons j later ih =>
    obtain ⟨hj, hlater⟩ := List.forall_mem_cons.1 h
    have hread := hj.note_append j.placement (k + 1) (texts_mem_afterNote later)
    have hlength : k + (JoinedNote.texts (j :: later)).length =
        k + 1 + j.text.length + (JoinedNote.texts later).length := by
      simp only [JoinedNote.texts, List.flatMap_cons, List.length_append, List.length_cons]
      omega
    show iterate joined notes ⟨k, j.placement.mark :: (j.text ++ JoinedNote.texts later)⟩ = _
    rw [divided_joined.iterate_mark notes j.placement.mark_mem, noteAfter_mark, bind_of_ok hread,
      ih hlater, hlength, List.append_assoc]
    rfl

/-- Notes that are joined to a first one form a collection with it. -/
theorem noteToken_append_texts {first : List Char} {n : NoteElement} {later : List JoinedNote}
    (hfirst : ReadsAsNote first n) (hlater : ∀ j ∈ later, ReadsAsNote j.text j.note)
    (hne : later ≠ []) :
    noteToken (.start (first ++ JoinedNote.texts later)) =
      .ok (.noteCollection (n :: later.map (·.element)))
        ⟨(first ++ JoinedNote.texts later).length, []⟩ := by
  have hread := hfirst.note_append .sequential 0 (texts_mem_afterNote later)
  have hcollect : collect ([n] ++ later.map (·.element)) =
      .noteCollection (n :: later.map (·.element)) := by
    obtain ⟨j, later, rfl⟩ := List.exists_cons_of_ne_nil hne
    rfl
  rw [hfirst.placed_sequential, Nat.zero_add] at hread
  refine (bind_of_ok hread).trans ((bind_of_ok (iterate_joined hlater _ _)).trans ?_)
  rw [hcollect, List.length_append]
  rfl

end Grammar

/-! ### Evaluation -/

theorem NoteElement.evaluate_placed (n : NoteElement) (placement : Placement) (d : Dictionary)
    (defaults : Defaults) :
    (n.placed placement).evaluate d defaults = (·.placed placement) <$> n.evaluate d defaults := by
  have hchord : (n.placed placement).chord = n.chord := rfl
  simp only [evaluate, map_bind]
  refine bind_congr fun value => bind_congr fun duration => bind_congr fun attack =>
    bind_congr fun decay => ?_
  rw [hchord]
  cases n.chord with
  | none => rfl
  | some chord =>
    simp only [map_bind]
    rfl

namespace Evaluation

variable {ε α β : Type} {f : α → Except ε β} {l : List α}

/-- The first member of the list that cannot be evaluated fails with this error. -/
def FirstError (f : α → Except ε β) (l : List α) (e : ε) : Prop :=
  ∃ before a after, l = before ++ a :: after ∧ (∀ b ∈ before, ∃ x, f b = .ok x) ∧ f a = .error e

theorem mapM_of_forall₂ {l' : List β} (h : List.Forall₂ (fun a b => f a = .ok b) l l') :
    l.mapM f = .ok l' := by
  induction h with
  | nil => rfl
  | cons hab _ ih =>
    rw [List.mapM_cons, hab, ih]
    rfl

theorem mapM_of_firstError {e : ε} (h : FirstError f l e) : l.mapM f = .error e := by
  obtain ⟨before, a, after, rfl, hbefore, ha⟩ := h
  induction before with
  | nil =>
    rw [List.nil_append, List.mapM_cons, ha]
    rfl
  | cons b before ih =>
    obtain ⟨⟨x, hx⟩, hbefore⟩ := List.forall_mem_cons.1 hbefore
    rw [List.cons_append, List.mapM_cons, hx, ih hbefore]
    rfl

/-- A list is evaluated exactly if each of its members is. -/
theorem exists_mapM_eq_ok_iff : (∃ l', l.mapM f = .ok l') ↔ ∀ a ∈ l, ∃ b, f a = .ok b := by
  constructor
  · rintro ⟨l', h⟩ a ha
    exact exists_ok_of_mapM h ha
  · intro h
    induction l with
    | nil => exact ⟨[], rfl⟩
    | cons a l ih =>
      obtain ⟨⟨b, hb⟩, hl⟩ := List.forall_mem_cons.1 h
      obtain ⟨l', hl'⟩ := ih hl
      refine ⟨b :: l', ?_⟩
      rw [List.mapM_cons, hb, hl']
      rfl

end Evaluation

namespace JoinedNote

variable {d : Dictionary} {defaults : Defaults} {j : JoinedNote} {js : List JoinedNote}

theorem evaluate_of_ok {event : NoteEvent} (h : j.note.evaluate d defaults = .ok event) :
    j.element.evaluate d defaults = .ok (event.placed j.placement) := by
  rw [element, NoteElement.evaluate_placed, h]
  rfl

theorem evaluate_of_error {e : EvalError} (h : j.note.evaluate d defaults = .error e) :
    j.element.evaluate d defaults = .error e := by
  rw [element, NoteElement.evaluate_placed, h]
  rfl

theorem exists_evaluate_iff : (∃ event, j.element.evaluate d defaults = .ok event) ↔
    ∃ event, j.note.evaluate d defaults = .ok event := by
  constructor
  · rintro ⟨event, h⟩
    cases hnote : j.note.evaluate d defaults with
    | ok event => exact ⟨event, rfl⟩
    | error e => cases (evaluate_of_error hnote).symm.trans h
  · rintro ⟨event, h⟩
    exact ⟨_, evaluate_of_ok h⟩

theorem forall₂_element {events : List NoteEvent}
    (h : List.Forall₂ (fun j event => j.note.evaluate d defaults = .ok event) js events) :
    List.Forall₂ (fun n event => NoteElement.evaluate n d defaults = .ok event)
      (js.map (·.element)) (List.zipWith (fun j event => event.placed j.placement) js events) := by
  induction h with
  | nil => exact .nil
  | cons hnote _ ih => exact .cons (evaluate_of_ok hnote) ih

/-- Placing notes does not change which of them fails first. -/
theorem firstError_element {e : EvalError}
    (h : FirstError (·.evaluate d defaults) (js.map (·.note)) e) :
    FirstError (·.evaluate d defaults) (js.map (·.element)) e := by
  obtain ⟨before, m, after, hsplit, hbefore, hm⟩ := h
  obtain ⟨earlier, later, rfl, rfl, hlater⟩ := List.map_eq_append_iff.1 hsplit
  obtain ⟨j, later, rfl, rfl, rfl⟩ := List.map_eq_cons_iff.1 hlater
  refine ⟨earlier.map (·.element), j.element, later.map (·.element), ?_, ?_, evaluate_of_error hm⟩
  · rw [List.map_append, List.map_cons]
  · simp only [List.forall_mem_map] at hbefore ⊢
    exact fun i hi => exists_evaluate_iff.2 (hbefore i hi)

end JoinedNote

/-! ### Collections -/

theorem Element.evaluate_noteCollection_of_firstError {notes : List NoteElement} {d : Dictionary}
    {defaults : Defaults} {e : EvalError} (h : FirstError (·.evaluate d defaults) notes e) :
    (Element.noteCollection notes).evaluate d defaults = .error e := by
  simp only [Element.evaluate, mapM_of_firstError h]
  rfl

theorem Element.exists_evaluate_noteCollection_iff {notes : List NoteElement} {d : Dictionary}
    {defaults : Defaults} :
    (∃ event, (Element.noteCollection notes).evaluate d defaults = .ok event) ↔
      ∀ n ∈ notes, ∃ event, n.evaluate d defaults = .ok event := by
  rw [← exists_mapM_eq_ok_iff]
  constructor
  · rintro ⟨event, h⟩
    obtain ⟨events, hevents, -⟩ := bind_eq_ok h
    exact ⟨events, hevents⟩
  · rintro ⟨events, hevents⟩
    refine ⟨.noteCollection events, ?_⟩
    simp only [Element.evaluate, hevents]
    rfl

/--
**A collection is the sequence of its notes.**  Texts that are each read as a single note, with marks
between them, are read as the collection of these notes, each placed as the mark before it says.
The collection is evaluated exactly if each note is, to the same events, and otherwise fails with
the error of the first note that fails, before anything is offered to a listener.
-/
theorem Grammar.noteToken_joined {first : List Char} {n : NoteElement} {later : List JoinedNote}
    (hfirst : ReadsAsNote first n) (hlater : ∀ j ∈ later, ReadsAsNote j.text j.note)
    (hne : later ≠ []) :
    let text := first ++ JoinedNote.texts later
    let collection := Element.noteCollection (n :: later.map (·.element))
    noteToken (.start text) = .ok collection ⟨text.length, []⟩ ∧
    ∀ (d : Dictionary) (defaults : Defaults),
      ((∃ event, collection.evaluate d defaults = .ok event) ↔
        ∀ m ∈ n :: later.map (·.note), ∃ event, m.evaluate d defaults = .ok event) ∧
      (∀ event events, n.evaluate d defaults = .ok event →
        List.Forall₂ (fun j event => j.note.evaluate d defaults = .ok event) later events →
        collection.evaluate d defaults = .ok (.noteCollection
          (event :: List.zipWith (fun j event => event.placed j.placement) later events))) ∧
      ∀ e, FirstError (·.evaluate d defaults) (n :: later.map (·.note)) e →
        collection.evaluate d defaults = .error e ∧
        ∀ (σ : Type) (env : Environment σ) (position : Nat), env.dictionary = d →
          env.defaults = defaults →
          Environment.fire collection position env = .error (.evaluation e position) env := by
  intro text collection
  -- The first note is placed already, so it can be treated as one of the joined ones.
  let member : JoinedNote := ⟨n.placement, first, n⟩
  have hmembers : collection = .noteCollection ((member :: later).map (·.element)) := rfl
  refine ⟨?_, fun d defaults => ⟨?_, fun event events hevent hevents => ?_, fun e he => ?_⟩⟩
  · exact noteToken_append_texts hfirst hlater hne
  · rw [hmembers, Element.exists_evaluate_noteCollection_iff]
    show _ ↔ ∀ m ∈ (member :: later).map (·.note), _
    simp only [List.forall_mem_map, JoinedNote.exists_evaluate_iff]
  · have hall := mapM_of_forall₂ (f := fun m : NoteElement => m.evaluate d defaults)
      (.cons hevent (JoinedNote.forall₂_element hevents))
    simp only [collection, Element.evaluate, hall]
    rfl
  · have hfirstError : FirstError (·.evaluate d defaults) ((member :: later).map (·.note)) e := he
    have herror := Element.evaluate_noteCollection_of_firstError
      (JoinedNote.firstError_element hfirstError)
    refine ⟨herror, fun σ env position hd hdefaults => ?_⟩
    subst hd hdefaults
    exact Environment.fire_of_error herror position

/-- A tie, a name that holds a mark, and a rest, where the name is not defined. -/
theorem Grammar.noteToken_joined_undefined :
    let tied : NoteElement := { value := .pitch 0 none, tieStart := true }
    let named : NoteElement := { value := .numeric (.reference "a+b") }
    let silent : NoteElement :=
      { value := .rest, duration := some (.literal (Length.ofLetters ['w'])) }
    let collection := Element.noteCollection [tied, named.placed .parallel, silent]
    ReadsAsNote "C-".toList tied ∧ ReadsAsNote "[a+b]".toList named ∧
      ReadsAsNote "Rw".toList silent ∧
      noteToken (.start "C-+[a+b]_Rw".toList) = .ok collection ⟨11, []⟩ ∧
      collection.evaluate .empty { } = .error (.undefinedKey "a+b") := by
  intro tied named silent collection
  have htied : ReadsAsNote "C-".toList tied := ⟨⟨2, []⟩, rfl, rfl⟩
  have hnamed : ReadsAsNote "[a+b]".toList named := ⟨⟨5, []⟩, rfl, rfl⟩
  have hsilent : ReadsAsNote "Rw".toList silent := ⟨⟨2, []⟩, rfl, rfl⟩
  let later : List JoinedNote :=
    [⟨.parallel, "[a+b]".toList, named⟩, ⟨.sequential, "Rw".toList, silent⟩]
  have hlater : ∀ j ∈ later, ReadsAsNote j.text j.note :=
    List.forall_mem_cons.2 ⟨hnamed, List.forall_mem_singleton.2 hsilent⟩
  obtain ⟨hread, hevaluate⟩ := noteToken_joined htied hlater (List.cons_ne_nil _ _)
  have hevent : ∃ event, NoteElement.evaluate { value := .pitch 0 none, tieStart := true } .empty
      { } = .ok event := ⟨_, rfl⟩
  have herror : FirstError (·.evaluate .empty { }) [tied, named, silent] (.undefinedKey "a+b") :=
    ⟨[tied], named, [silent], rfl, List.forall_mem_singleton.2 hevent, rfl⟩
  exact ⟨htied, hnamed, hsilent, hread, ((hevaluate .empty { }).2.2 _ herror).1⟩

end MusicString

import MusicString.Grammar.Token
import MusicString.Proofs.Grammar.NoteLanguage
import MusicString.Proofs.Read.Literal

/-!
# Tokens with an open field

A token whose integer field is left open is a text before the field and a text after it.  However
the field is filled, reading the token comes down to reading the field: what stands before it is
taken in the same way, and what stands after it is taken once the field is.

* `OpenField`: the open fields of all kinds of tokens;
* `Hole`: reading a token comes down to reading its field;
* `Divided`: lists with marks between their items, such as bytes with commas and joined notes;
* `hole_voice`, `exists_hole_byte`, `exists_hole_velocity` and others: every open field is a hole.
-/

namespace MusicString.Grammar

open Read Text NoteText
open scoped Computability

variable {d : Dictionary} {α β : Type}

/-! ### The fields -/

/-- A number with a sign that is an int. -/
def signedText : Language Char :=
  {t | ∃ negative ds, t = sign negative ++ ds ∧ ds ≠ [] ∧ IsDigits ds ∧
    -2147483648 ≤ Decimal.signed negative (Decimal.value ds) ∧
    Decimal.signed negative (Decimal.value ds) ≤ 2147483647}

/-- An int: a number, or a reference to one. -/
def integerText : Language Char :=
  signedText + NoteText.reference

/--
The integer fields of tokens, each as what stands before it and what stands after it.  All of them
are *used*, except for a velocity that a later one of the same note replaces.
-/
inductive OpenField : Bool → List Char → List Char → Prop
  | single {x : Char} : x ∈ ['V', 'L', 'I', '+', 'T', '&', '@'] → OpenField true [x] []
  | controllerIndex {value : List Char} : value ∈ integerText →
    OpenField true ['X'] ('=' :: value)
  | controllerValue {index : List Char} : index ∈ integerText →
    OpenField true ('X' :: (index ++ ['='])) []
  | key {pressure : List Char} : pressure ∈ NoteText.byte → OpenField true ['*'] (',' :: pressure)
  | pressure {key : List Char} : key ∈ NoteText.byte → OpenField true ('*' :: (key ++ [','])) []
  | byte {earlier later : List Char} : earlier ∈ (NoteText.byte * oneOf [','])∗ →
    later ∈ (oneOf [','] * NoteText.byte)∗ → OpenField true ("^dec:".toList ++ earlier) later
  | velocity {earlier head more : List Char} {vs ws : List (Char × List Char)} {letter : Char} :
    earlier ∈ (NoteText.note * oneOf ['+', '_'])∗ → head ∈ NoteText.head →
    (∀ v ∈ vs, IsVelocity v) → letter ∈ ['a', 'd'] → (∀ w ∈ ws, IsVelocity w) →
    more ∈ (oneOf ['+', '_'] * NoteText.note)∗ →
    OpenField (letter ∉ ws.map Prod.fst)
      (earlier ++ (head ++ (velocityText vs ++ [letter]))) (velocityText ws ++ more)

theorem NoteText.startsField_ofInt (n : Int) (rest : List Char) :
    StartsField (Decimal.ofInt n ++ rest) := by
  rw [ofInt_eq]
  cases decide (n < 0) with
  | true => exact ⟨'-', rfl, .inr (.inl rfl)⟩
  | false => exact startsField_of_digits (isDigits_digits _) (digits_ne_nil _) rest

/--
However the field between `before` and `after` is filled, reading the token is reading the field,
and then what comes after it, which gives an element that is made of the field.
-/
structure Hole (d : Dictionary) (r : Read (Expr α)) (before after : List Char)
    (build : Expr α → Element) : Prop where
  starts : ∃ x, before.head? = some x ∧ isWhiteSpace x = false
  /-- The digits of a number do not go on after the field. -/
  stops : after.head?.any Char.isDigit = false
  reads : ∃ rest : Expr α → Read Element,
    (∀ t, StartsField (t ++ after) → element d (.start (before ++ (t ++ after))) =
      (r >>= rest) ⟨before.length, t ++ after⟩) ∧
    ∀ e k, rest e ⟨k, after⟩ = .ok (build e) ⟨k + after.length, []⟩

theorem Hole.exists_head? {r : Read (Expr α)} {before after : List Char} {build : Expr α → Element}
    (h : Hole d r before after build) (t : List Char) :
    ∃ x, (before ++ (t ++ after)).head? = some x ∧ isWhiteSpace x = false := by
  obtain ⟨x, hx, hblank⟩ := h.starts
  exact ⟨x, by rw [List.head?_append, hx]; rfl, hblank⟩

theorem bind_congr_apply {r s : Read α} (k : α → Read β) {c e : Cursor} (h : r c = s e) :
    (r >>= k) c = (s >>= k) e := by
  show EStateM.bind r k c = EStateM.bind s k e
  unfold EStateM.bind
  rw [h]

/-! ### The rule that claims a token -/

/-- A token is read by the first rule that does not decline it. -/
theorem element_of_rule {rule : TokenRule} {later : List TokenRule} {body : Read Element}
    {c e : Cursor} (h : firstClaim d rules c = firstClaim d (rule :: later) c)
    (hread : rule.read d c = (do return some (← body) : Read (Option Element)) e) :
    element d c = body e := by
  cases hbody : body e with
  | ok claimed e' =>
    rw [bind_of_ok hbody] at hread
    exact element_of_claim (h.trans (bind_of_ok hread))
  | error err e' =>
    rw [bind_of_error _ hbody] at hread
    exact bind_of_error _ (h.trans (bind_of_error _ hread))

theorem element_marked {x : Char} {label : String} {body : Read Element} {later : List TokenRule}
    {k : Nat} {rest : List Char}
    (h : firstClaim d rules ⟨k, x :: rest⟩ =
      firstClaim d (marked label x body :: later) ⟨k, x :: rest⟩) :
    element d ⟨k, x :: rest⟩ = body ⟨k + 1, rest⟩ := by
  have heat : eat x ⟨k, x :: rest⟩ = .ok true ⟨k + 1, rest⟩ := eat_of_peek rfl
  exact element_of_rule h (bind_of_ok heat)

/-- No mark is a bracket. -/
theorem firstClaim_bracket (rest : List Char) : firstClaim d rules ⟨0, '[' :: rest⟩ =
    firstClaim d [referenceRule, noteRule] ⟨0, '[' :: rest⟩ := rfl

/-- A token that is nothing but a reference is what the role of its entry says. -/
theorem element_reference {name : String} (hname : name.toList ∈ nameText)
    (hdigits : Decimal.allDigits name.toList = false) {entry : Entry}
    (hentry : d.get? name = some entry) : element d (.start (bracketed name.toList)) =
      .ok (referenceElement name entry.role) ⟨(bracketed name.toList).length, []⟩ := by
  have hread : reference ⟨0, bracketed name.toList⟩ =
      .ok (some name) ⟨(bracketed name.toList).length, []⟩ := by
    simpa using reference_bracketed hname 0 []
  have hclaims : referenceRule.read d ⟨0, bracketed name.toList⟩ =
      .ok (some (referenceElement name entry.role)) ⟨(bracketed name.toList).length, []⟩ := by
    refine (bind_of_ok hread).trans ?_
    show (if (!true || Decimal.allDigits name.toList) = true then _ else _ :
      Read (Option Element)) _ = _
    rw [if_neg (by simp [hdigits]), hentry]
    rfl
  exact element_of_claim ((firstClaim_bracket _).trans (bind_of_ok hclaims))

/-! ### Tokens of one or two fields -/

/-- The field is all that follows the mark. -/
theorem hole_marked {x : Char} {build : Expr α → Element} {r : Read (Expr α)} (label : String)
    (later : List TokenRule) (hx : isWhiteSpace x = false)
    (h : ∀ rest, firstClaim d rules ⟨0, x :: rest⟩ =
      firstClaim d (marked label x (build <$> r) :: later) ⟨0, x :: rest⟩) :
    Hole d r [x] [] build where
  starts := ⟨x, rfl, hx⟩
  stops := rfl
  reads := by
    refine ⟨fun e => pure (build e), fun t _ => ?_, fun e k => rfl⟩
    rw [bind_pure_comp]
    exact element_marked (h _)

theorem hole_voice : Hole d byteExpr ['V'] [] .voice :=
  hole_marked "voice" (rules.drop 4) rfl fun _ => rfl

theorem hole_layer : Hole d byteExpr ['L'] [] .layer :=
  hole_marked "layer" (rules.drop 5) rfl fun _ => rfl

theorem hole_tempo : Hole d intExpr ['T'] [] .tempo :=
  hole_marked "tempo" (rules.drop 6) rfl fun _ => rfl

theorem hole_instrument : Hole d byteExpr ['I'] [] .instrument :=
  hole_marked "instrument" (rules.drop 7) rfl fun _ => rfl

theorem hole_time : Hole d longExpr ['@'] [] .time :=
  hole_marked "time" (rules.drop 10) rfl fun _ => rfl

theorem hole_pitchBend : Hole d intExpr ['&'] [] .pitchBend :=
  hole_marked "pitch bend" (rules.drop 12) rfl fun _ => rfl

theorem hole_channelPressure : Hole d byteExpr ['+'] [] .channelPressure :=
  hole_marked "channel pressure" (rules.drop 13) rfl fun _ => rfl

section TwoFields

variable {x mark : Char} {r : Read (Expr α)}
  {P : List Char → Expr α → List Char → Prop} {build : Expr α → Expr α → Element}

theorem expect_apply (mark : Char) (k : Nat) (rest : List Char) :
    expect mark ⟨k, mark :: rest⟩ = .ok () ⟨k + 1, rest⟩ :=
  (meets_expect mark).complete (a := ()) (t := [mark]) rfl k

/-- Two fields with a mark between them, of which the first is open. -/
theorem hole_first (label : String) (later : List TokenRule) (hx : isWhiteSpace x = false)
    (h : ∀ rest, firstClaim d rules ⟨0, x :: rest⟩ =
      firstClaim d (marked label x (do
        let e ← r
        expect mark
        return build e (← r)) :: later) ⟨0, x :: rest⟩)
    (hmark : mark.isDigit = false) (hr : r.Meets P) {second : List Char} {v : Expr α}
    (hv : P second v []) : Hole d r [x] (mark :: second) fun e => build e v where
  starts := ⟨x, rfl, hx⟩
  stops := hmark
  reads := by
    refine ⟨fun e => do expect mark; return build e (← r), fun t _ => element_marked (h _),
      fun e k => ?_⟩
    have hsecond := hr.complete hv (k + 1)
    rw [List.append_nil] at hsecond
    have hlength : k + (mark :: second).length = k + 1 + second.length := by
      rw [List.length_cons]
      omega
    rw [hlength]
    exact (bind_of_ok (expect_apply mark k second)).trans (bind_of_ok hsecond)

/-- Two fields with a mark between them, of which the second is open. -/
theorem hole_second (label : String) (later : List TokenRule) (hx : isWhiteSpace x = false)
    (h : ∀ rest, firstClaim d rules ⟨0, x :: rest⟩ =
      firstClaim d (marked label x (do
        let e ← r
        expect mark
        return build e (← r)) :: later) ⟨0, x :: rest⟩)
    (hr : r.Meets P) {first : List Char} {e : Expr α} (he : ∀ rest, P first e (mark :: rest)) :
    Hole d r (x :: (first ++ [mark])) [] fun v => build e v where
  starts := ⟨x, rfl, hx⟩
  stops := rfl
  reads := by
    refine ⟨fun v => pure (build e v), fun t _ => ?_, fun v k => rfl⟩
    have htext : x :: (first ++ [mark]) ++ (t ++ []) = x :: (first ++ mark :: (t ++ [])) := by simp
    have hlength : (x :: (first ++ [mark])).length = 0 + 1 + first.length + 1 := by
      simp
      omega
    rw [htext, hlength, Cursor.start, element_marked (h _), bind_of_ok (hr.complete (he _) _),
      bind_of_ok (expect_apply mark _ _)]

end TwoFields

theorem exists_spelledExpr_integer {t : List Char} (h : t ∈ integerText) :
    ∃ e, ∀ rest : List Char, rest.head?.any Char.isDigit = false →
      SpelledExpr SpelledInteger t e rest := by
  rcases h with ⟨negative, ds, rfl, hne, hdigits, hlo, hhi⟩ | ⟨name, hname, rfl⟩
  · refine ⟨.literal ⟨_, hlo, hhi⟩, fun rest hrest => .literal (head?_sign_digits hdigits hne _ _)
      ⟨⟨_, Int.le_trans (by decide) hlo, Int.le_trans hhi (by decide)⟩,
        ⟨negative, ds, rfl, hne, hdigits, hrest, longOfSize?_eq_some.2 ⟨?_, rfl⟩⟩, rfl⟩⟩
    unfold Value.maxLong
    cases negative <;> simp only [Decimal.signed, Bool.false_eq_true, ↓reduceIte] at hlo hhi <;>
      omega
  · obtain ⟨e, he⟩ := exists_spelledExpr_bracketed hname
    exact ⟨e, fun rest _ => he rest⟩

theorem exists_hole_controllerIndex {value : List Char} (h : value ∈ integerText) :
    ∃ v, Hole d intExpr ['X'] ('=' :: value) fun index => .controller index v := by
  obtain ⟨v, hv⟩ := exists_spelledExpr_integer h
  exact ⟨v, hole_first "controller" (rules.drop 9) rfl (fun _ => rfl) rfl (meets_expr meets_integer)
    (hv [] rfl)⟩

theorem exists_hole_controllerValue {index : List Char} (h : index ∈ integerText) :
    ∃ i, Hole d intExpr ('X' :: (index ++ ['='])) [] (.controller i) := by
  obtain ⟨i, hi⟩ := exists_spelledExpr_integer h
  exact ⟨i, hole_second "controller" (rules.drop 9) rfl (fun _ => rfl) (meets_expr meets_integer)
    fun _ => hi _ rfl⟩

theorem exists_hole_key {pressure : List Char} (h : pressure ∈ NoteText.byte) :
    ∃ p, Hole d byteExpr ['*'] (',' :: pressure) fun key => .polyphonicPressure key p := by
  obtain ⟨p, hp⟩ := exists_spelledExpr_byte h
  exact ⟨p, hole_first "polyphonic pressure" (rules.drop 14) rfl (fun _ => rfl) rfl
    (meets_expr meets_decimalByte) (hp [] rfl)⟩

theorem exists_hole_pressure {key : List Char} (h : key ∈ NoteText.byte) :
    ∃ k, Hole d byteExpr ('*' :: (key ++ [','])) [] (.polyphonicPressure k) := by
  obtain ⟨k, hk⟩ := exists_spelledExpr_byte h
  exact ⟨k, hole_second "polyphonic pressure" (rules.drop 14) rfl (fun _ => rfl)
    (meets_expr meets_decimalByte) fun _ => hk _ rfl⟩

/-! ### Lists with marks between their items -/

/--
A step that adds an item to a list: it takes a mark, and an item that may depend on the mark.  An
item of the language is taken up to the next mark.
-/
structure Divided (step : List β → Read (Option (List β))) (item : Char → Read β)
    (marks : List Char) (L : Language Char) : Prop where
  shortens : ∀ items c items' e, step items c = .ok (some items') e → e.rest.length < c.rest.length
  next : ∀ items, ∀ mark ∈ marks, ∀ k rest, step items ⟨k, mark :: rest⟩ =
    (do return some (items ++ [← item mark]) : Read _) ⟨k + 1, rest⟩
  stop : ∀ items k, step items ⟨k, []⟩ = .ok none ⟨k, []⟩
  takes : ∀ mark, ∀ t ∈ L, ∃ b, ∀ k rest, (∀ x, rest.head? = some x → x ∈ marks) →
    item mark ⟨k, t ++ rest⟩ = .ok b ⟨k + t.length, rest⟩

namespace Divided

variable {step : List β → Read (Option (List β))} {item : Char → Read β} {marks : List Char}
  {L : Language Char}

theorem iterate_mark (h : Divided step item marks L) (items : List β) {mark : Char}
    (hmark : mark ∈ marks) (k : Nat) (rest : List Char) :
    iterate step items ⟨k, mark :: rest⟩ =
      (item mark >>= fun b => iterate step (items ++ [b])) ⟨k + 1, rest⟩ :=
  iterate_of_bind h.shortens (h.next items mark hmark k rest)

/-- Items with a mark after each lead to the item that follows them. -/
theorem exists_earlier (h : Divided step item marks L) (first : Char) {earlier : List Char}
    (hearlier : earlier ∈ (L * oneOf marks)∗) : ∃ mark items, ∀ k rest,
      (item first >>= fun b => iterate step [b]) ⟨k, earlier ++ rest⟩ =
        (item mark >>= fun b => iterate step (items ++ [b])) ⟨k + earlier.length, rest⟩ := by
  obtain ⟨parts, rfl, hparts⟩ := Language.mem_kstar.1 hearlier
  clear hearlier
  induction parts using List.reverseRecOn with
  | nil => exact ⟨first, [], fun k rest => rfl⟩
  | append_singleton parts part ih =>
    obtain ⟨mark, items, hitems⟩ := ih fun y hy => hparts y (List.mem_append_left _ hy)
    obtain ⟨t, ht, -, ⟨x, hx, rfl⟩, rfl⟩ := hparts part (by simp)
    obtain ⟨b, hb⟩ := h.takes mark t ht
    refine ⟨x, items ++ [b], fun k rest => ?_⟩
    have htext : (parts ++ [t ++ [x]]).flatten ++ rest = parts.flatten ++ (t ++ x :: rest) := by
      simp
    have hlength : k + (parts ++ [t ++ [x]]).flatten.length =
        k + parts.flatten.length + t.length + 1 := by
      simp
      omega
    have hstop : ∀ y, (x :: rest).head? = some y → y ∈ marks := by
      intro y hy
      cases hy
      exact hx
    rw [hlength, ← h.iterate_mark _ hx]
    exact (congrArg _ (congrArg _ htext)).trans ((hitems k _).trans (bind_of_ok (hb _ _ hstop)))

/-- Items with a mark before each are taken to the end of the text. -/
theorem exists_later (h : Divided step item marks L) {later : List Char}
    (hlater : later ∈ (oneOf marks * L)∗) : ∃ items', ∀ items k,
      iterate step items ⟨k, later⟩ = .ok (items ++ items') ⟨k + later.length, []⟩ := by
  obtain ⟨parts, rfl, hparts⟩ := Language.mem_kstar.1 hlater
  clear hlater
  induction parts with
  | nil =>
    refine ⟨[], fun items k => ?_⟩
    show iterateUpTo step (0 + 1) items ⟨k, []⟩ = _
    rw [iterateUpTo_succ, h.stop, List.append_nil]
    rfl
  | cons part parts ih =>
    obtain ⟨hpart, hlater⟩ := List.forall_mem_cons.1 hparts
    obtain ⟨items', hitems⟩ := ih hlater
    obtain ⟨-, ⟨x, hx, rfl⟩, t, ht, rfl⟩ := hpart
    obtain ⟨b, hb⟩ := h.takes x t ht
    refine ⟨b :: items', fun items k => ?_⟩
    have hstop : ∀ y, parts.flatten.head? = some y → y ∈ marks :=
      ((StartsIn.oneOf marks).mul_of_ne_nil (nil_notMem_oneOf _)).kstar _
        (Language.mem_kstar.2 ⟨parts, rfl, hlater⟩)
    have htext : (([x] ++ t) :: parts).flatten = x :: (t ++ parts.flatten) := rfl
    have hlength : k + (([x] ++ t) :: parts).flatten.length =
        k + 1 + t.length + parts.flatten.length := by
      rw [htext, List.length_cons, List.length_append]
      omega
    show iterate step items ⟨k, x :: (t ++ parts.flatten)⟩ =
      .ok (items ++ ([b] ++ items')) ⟨k + (([x] ++ t) :: parts).flatten.length, []⟩
    rw [h.iterate_mark items hx, bind_of_ok (hb _ _ hstop), hitems, List.append_assoc, hlength]

end Divided

/-! ### Bytes of system exclusive messages -/

theorem divided_nextByte : Divided nextByte (fun _ => byteExpr) [','] NoteText.byte where
  shortens items _ _ _ :=
    (Meets.ite_eat (x := ',') ((meets_expr meets_decimalByte).bind_check fun e => Meets.pure _)
      (Meets.pure none)).shortens (by
        rintro t a rest (⟨u, rfl, -⟩ | ⟨-, -, hnone⟩)
        · exact List.cons_ne_nil _ _
        · cases hnone)
  next items mark hmark k rest := by
    rw [List.mem_singleton.1 hmark]
    rfl
  stop items k := rfl
  takes mark t ht := by
    obtain ⟨e, he⟩ := exists_spelledExpr_byte ht
    refine ⟨e, fun k rest hrest => (meets_expr meets_decimalByte).complete (he rest ?_) k⟩
    cases hx : rest.head? with
    | none => rfl
    | some x =>
      rw [List.mem_singleton.1 (hrest x hx)]
      rfl

theorem exists_hole_byte {earlier later : List Char}
    (hearlier : earlier ∈ (NoteText.byte * oneOf [','])∗)
    (hlater : later ∈ (oneOf [','] * NoteText.byte)∗) :
    ∃ bytes bytes', Hole d byteExpr ("^dec:".toList ++ earlier) later
      fun e => .systemExclusive (bytes ++ [e] ++ bytes') := by
  obtain ⟨-, bytes, hbytes⟩ := divided_nextByte.exists_earlier ',' hearlier
  obtain ⟨bytes', hbytes'⟩ := divided_nextByte.exists_later hlater
  have hcomma : StartsIn (oneOf [','] * NoteText.byte)∗ [','] :=
    ((StartsIn.oneOf _).mul_of_ne_nil (nil_notMem_oneOf _)).kstar
  refine ⟨bytes, bytes', ⟨'^', rfl, rfl⟩, hcomma.any_eq_false (by decide) hlater,
    fun e => iterate nextByte (bytes ++ [e]) >>= fun bytes => pure (.systemExclusive bytes),
    fun t _ => ?_, fun e k => ?_⟩
  · have hmarked : ∀ rest, firstClaim d rules ⟨0, '^' :: rest⟩ =
        firstClaim d [marked "system exclusive" '^' systemExclusive, referenceRule, noteRule]
          ⟨0, '^' :: rest⟩ := fun rest => rfl
    have hmode : systemExclusive ⟨1, "dec:".toList ++ (earlier ++ (t ++ later))⟩ =
        (decimalBytes >>= fun bytes => pure (.systemExclusive bytes))
          ⟨5, earlier ++ (t ++ later)⟩ := rfl
    have hfirst := bind_congr_apply (fun bytes => pure (Element.systemExclusive bytes))
      (hbytes 5 (t ++ later))
    rw [List.append_assoc]
    refine (element_marked (hmarked _)).trans (hmode.trans (hfirst.trans ?_))
    rw [bind_assoc, List.length_append]
    rfl
  · exact bind_of_ok (hbytes' _ k)

/-! ### Velocities of notes -/

/-- Takes a note that is joined by a mark. -/
def noteAfter (mark : Char) : Read NoteElement :=
  note (if mark = '+' then .parallel else .sequential)

theorem divided_joined : Divided joined noteAfter ['+', '_'] NoteText.note where
  shortens items _ _ _ :=
    (Meets.ite_eat (x := '+') ((meets_note _).bind_check fun n => Meets.pure _)
      (Meets.ite_eat (x := '_') ((meets_note _).bind_check fun n => Meets.pure _)
        (Meets.pure none))).shortens (by
          rintro t a rest (⟨u, rfl, -⟩ | ⟨-, ⟨u, rfl, -⟩ | ⟨-, -, hnone⟩⟩)
          · exact List.cons_ne_nil _ _
          · exact List.cons_ne_nil _ _
          · cases hnone)
  next items mark hmark k rest := by
    rcases List.mem_pair.1 hmark with rfl | rfl <;> rfl
  stop items k := rfl
  takes mark t ht := by
    obtain ⟨n, hn⟩ := exists_note (if mark = '+' then .parallel else .sequential) ht
    exact ⟨n, fun k rest hrest => hn k rest hrest⟩

/-- The rule for notes is the first that does not decline a letter or a rest. -/
theorem firstClaim_letter {x : Char} (h : x ∈ ['A', 'B', 'C', 'D', 'E', 'F', 'G', 'R'])
    (rest : List Char) :
    firstClaim d rules ⟨0, x :: rest⟩ = firstClaim d [noteRule] ⟨0, x :: rest⟩ := by
  simp only [List.mem_cons, List.not_mem_nil, or_false] at h
  rcases h with rfl | rfl | rfl | rfl | rfl | rfl | rfl | rfl <;> rfl

/-- The rule for references declines one that more of a token follows. -/
theorem firstClaim_bracketed {name : String} (hname : name.toList ∈ nameText) {x : Char}
    (hx : isWhiteSpace x = false) (rest : List Char) :
    firstClaim d rules ⟨0, bracketed name.toList ++ x :: rest⟩ =
      firstClaim d [noteRule] ⟨0, bracketed name.toList ++ x :: rest⟩ := by
  have hdeclines : referenceRule.read d ⟨0, bracketed name.toList ++ x :: rest⟩ =
      .ok none ⟨0, bracketed name.toList ++ x :: rest⟩ := by
    refine (bind_of_ok (reference_bracketed hname 0 (x :: rest))).trans ?_
    show (if (!(some x).all isWhiteSpace || Decimal.allDigits name.toList) = true then _ else _ :
      Read (Option Element)) _ = _
    rw [if_pos (by simp [hx])]
    rfl
  exact (firstClaim_bracket _).trans (bind_of_ok hdeclines)

theorem element_of_noteRule {text : List Char} (hstarts : text.head?.any Pitch.startsNote = true)
    (h : firstClaim d rules ⟨0, text⟩ = firstClaim d [noteRule] ⟨0, text⟩) :
    element d (.start text) = noteToken (.start text) := by
  refine element_of_rule h ?_
  show (if text.head?.any Pitch.startsNote = true then _ else _ : Read (Option Element)) _ = _
  rw [if_pos hstarts]

/-- A token that begins with the head of a note and goes on is a note token. -/
theorem element_note {t rest : List Char} (ht : t ∈ NoteText.head) (hrest : rest ∈ afterHead)
    (hne : rest ≠ []) : element d (.start (t ++ rest)) = noteToken (.start (t ++ rest)) := by
  obtain ⟨first, hfirst, w, hw, rfl⟩ := ht
  rcases hfirst with ⟨x, hx, rfl⟩ | ⟨u, hu, v, hv, rfl⟩
  · rw [List.mem_singleton.1 hx]
    exact element_of_noteRule rfl (firstClaim_letter (by decide) _)
  · rcases hu with ⟨name, hname, -, rfl⟩ | ⟨-, ⟨x, hx, rfl⟩, ds, -, rfl⟩
    · have hafter := Language.append_mem_mul hv (Language.append_mem_mul hw hrest)
      obtain ⟨y, more, hmore⟩ := List.exists_cons_of_ne_nil
        (show v ++ (w ++ rest) ≠ [] by simp [hne])
      have hblank : isWhiteSpace y = false := by
        have hstarts := (startsIn_chord.opt.mul startsIn_afterChord).any_eq_false
          (p := isWhiteSpace) (by decide) hafter
        rwa [hmore] at hstarts
      have htext : bracketed name ++ v ++ w ++ rest = bracketed name ++ y :: more := by
        rw [← hmore]
        simp
      obtain ⟨s, rfl⟩ := exists_eq_toList name
      show element d (.start (bracketed s.toList ++ v ++ w ++ rest)) =
        noteToken (.start (bracketed s.toList ++ v ++ w ++ rest))
      rw [htext]
      exact element_of_noteRule rfl (firstClaim_bracketed hname hblank more)
    · have hmem : x ∈ ['A', 'B', 'C', 'D', 'E', 'F', 'G', 'R'] :=
        List.mem_append_left ['R'] hx
      have hstarts : ['A', 'B', 'C', 'D', 'E', 'F', 'G', 'R'].all Pitch.startsNote = true := by
        decide
      exact element_of_noteRule (List.all_eq_true.1 hstarts x hmem) (firstClaim_letter hmem _)

/-- A note that others are joined to is read by the rule for notes as well. -/
theorem element_joined {earlier t rest : List Char}
    (hearlier : earlier ∈ (NoteText.note * oneOf ['+', '_'])∗) (ht : t ∈ NoteText.head)
    (hrest : rest ∈ afterHead) (hne : rest ≠ []) :
    element d (.start (earlier ++ (t ++ rest))) = noteToken (.start (earlier ++ (t ++ rest))) := by
  rw [← Language.one_add_self_mul_kstar_eq_kstar] at hearlier
  rcases hearlier with rfl | ⟨-, ⟨-, ⟨u, hu, v, hv, rfl⟩, -, ⟨x, hx, rfl⟩, rfl⟩, later, -, rfl⟩
  · exact element_note (t := t) ht hrest hne
  · have hafter : v ++ (x :: (later ++ (t ++ rest))) ∈ afterHead :=
      append_mem_afterHead hv (mem_afterHead_of_afterNote (cons_mem_afterNote hx _))
    have htext : u ++ v ++ [x] ++ later ++ (t ++ rest) =
        u ++ (v ++ (x :: (later ++ (t ++ rest)))) := by
      simp
    show element d (.start (u ++ v ++ [x] ++ later ++ (t ++ rest))) =
      noteToken (.start (u ++ v ++ [x] ++ later ++ (t ++ rest)))
    rw [htext]
    exact element_note hu hafter (by simp)

/-- A note token is read as notes with marks between them. -/
theorem noteToken_eq : noteToken =
    (noteAfter '_' >>= fun n => iterate joined [n]) >>= fun notes => pure (collect notes) := by
  rw [bind_assoc]
  rfl

theorem exists_head?_joined {earlier t : List Char}
    (hearlier : earlier ∈ (NoteText.note * oneOf ['+', '_'])∗) (ht : t ∈ NoteText.head)
    (rest : List Char) :
    ∃ x, (earlier ++ (t ++ rest)).head? = some x ∧ isWhiteSpace x = false := by
  have hne : earlier ++ (t ++ rest) ≠ [] := by
    intro h
    simp only [List.append_eq_nil_iff] at h
    exact nil_notMem_head (h.2.1 ▸ ht)
  have hnote : [] ∉ NoteText.note := nil_notMem_mul nil_notMem_head _
  have hstarts := (startsIn_note.mul_of_ne_nil hnote).kstar.mul
    (startsIn_head.mul_of_ne_nil nil_notMem_head) _
    (Language.append_mem_mul hearlier
      (Language.append_mem_mul ht (show rest ∈ ({rest} : Language Char) from rfl)))
  obtain ⟨x, more, hmore⟩ := List.exists_cons_of_ne_nil hne
  have hblank : (noteStarts ++ noteStarts).all (! isWhiteSpace ·) = true := by decide
  rw [hmore] at hstarts ⊢
  exact ⟨x, rfl, by simpa using List.all_eq_true.1 hblank x (hstarts x rfl)⟩

/-- Up to the letter of a velocity, a note is read in the same way, however its field is filled. -/
theorem exists_openNote (placement : Placement) {t : List Char} {vs : List (Char × List Char)}
    {letter : Char} (ht : t ∈ NoteText.head) (hvs : ∀ v ∈ vs, IsVelocity v)
    (hletter : letter ∈ ['a', 'd']) : ∃ n, ∀ rest, StartsField rest →
      velocityText vs ++ letter :: rest ∈ afterHead ∧
      ∀ k, note placement ⟨k, t ++ (velocityText vs ++ letter :: rest)⟩ =
        (byteExpr >>= fun e => iterate velocity (setVelocity n letter e))
          ⟨k + t.length + (velocityText vs).length + 1, rest⟩ := by
  obtain ⟨first, hfirst⟩ := exists_spelledHead placement ht
  obtain ⟨fields, -, hfields⟩ := iterate_velocities hvs
  refine ⟨setVelocities first fields, fun rest hrest => ?_⟩
  have hdigit : (letter :: rest).head?.any Char.isDigit = false := by
    rcases List.mem_pair.1 hletter with rfl | rfl <;> rfl
  have hafter : velocityText vs ++ letter :: rest ∈ afterHead :=
    append_mem_afterHead (velocityText_mem hvs) (cons_mem_afterHead_of_velocity hletter hrest)
  refine ⟨hafter, fun k => ?_⟩
  rw [(hfirst _ hafter).note_eq k, hfields first _ _ hdigit]
  exact iterate_of_bind velocity_shortens (velocity_of_letter hletter _ _ _)

theorem exists_hole_velocity {earlier head more : List Char} {vs ws : List (Char × List Char)}
    {letter : Char} (hearlier : earlier ∈ (NoteText.note * oneOf ['+', '_'])∗)
    (hhead : head ∈ NoteText.head) (hvs : ∀ v ∈ vs, IsVelocity v) (hletter : letter ∈ ['a', 'd'])
    (hws : ∀ w ∈ ws, IsVelocity w) (hmore : more ∈ (oneOf ['+', '_'] * NoteText.note)∗) :
    ∃ notes note fields notes', fields.map Prod.fst = ws.map Prod.fst ∧
      Hole d byteExpr (earlier ++ (head ++ (velocityText vs ++ [letter])))
        (velocityText ws ++ more) fun e =>
          collect (notes ++ [setVelocities (setVelocity note letter e) fields] ++ notes') := by
  obtain ⟨mark, notes, hnotes⟩ := divided_joined.exists_earlier '_' hearlier
  obtain ⟨notes', hnotes'⟩ := divided_joined.exists_later hmore
  obtain ⟨note, hnote⟩ := exists_openNote (if mark = '+' then .parallel else .sequential) hhead hvs
    hletter
  obtain ⟨fields, hfields, hlater⟩ := iterate_velocities hws
  have hmarks : StartsIn (oneOf ['+', '_'] * NoteText.note)∗ ['+', '_'] :=
    ((StartsIn.oneOf _).mul_of_ne_nil (nil_notMem_oneOf _)).kstar
  have hdigit := hmarks.any_eq_false (p := Char.isDigit) (by decide) hmore
  refine ⟨notes, note, fields, notes', hfields, exists_head?_joined hearlier hhead _,
    head?_any_append (startsIn_velocities.any_eq_false (by decide) (velocityText_mem hws)) hdigit,
    fun e => (iterate velocity (setVelocity note letter e) >>= fun n =>
      iterate joined (notes ++ [n])) >>= fun notes => pure (collect notes),
    fun t ht => ?_, fun e k => ?_⟩
  · obtain ⟨hafter, hread⟩ := hnote _ ht
    have htext : earlier ++ (head ++ (velocityText vs ++ [letter])) ++
        (t ++ (velocityText ws ++ more)) =
          earlier ++ (head ++ (velocityText vs ++ letter :: (t ++ (velocityText ws ++ more)))) := by
      simp
    have hlength : (earlier ++ (head ++ (velocityText vs ++ [letter]))).length =
        0 + earlier.length + head.length + (velocityText vs).length + 1 := by
      simp
      omega
    rw [htext, hlength, element_joined hearlier hhead hafter (by simp), noteToken_eq, Cursor.start,
      bind_congr_apply _ (hnotes 0 _), noteAfter,
      bind_congr_apply _ (bind_congr_apply _ (hread _))]
    simp only [bind_assoc]
  · have hread := (hlater (setVelocity note letter e) k more hdigit).trans
      (iterate_velocity_afterNote _ _ (hmarks more hmore))
    rw [List.length_append, ← Nat.add_assoc]
    exact bind_of_ok ((bind_of_ok hread).trans (hnotes' _ _))

end MusicString.Grammar

import MusicString.Proofs.Grammar.OpenField

/-!
# Tokens as they are written

Every element other than a note or a key signature has a token that is made of a mark and its
fields, and reading this token gives back the element.  The reading stops where the token ends,
since each field ends at a character that cannot be a part of it: digits at anything but a digit,
names at an equals sign, and everything at a line break.

* `Expr.Writable`, `Read.TakesIntegers.expr_text`, `Read.expr_readBack`: fields are read back, all
  but the least long;
* `Definition.parse?_text`: so are the texts of definitions;
* `Element.token`, `Element.Writable`, `Grammar.element_token`: and so are elements.
-/

namespace MusicString

open Read Text

/-! ### Fields -/

/-- An expression that can be written: a reference must have a name that can stand in brackets. -/
def Expr.Writable {α : Type} : Expr α → Prop
  | literal _ => True
  | reference name => name.toList ∈ nameText

theorem Read.TakesIntegers.expr_text {lo hi : Int} [Scalar (Ranged lo hi)]
    {literal : Read (Ranged lo hi)} {least most : Int}
    (h : TakesIntegers (expr literal) least most)
    (hnumber : ∀ a : Ranged lo hi, (Scalar.toValue a).number = Decimal.text a.val)
    {e : Expr (Ranged lo hi)} (he : e.Writable)
    (hfits : ∀ a, e = .literal a → least ≤ a.val ∧ a.val ≤ most) {rest : List Char}
    (hrest : rest.head?.any Char.isDigit = false) (k : Nat) :
    expr literal ⟨k, e.text.toList ++ rest⟩ = .ok e ⟨k + e.text.toList.length, rest⟩ := by
  cases e with
  | literal a =>
    have htext : (Expr.literal a).text.toList = Decimal.ofInt a.val := by
      rw [Expr.text, hnumber, Decimal.text, String.toList_ofList]
    rw [htext]
    rcases h a.val rest hrest k with ⟨-, -, b, hb, hread⟩ | ⟨hnot, -⟩
    · rwa [Ranged.ext hb] at hread
    · exact absurd (hfits a rfl) hnot
  | reference name =>
    have htext : (Expr.reference name : Expr (Ranged lo hi)).text.toList =
        bracketed name.toList := by
      simp [Expr.text, bracketed]
    rw [htext]
    exact bind_of_ok (reference_bracketed he k rest)

section Fields

variable {rest : List Char} (hrest : rest.head?.any Char.isDigit = false) (k : Nat)

include hrest

theorem Read.byteExpr_text {e : Expr Byte} (he : e.Writable) :
    byteExpr ⟨k, e.text.toList ++ rest⟩ = .ok e ⟨k + e.text.toList.length, rest⟩ :=
  takesIntegers_byteExpr.expr_text (fun _ => rfl) he (fun a _ => ⟨a.lo_le, a.le_hi⟩) hrest k

theorem Read.intExpr_text {e : Expr Integer} (he : e.Writable) :
    intExpr ⟨k, e.text.toList ++ rest⟩ = .ok e ⟨k + e.text.toList.length, rest⟩ :=
  takesIntegers_intExpr.expr_text (fun _ => rfl) he (fun a _ => ⟨a.lo_le, a.le_hi⟩) hrest k

/-- The digits of the least long do not fit a long, so this one cannot be written. -/
theorem Read.longExpr_text {e : Expr Long} (he : e.Writable)
    (hleast : ∀ a, e = .literal a → -Value.maxLong ≤ a.val) :
    longExpr ⟨k, e.text.toList ++ rest⟩ = .ok e ⟨k + e.text.toList.length, rest⟩ :=
  takesIntegers_longExpr.expr_text (fun _ => rfl) he (fun a ha => ⟨hleast a ha, a.le_hi⟩) hrest k

end Fields

/-- The least long. -/
def Long.least : Long :=
  .nearest (-9223372036854775808)

theorem Long.eq_least_of_lt {n : Long} (h : n.val < -Value.maxLong) : n = least := by
  have hlo := n.lo_le
  unfold Value.maxLong at h
  exact Ranged.ext (show n.val = -9223372036854775808 by omega)

theorem Long.text_least :
    (Expr.literal least).text.toList = '-' :: "9223372036854775808".toList :=
  rfl

/-- The digits of the least long, which are read without their sign, fit no long. -/
theorem Read.longExpr_least {rest : List Char} (hrest : rest.head?.any Char.isDigit = false)
    (k : Nat) : longExpr ⟨k, (Expr.literal Long.least).text.toList ++ rest⟩ =
      .error (.grammar (.largeInteger "9223372036854775808" "a long") k)
        ⟨k, (Expr.literal Long.least).text.toList ++ rest⟩ := by
  have hdigits : IsDigits "9223372036854775808".toList := List.all_eq_true.1 (by decide)
  have hlong := long_of_large hdigits (by decide) hrest true "a long" k
  rw [Long.text_least]
  exact (bind_of_ok rfl).trans (bind_of_error _ hlong)

/--
**Expressions are read back.**  Before anything but a digit, an expression as it is written is read
as itself and to its end.  The one exception is the least long, at which the read fails and takes
nothing.
-/
theorem Read.expr_readBack {rest : List Char} (hrest : rest.head?.any Char.isDigit = false)
    (k : Nat) :
    (∀ e : Expr Byte, e.Writable →
      byteExpr ⟨k, e.text.toList ++ rest⟩ = .ok e ⟨k + e.text.toList.length, rest⟩) ∧
    (∀ e : Expr Integer, e.Writable →
      intExpr ⟨k, e.text.toList ++ rest⟩ = .ok e ⟨k + e.text.toList.length, rest⟩) ∧
    ∀ e : Expr Long, e.Writable →
      longExpr ⟨k, e.text.toList ++ rest⟩ =
        if e = .literal .least then
          .error (.grammar (.largeInteger "9223372036854775808" "a long") k)
            ⟨k, e.text.toList ++ rest⟩
        else .ok e ⟨k + e.text.toList.length, rest⟩ := by
  refine ⟨fun e => byteExpr_text hrest k, fun e => intExpr_text hrest k, fun e he => ?_⟩
  by_cases hleast : e = .literal .least
  · rw [if_pos hleast, hleast]
    exact longExpr_least hrest k
  · rw [if_neg hleast]
    refine longExpr_text hrest k he fun a ha => Int.not_lt.1 fun hlt => hleast ?_
    rw [ha, Long.eq_least_of_lt hlt]

/-- A bracket and digits for a name, the least int, and the least long but one. -/
theorem Read.expr_readBack_extremes :
    let int : Integer := ⟨-2147483648, by decide, by decide⟩
    let long : Long := ⟨-9223372036854775807, by decide, by decide⟩
    " C".toList.head?.any Char.isDigit = false ∧
      (Expr.reference "[12" : Expr Byte).Writable ∧
      byteExpr ⟨1, "[[12] C".toList⟩ = .ok (.reference "[12") ⟨6, " C".toList⟩ ∧
      (Expr.literal int).Writable ∧ (Expr.literal int).text = "-2147483648" ∧
      intExpr ⟨1, "-2147483648".toList ++ " C".toList⟩ = .ok (.literal int) ⟨12, " C".toList⟩ ∧
      (Expr.literal long).Writable ∧ (Expr.literal long).text = "-9223372036854775807" ∧
      longExpr ⟨1, "-9223372036854775807".toList ++ " C".toList⟩ =
        .ok (.literal long) ⟨21, " C".toList⟩ := by
  intro int long
  have hrest : " C".toList.head?.any Char.isDigit = false := by decide
  have hname : (Expr.reference "[12" : Expr Byte).Writable := mem_nameText (by decide) (by decide)
  have htext : (Expr.literal int).text = "-2147483648" := rfl
  have htext' : (Expr.literal long).text = "-9223372036854775807" := rfl
  obtain ⟨hbyte, hint, hlong⟩ := expr_readBack hrest 1
  have hint := hint (.literal int) trivial
  have hlong := (hlong (.literal long) trivial).trans (if_neg (by decide))
  rw [htext] at hint
  rw [htext'] at hlong
  exact ⟨hrest, hname, hbyte _ hname, trivial, htext, hint, trivial, htext', hlong⟩

/-- Not every long is read back. -/
theorem Read.not_longExpr_text : (Expr.literal Long.least).text = "-9223372036854775808" ∧
    ¬ ∀ e : Expr Long, e.Writable →
      longExpr ⟨0, e.text.toList ++ []⟩ = .ok e ⟨0 + e.text.toList.length, []⟩ := by
  refine ⟨rfl, fun h => ?_⟩
  have hread := (longExpr_least rfl 0).symm.trans (h (.literal .least) trivial)
  cases hread

/-! ### Definitions -/

namespace Decimal

theorem head?_ofInt_bind {α : Type} {f : Char → Option α} (hminus : f '-' = none)
    (hdigit : ∀ x, x.isDigit = true → f x = none) (n : Int) : (ofInt n).head?.bind f = none := by
  rw [ofInt_eq]
  cases decide (n < 0) with
  | true => exact hminus
  | false =>
    obtain ⟨x, ds, hds⟩ := List.exists_cons_of_ne_nil (digits_ne_nil n.natAbs)
    have hx : x ∈ digits n.natAbs := hds ▸ List.mem_cons_self
    show (digits n.natAbs).head?.bind f = none
    rw [hds]
    exact hdigit x (isDigits_digits _ x hx)

theorem notMem_ofInt {x : Char} (hx : x ≠ '-') (hdigit : x.isDigit = false) (n : Int) :
    x ∉ ofInt n := by
  rw [ofInt_eq]
  intro h
  rcases List.mem_append.1 h with h | h
  · unfold sign at h
    split at h
    · exact hx (List.mem_singleton.1 h)
    · cases h
  · exact absurd (isDigits_digits _ x h) (by simp [hdigit])

/-- Digits do not start with a sign. -/
theorem splitSign_digits {ds : List Char} (hds : IsDigits ds) : splitSign ds = (false, ds) := by
  unfold splitSign
  split
  · exact absurd (hds '-' List.mem_cons_self) (by decide)
  · exact absurd (hds '+' List.mem_cons_self) (by decide)
  · rfl

theorem toInt?_ofInt (n : Int) : toInt? (ofInt n) = some n := by
  have hsplit : splitSign (ofInt n) = (decide (n < 0), digits n.natAbs) := by
    rw [ofInt_eq]
    cases decide (n < 0) with
    | true => rfl
    | false => exact splitSign_digits (isDigits_digits _)
  have hdigits : toNat? (digits n.natAbs) = some n.natAbs := by
    rw [toNat?, if_pos ⟨digits_ne_nil _, List.all_eq_true.2 (isDigits_digits _)⟩, value_digits]
  simp [toInt?, hsplit, hdigits, signed_natAbs]

end Decimal

/-- A value that the text of a definition can denote: an int, or a long that is no int. -/
def Value.Definable : Value → Prop
  | int _ => True
  | long n => n.val < -2147483648 ∨ 2147483647 < n.val
  | _ => False

namespace Definition

theorem splitRole_letter (role : Role) {s : List Char} (hs : s.head?.bind Role.ofLetter? = none) :
    splitRole (role.letter.toList ++ s) = (role, s) := by
  cases role with
  | value =>
    cases s with
    | nil => rfl
    | cons x s =>
      have hx : Role.ofLetter? x = none := hs
      simp [splitRole, Role.letter, hx]
  | _ => rfl

theorem ofLetter?_of_isDigit {x : Char} (hx : x.isDigit = true) : Role.ofLetter? x = none := by
  cases hrole : Role.ofLetter? x with
  | none => rfl
  | some role =>
    have hletter := Role.ofLetter?_eq_some_iff.1 hrole
    cases role <;> cases hletter <;> exact absurd hx (by decide)

theorem integer?_ofInt (n : Long) : integer? (Decimal.ofInt n.val) = some (.ofLong n) := by
  simp [integer?, Decimal.toInt?_ofInt]

theorem integer?_number {v : Value} (hv : v.Definable) :
    ∃ n, v.number.toList = Decimal.ofInt n ∧ integer? (Decimal.ofInt n) = some v := by
  cases v with
  | int i =>
    let n : Long := ⟨i.val, Int.le_trans (by decide) i.lo_le, Int.le_trans i.le_hi (by decide)⟩
    have hlong : Value.ofLong n = .int i := by simp [Value.ofLong, n]
    exact ⟨i.val, by simp [Value.number, Decimal.text], (integer?_ofInt n).trans (by rw [hlong])⟩
  | long n =>
    have hmisfit : (Ranged.ofInt? n.val : Option Integer) = none := Ranged.ofInt?_eq_none_iff.2 hv
    have hlong : Value.ofLong n = .long n := by simp [Value.ofLong, hmisfit]
    exact ⟨n.val, by simp [Value.number, Decimal.text], (integer?_ofInt n).trans (by rw [hlong])⟩
  | byte | double => exact hv.elim

/-- The letter of a role and the digits of a value denote the role and the value. -/
theorem parse?_text {v : Value} (hv : v.Definable) (role : Role) :
    parse? (role.letter.toList ++ v.number.toList) = some ⟨v, role⟩ := by
  obtain ⟨n, hnumber, hn⟩ := integer?_number hv
  have hrole := splitRole_letter role
    (Decimal.head?_ofInt_bind (f := Role.ofLetter?) rfl (fun _ => ofLetter?_of_isDigit) n)
  have hpoint : '.' ∉ Decimal.ofInt n := Decimal.notMem_ofInt (by decide) (by decide) n
  rw [hnumber, parse?, hrole]
  simp only [hpoint, ↓reduceIte, hn, Option.map_some]

end Definition

/-! ### Elements -/

/-- A run of letters, digits and the given marks, which is not empty. -/
def IsName (marks : List Char) (s : String) : Prop :=
  s ≠ "" ∧ ∀ x ∈ s.toList, isAlphabetic x = true ∨ x.isDigit = true ∨ x ∈ marks

namespace Element

/--
The token of an element: its mark and its fields.  Notes and key signatures, which have no mark of
this kind, are left out.
-/
def token : Element → List Char
  | voice v => 'V' :: v.text.toList
  | layer l => 'L' :: l.text.toList
  | tempo bpm => 'T' :: bpm.text.toList
  | instrument program => 'I' :: program.text.toList
  | controller index value => 'X' :: (index.text.toList ++ '=' :: value.text.toList)
  | time t => '@' :: t.text.toList
  | measure => ['|']
  | pitchBend value => '&' :: value.text.toList
  | channelPressure pressure => '+' :: pressure.text.toList
  | polyphonicPressure key pressure => '*' :: (key.text.toList ++ ',' :: pressure.text.toList)
  | systemExclusive bytes => '^' :: ("dec:".toList ++ [','].intercalate (bytes.map (·.text.toList)))
  | comment text => '#' :: text.toList
  | property key value => '%' :: (key.toList ++ '=' :: value.toList)
  | define name entry =>
    '$' :: (name.toList ++ '=' :: (entry.role.letter.toList ++ entry.value.number.toList))
  | note _ | noteCollection _ | keySignature .. => []

/-- The elements that their tokens tell in full. -/
def Writable : Element → Prop
  | voice e | layer e | instrument e | channelPressure e => e.Writable
  | tempo e | pitchBend e => e.Writable
  | controller index value => index.Writable ∧ value.Writable
  | time t => t.Writable ∧ ∀ n, t = .literal n → -Value.maxLong ≤ n.val
  | measure => True
  | polyphonicPressure key pressure => key.Writable ∧ pressure.Writable
  | systemExclusive bytes => bytes ≠ [] ∧ ∀ e ∈ bytes, e.Writable
  | comment text => '\n' ∉ text.toList ∧ text.toList.head?.any isWhiteSpace = false ∧
    text.toList.getLast?.any isWhiteSpace = false
  | property key value => IsName ['_', '.', '-'] key ∧ ∀ x ∈ value.toList, isWhiteSpace x = false
  | define name entry => IsName ['_'] name ∧ entry.value.Definable
  | note _ | noteCollection _ | keySignature .. => False

end Element

namespace Grammar

variable {rest : List Char}

theorem isWanted_of_isName {marks : List Char} {s : String} (h : IsName marks s) :
    ∀ x ∈ s.toList, isWanted [.letter, .decimalDigit] marks x = true := by
  intro x hx
  rcases h.2 x hx with halpha | hdigit | hmark
  · simp [isWanted, CharClass.contains, halpha]
  · simp [isWanted, CharClass.contains, hdigit]
  · simp [isWanted, hmark]

/-- A name ends at the equals sign, which is none of its characters. -/
theorem name_of_isName {marks : List Char} {s : String} (h : IsName marks s)
    (hmarks : isWanted [.letter, .decimalDigit] marks '=' = false) (wanted : String) (k : Nat) :
    Grammar.name marks wanted ⟨k, s.toList ++ '=' :: rest⟩ =
      .ok s ⟨k + s.toList.length, '=' :: rest⟩ := by
  have hstop : ('=' :: rest).head?.any (isWanted [.letter, .decimalDigit] marks) = false := hmarks
  have hrun := (meets_run _).complete ⟨rfl, isWanted_of_isName h, hstop⟩ k
  have hne : s.toList ≠ [] := fun hnil => h.1 (String.toList_eq_nil_iff.1 hnil)
  refine (bind_of_ok hrun).trans ?_
  simp only [hne, ↓reduceIte, String.ofList_toList]
  rfl

/-! ### Reading tokens back -/

/-- What can follow a token here: nothing, or a line break. -/
def EndsLine (rest : List Char) : Prop :=
  rest = [] ∨ ∃ more, rest = '\n' :: more

theorem EndsLine.head? (h : EndsLine rest) {x : Char} (hx : rest.head? = some x) : x = '\n' := by
  rcases h with rfl | ⟨more, rfl⟩
  · cases hx
  · cases hx
    rfl

theorem EndsLine.any_eq_false (h : EndsLine rest) {p : Char → Bool} (hp : p '\n' = false) :
    rest.head?.any p = false := by
  rcases h with rfl | ⟨more, rfl⟩
  · rfl
  · exact hp

/-- What follows the mark of a token takes the rest of it. -/
theorem element_of_body {d : Dictionary} {x : Char} {body : Read Element} {k : Nat}
    {fields : List Char} {e : Element} (label : String) (later : List TokenRule)
    (h : ∀ after, firstClaim d rules ⟨k, x :: after⟩ =
      firstClaim d (marked label x body :: later) ⟨k, x :: after⟩)
    (hbody : body ⟨k + 1, fields ++ rest⟩ = .ok e ⟨k + 1 + fields.length, rest⟩) :
    element d ⟨k, x :: fields ++ rest⟩ = .ok e ⟨k + (x :: fields).length, rest⟩ := by
  rw [List.length_cons, Nat.add_comm fields.length, ← Nat.add_assoc]
  exact (element_marked (h _)).trans hbody

theorem map_of_ok {α β : Type} {r : Read α} (g : α → β) {c c' : Cursor} {a : α}
    (h : r c = .ok a c') : (g <$> r) c = .ok (g a) c' := by
  rw [map_eq_pure_bind]
  exact bind_of_ok h

theorem add_length_marked (k : Nat) (first second : List Char) (mark : Char) :
    k + (first ++ mark :: second).length = k + first.length + 1 + second.length := by
  simp only [List.length_append, List.length_cons]
  omega

/-- Two fields with a mark between them. -/
theorem fields_of_ok {α : Type} {r : Read (Expr α)} {mark : Char}
    {build : Expr α → Expr α → Element} {first second : List Char} {e v : Expr α} {k : Nat}
    (hfirst : r ⟨k, first ++ mark :: (second ++ rest)⟩ =
      .ok e ⟨k + first.length, mark :: (second ++ rest)⟩)
    (hsecond : r ⟨k + first.length + 1, second ++ rest⟩ =
      .ok v ⟨k + first.length + 1 + second.length, rest⟩) :
    (do
      let e ← r
      expect mark
      return build e (← r) : Read Element) ⟨k, first ++ mark :: second ++ rest⟩ =
        .ok (build e v) ⟨k + (first ++ mark :: second).length, rest⟩ := by
  rw [List.append_assoc, List.cons_append, bind_of_ok hfirst, bind_of_ok (expect_apply mark _ _),
    bind_of_ok hsecond, add_length_marked]
  rfl

/-- The commas lead from byte to byte, up to what is neither a comma nor a digit. -/
theorem bytes_text (hdigit : rest.head?.any Char.isDigit = false) (hcomma : rest.head? ≠ some ',')
    {e : Expr Byte} {bytes : List (Expr Byte)} (he : e.Writable) (hbytes : ∀ b ∈ bytes, b.Writable)
    (earlier : List (Expr Byte)) (k : Nat) :
    let text := [','].intercalate ((e :: bytes).map (·.text.toList))
    (byteExpr >>= fun b => iterate nextByte (earlier ++ [b])) ⟨k, text ++ rest⟩ =
      .ok (earlier ++ e :: bytes) ⟨k + text.length, rest⟩ := by
  induction bytes generalizing e earlier k with
  | nil =>
    have hstop : nextByte (earlier ++ [e]) ⟨k + e.text.toList.length, rest⟩ =
        .ok none ⟨k + e.text.toList.length, rest⟩ :=
      bind_of_ok (eat_of_not_peek (c := ⟨k + e.text.toList.length, rest⟩) hcomma)
    have hread := byteExpr_text hdigit k he
    intro text
    have htext : text = e.text.toList := List.intercalate_singleton
    rw [htext, bind_of_ok hread]
    show iterateUpTo nextByte _ _ _ = _
    rw [iterateUpTo_succ, hstop]
  | cons b bytes ih =>
    obtain ⟨hb, hbytes⟩ := List.forall_mem_cons.1 hbytes
    intro text
    let later := [','].intercalate ((b :: bytes).map (·.text.toList))
    have htext : text ++ rest = e.text.toList ++ ',' :: (later ++ rest) := by
      simp [text, later, List.intercalate_cons_cons]
    have hlength : k + text.length = k + e.text.toList.length + 1 + later.length := by
      simp [text, later, List.intercalate_cons_cons]
      omega
    have hlater := ih hb hbytes (earlier ++ [e]) (k + e.text.toList.length + 1)
    rw [List.append_assoc] at hlater
    rw [htext, hlength, bind_of_ok (byteExpr_text rfl k he),
      divided_nextByte.iterate_mark _ (List.mem_singleton_self _)]
    exact hlater

theorem systemExclusive_text (hrest : EndsLine rest) {bytes : List (Expr Byte)} (hne : bytes ≠ [])
    (hbytes : ∀ e ∈ bytes, e.Writable) (k : Nat) :
    let text := "dec:".toList ++ [','].intercalate (bytes.map (·.text.toList))
    systemExclusive ⟨k, text ++ rest⟩ = .ok (.systemExclusive bytes) ⟨k + text.length, rest⟩ := by
  obtain ⟨e, bytes, rfl⟩ := List.exists_cons_of_ne_nil hne
  obtain ⟨he, hbytes⟩ := List.forall_mem_cons.1 hbytes
  intro text
  have hcomma : rest.head? ≠ some ',' := fun h => absurd (hrest.head? h) (by decide)
  have hread := bytes_text (hrest.any_eq_false rfl) hcomma he hbytes [] (k + 4)
  have hmode (after : List Char) : systemExclusive ⟨k, "dec:".toList ++ after⟩ =
      (decimalBytes >>= fun bytes => pure (.systemExclusive bytes)) ⟨k + 4, after⟩ := rfl
  rw [List.append_assoc, hmode, List.length_append, ← Nat.add_assoc]
  exact bind_of_ok hread

theorem trimStart_of_head? {s : List Char} (h : s.head?.any isWhiteSpace = false) :
    trimStart s = s := by
  cases s with
  | nil => rfl
  | cons x s => exact List.dropWhile_cons_of_neg (by simpa using h)

theorem trimEnd_of_getLast? {s : List Char} (h : s.getLast?.any isWhiteSpace = false) :
    trimEnd s = s := by
  have hreverse : trimStart s.reverse = s.reverse :=
    trimStart_of_head? (by rwa [List.head?_reverse])
  show (trimStart s.reverse).reverse = s
  rw [hreverse, List.reverse_reverse]

theorem comment_text (hrest : EndsLine rest) {text : String} (hline : '\n' ∉ text.toList)
    (hstart : text.toList.head?.any isWhiteSpace = false)
    (hend : text.toList.getLast?.any isWhiteSpace = false) (k : Nat) :
    comment ⟨k, text.toList ++ rest⟩ = .ok (.comment text) ⟨k + text.toList.length, rest⟩ := by
  have hwanted : ∀ x ∈ text.toList, decide (x ≠ '\n') = true := fun x hx =>
    decide_eq_true fun h => hline (h ▸ hx)
  have hrun := (meets_run (· ≠ '\n')).complete ⟨rfl, hwanted, hrest.any_eq_false (by decide)⟩ k
  have hline : restOfLine ⟨k, text.toList ++ rest⟩ =
      .ok text.toList ⟨k + text.toList.length, rest⟩ := by
    refine (bind_of_ok hrun).trans ?_
    rw [trimEnd_of_getLast? hend]
    rfl
  refine (bind_of_ok hline).trans ?_
  rw [trimStart_of_head? hstart, String.ofList_toList]
  rfl

theorem token_text (hrest : EndsLine rest) {text : List Char}
    (htext : ∀ x ∈ text, isWhiteSpace x = false) (k : Nat) :
    Read.token false [] ⟨k, text ++ rest⟩ = .ok text ⟨k + text.length, rest⟩ :=
  (meets_token []).complete
    ⟨rfl, fun x hx => ⟨List.not_mem_nil, htext x hx⟩, fun _ hx => .inr (hrest.head? hx ▸ rfl)⟩ k

theorem property_text (hrest : EndsLine rest) {key value : String}
    (hkey : IsName ['_', '.', '-'] key) (hvalue : ∀ x ∈ value.toList, isWhiteSpace x = false)
    (k : Nat) :
    property ⟨k, key.toList ++ '=' :: value.toList ++ rest⟩ =
      .ok (.property key value) ⟨k + (key.toList ++ '=' :: value.toList).length, rest⟩ := by
  rw [List.append_assoc, List.cons_append, add_length_marked]
  refine (bind_of_ok (name_of_isName hkey (by decide +kernel) _ k)).trans ?_
  refine (bind_of_ok (expect_apply '=' _ _)).trans ?_
  refine (bind_of_ok (token_text hrest hvalue _)).trans ?_
  rw [String.ofList_toList]
  rfl

theorem notWhiteSpace_number {v : Value} (hv : v.Definable) (role : Role) :
    ∀ x ∈ role.letter.toList ++ v.number.toList, isWhiteSpace x = false := by
  obtain ⟨n, hnumber, -⟩ := Definition.integer?_number hv
  have hletter : role.letter.toList.all (fun x => !isWhiteSpace x) = true := by
    cases role <;> rfl
  refine List.forall_mem_append.2
    ⟨by simpa using hletter, fun x hx => Bool.eq_false_iff.2 fun hblank => ?_⟩
  rw [hnumber] at hx
  have hplain : whiteSpaceChars.all (fun y => y ≠ '-' ∧ y.isDigit = false) = true := by decide
  obtain ⟨hminus, hdigit⟩ :=
    of_decide_eq_true (List.all_eq_true.1 hplain x (mem_whiteSpaceChars hblank))
  exact Decimal.notMem_ofInt hminus hdigit n hx

/-- Whatever text denotes an entry, it is read to its end. -/
theorem definition_of_parse? (hrest : EndsLine rest) {name : String} {entry : Entry}
    {text : List Char} (hname : IsName ['_'] name) (htext : ∀ x ∈ text, isWhiteSpace x = false)
    (hentry : Definition.parse? text = some entry) (k : Nat) :
    definition ⟨k, name.toList ++ '=' :: text ++ rest⟩ =
      .ok (.define name entry) ⟨k + (name.toList ++ '=' :: text).length, rest⟩ := by
  rw [List.append_assoc, List.cons_append, add_length_marked]
  refine (bind_of_ok (name_of_isName hname (by decide +kernel) _ k)).trans ?_
  refine (bind_of_ok (expect_apply '=' _ _)).trans ?_
  refine (bind_of_ok (position_apply _)).trans ?_
  refine (bind_of_ok (token_text hrest htext _)).trans ?_
  rw [hentry]
  rfl

theorem definition_text (hrest : EndsLine rest) {name : String} {entry : Entry}
    (hname : IsName ['_'] name) (hvalue : entry.value.Definable) (k : Nat) :
    let text := entry.role.letter.toList ++ entry.value.number.toList
    definition ⟨k, name.toList ++ '=' :: text ++ rest⟩ =
      .ok (.define name entry) ⟨k + (name.toList ++ '=' :: text).length, rest⟩ :=
  definition_of_parse? hrest hname (notWhiteSpace_number hvalue _)
    (Definition.parse?_text hvalue _) k

/--
**Tokens are read back.**  The token of an element, before a line break or the end, is read as that
element and to its end, whatever the dictionary holds.
-/
theorem element_token {e : Element} (h : e.Writable) (hrest : EndsLine rest) (d : Dictionary)
    (k : Nat) :
    element d ⟨k, e.token ++ rest⟩ = .ok e ⟨k + e.token.length, rest⟩ := by
  have hdigit : rest.head?.any Char.isDigit = false := hrest.any_eq_false rfl
  cases e with
  | voice v =>
    exact element_of_body "voice" (rules.drop 4) (fun _ => rfl)
      (map_of_ok _ (byteExpr_text hdigit _ h))
  | layer l =>
    exact element_of_body "layer" (rules.drop 5) (fun _ => rfl)
      (map_of_ok _ (byteExpr_text hdigit _ h))
  | tempo bpm =>
    exact element_of_body "tempo" (rules.drop 6) (fun _ => rfl)
      (map_of_ok _ (intExpr_text hdigit _ h))
  | instrument program =>
    exact element_of_body "instrument" (rules.drop 7) (fun _ => rfl)
      (map_of_ok _ (byteExpr_text hdigit _ h))
  | controller index value =>
    exact element_of_body "controller" (rules.drop 9) (fun _ => rfl)
      (fields_of_ok (intExpr_text rfl _ h.1) (intExpr_text hdigit _ h.2))
  | time t =>
    exact element_of_body "time" (rules.drop 10) (fun _ => rfl)
      (map_of_ok _ (longExpr_text hdigit _ h.1 h.2))
  | measure => exact element_of_body "measure" (rules.drop 11) (fun _ => rfl) rfl
  | pitchBend value =>
    exact element_of_body "pitch bend" (rules.drop 12) (fun _ => rfl)
      (map_of_ok _ (intExpr_text hdigit _ h))
  | channelPressure pressure =>
    exact element_of_body "channel pressure" (rules.drop 13) (fun _ => rfl)
      (map_of_ok _ (byteExpr_text hdigit _ h))
  | polyphonicPressure key pressure =>
    exact element_of_body "polyphonic pressure" (rules.drop 14) (fun _ => rfl)
      (fields_of_ok (byteExpr_text rfl _ h.1) (byteExpr_text hdigit _ h.2))
  | systemExclusive bytes =>
    have hbody := systemExclusive_text hrest h.1 h.2 (k + 1)
    exact element_of_body "system exclusive" (rules.drop 15) (fun _ => rfl) hbody
  | comment text =>
    exact element_of_body "comment" (rules.drop 2) (fun _ => rfl)
      (comment_text hrest h.1 h.2.1 h.2.2 _)
  | property key value =>
    exact element_of_body "property" (rules.drop 3) (fun _ => rfl)
      (property_text hrest h.1 h.2 _)
  | define name entry =>
    exact element_of_body "dictionary definition" (rules.drop 1) (fun _ => rfl)
      (definition_text hrest h.1 h.2 _)
  | note | noteCollection | keySignature => exact h.elim

theorem element_token_bytes :
    let e : Element := .systemExclusive [.literal (.nearest 7), .reference "V[1"]
    e.Writable ∧ EndsLine "\nC".toList ∧ e.token = "^dec:7,[V[1]".toList ∧
      element .empty ⟨2, "^dec:7,[V[1]\nC".toList⟩ = .ok e ⟨14, "\nC".toList⟩ := by
  intro e
  have hwritable : e.Writable :=
    ⟨by simp, List.forall_mem_cons.2 ⟨trivial, List.forall_mem_singleton.2
      (mem_nameText (by decide) (by decide))⟩⟩
  have hrest : EndsLine "\nC".toList := .inr ⟨['C'], rfl⟩
  exact ⟨hwritable, hrest, rfl, element_token hwritable hrest .empty 2⟩

end Grammar

end MusicString

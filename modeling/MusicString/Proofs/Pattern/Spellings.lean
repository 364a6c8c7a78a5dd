import MusicString.Proofs.Element.Field
import MusicString.Proofs.Grammar.OpenField
import MusicString.Proofs.Pattern.Tokens

/-!
# Numbers and references to them

An integer field can be written as a number or as a reference to an entry that holds it.  The two
go different ways: a number is read and must fit the field then, a reference is read as a name and
what it stands for must fit the field when the token is evaluated.  Both ways lead to the same end.

* `Agree`: two runs that return the same events or both fail, and leave the same environment;
* `agree_of_hole`: the two spellings of one field agree;
* `spellings_agree`: all fields of all tokens, and tokens that are nothing but a reference.
-/

namespace MusicString.Pattern

open Read Text Grammar Environment

variable {σ : Type}

/-- Two runs agree if they return the same events or both fail, and leave the same environment. -/
inductive Agree : EStateM.Result ParseError (Environment σ) (List Event) →
    EStateM.Result ParseError (Environment σ) (List Event) → Prop
  | ok {events : List Event} {env : Environment σ} : Agree (.ok events env) (.ok events env)
  | error {e e' : ParseError} {env : Environment σ} : Agree (.error e env) (.error e' env)

theorem Agree.refl (x : EStateM.Result ParseError (Environment σ) (List Event)) : Agree x x := by
  cases x with
  | ok events env => exact .ok
  | error e env => exact .error

/-! ### Patterns of one token -/

/-- The result of a token that is the whole pattern. -/
def fireOnly (element : Element) (env : Environment σ) :
    EStateM.Result ParseError (Environment σ) (List Event) :=
  match fire element 0 env with
  | .ok event env' => .ok [event] env'
  | .error e env' => .error e env'

variable {text : List Char} {env : Environment σ}

theorem parseFragment_of_element {element : Element} {k : Nat}
    (hfirst : ∃ x, text.head? = some x ∧ isWhiteSpace x = false)
    (h : Grammar.element env.dictionary (.start text) = .ok element ⟨k, []⟩) :
    parseFragment (String.ofList text) env = fireOnly element env := by
  obtain ⟨x, hhead, hx⟩ := hfirst
  obtain ⟨rest, rfl⟩ := List.head?_eq_some_iff.1 hhead
  have htoken : nextToken env.dictionary (.start (x :: rest)) =
      .ok (some (0, element)) ⟨k, []⟩ := by
    refine (nextToken_start hx).trans ?_
    rw [show Grammar.element env.dictionary ⟨0, x :: rest⟩ = _ from h]
    rfl
  unfold parseFragment fireOnly
  rw [String.toList_ofList, fireUpTo_succ, htoken]
  dsimp only
  rcases fire element 0 env with ⟨event, env'⟩ | ⟨e, env'⟩
  · rfl
  · rfl

theorem parseFragment_of_error {e : ParseError} {c : Cursor}
    (hfirst : ∃ x, text.head? = some x ∧ isWhiteSpace x = false)
    (h : Grammar.element env.dictionary (.start text) = .error e c) :
    parseFragment (String.ofList text) env = .error e env := by
  obtain ⟨x, hhead, hx⟩ := hfirst
  obtain ⟨rest, rfl⟩ := List.head?_eq_some_iff.1 hhead
  have htoken : nextToken env.dictionary (.start (x :: rest)) = .error e c := by
    refine (nextToken_start hx).trans ?_
    rw [show Grammar.element env.dictionary ⟨0, x :: rest⟩ = _ from h]
  unfold parseFragment
  rw [String.toList_ofList, fireUpTo_succ, htoken]

/-- What follows an element in its token is an error. -/
theorem parseFragment_of_leftover {element : Element} {c : Cursor} {y : Char}
    (hfirst : ∃ x, text.head? = some x ∧ isWhiteSpace x = false)
    (h : Grammar.element env.dictionary (.start text) = .ok element c) (hy : c.peek = some y)
    (hblank : isWhiteSpace y = false) :
    parseFragment (String.ofList text) env =
      .error (c.unexpected "whitespace or end of input") env := by
  obtain ⟨x, hhead, hx⟩ := hfirst
  obtain ⟨rest, rfl⟩ := List.head?_eq_some_iff.1 hhead
  have htoken : nextToken env.dictionary (.start (x :: rest)) =
      .error (c.unexpected "whitespace or end of input") c := by
    refine (nextToken_start hx).trans ?_
    rw [show Grammar.element env.dictionary ⟨0, x :: rest⟩ = _ from h]
    simp [hy, hblank]
  unfold parseFragment
  rw [String.toList_ofList, fireUpTo_succ, htoken]

theorem fireOnly_congr {element element' : Element}
    (h : env.evaluate element = env.evaluate element') :
    fireOnly element env = fireOnly element' env := by
  unfold fireOnly fire
  rw [h]

theorem fireOnly_of_error {element : Element} {e : EvalError}
    (h : env.evaluate element = .error e) :
    fireOnly element env = .error (.evaluation e 0) env := by
  unfold fireOnly fire
  rw [h]

/-! ### The two spellings of a field -/

/-- A token with a reference in a field is read to its end, whatever the reference stands for. -/
theorem parseFragment_reference {α : Type} {literal : Read α} {before after : List Char}
    {build : Expr α → Element} (hole : Hole env.dictionary (expr literal) before after build)
    {name : String} (hname : name.toList ∈ nameText) :
    parseFragment (String.ofList (before ++ (bracketed name.toList ++ after))) env =
      fireOnly (build (.reference name)) env := by
  obtain ⟨rest, helement, hrest⟩ := hole.reads
  have hread : expr literal ⟨before.length, bracketed name.toList ++ after⟩ =
      .ok (.reference name) ⟨before.length + (bracketed name.toList).length, after⟩ :=
    bind_of_ok (reference_bracketed hname _ _)
  exact parseFragment_of_element (hole.exists_head? _)
    ((helement _ (NoteText.startsField_bracketed _ _)).trans ((bind_of_ok hread).trans (hrest _ _)))

/-- The entry holds the integer, as an int or as a long. -/
def Holds (entry : Entry) (n : Int) : Prop :=
  (∃ i : Integer, entry.value = .int i ∧ i.val = n) ∨ ∃ l : Long, entry.value = .long l ∧ l.val = n

theorem Holds.integer? {entry : Entry} {n : Int} (h : Holds entry n) :
    entry.value.integer? = some n := by
  rcases h with ⟨i, hvalue, rfl⟩ | ⟨l, hvalue, rfl⟩ <;> rw [hvalue] <;> rfl

section

variable {lo hi : Int} [Scalar (Ranged lo hi)]

/-- A reference to an integer stands for it if it is in range. -/
theorem eval_reference (hscalar : ∀ v, (Scalar.ofValue? v : Option (Ranged lo hi)) =
      v.integer?.bind Ranged.ofInt?) {d : Dictionary} {name : String} {entry : Entry}
    (hentry : d.get? name = some entry) {n : Int} (hn : entry.value.integer? = some n)
    {a : Ranged lo hi} : (Expr.reference name).eval d = .ok a ↔ a.val = n := by
  rw [← Ranged.ofInt?_eq_some_iff]
  simp only [Expr.eval, hentry, hscalar, hn, Option.bind_some]
  cases (Ranged.ofInt? n : Option (Ranged lo hi)) <;> simp

variable {literal : Read (Ranged lo hi)} {before after : List Char} {used : Bool}
  {build : Expr (Ranged lo hi) → Element} {least most n : Int} {name : String} {entry : Entry}

/--
A field that is filled with a number and the same field with a reference to the number agree.  If
the field is not used, the number has to be one that the field takes.
-/
theorem agree_of_hole (hscalar : ∀ v, (Scalar.ofValue? v : Option (Ranged lo hi)) =
      v.integer?.bind Ranged.ofInt?) (htakes : TakesIntegers (expr literal) least most)
    (hdepends : DependsOn used least most build)
    (hole : Hole env.dictionary (expr literal) before after build)
    (hname : name.toList ∈ nameText) (hentry : env.dictionary.get? name = some entry)
    (hn : entry.value.integer? = some n) (hused : used = true ∨ least ≤ n ∧ n ≤ most) :
    Agree (parseFragment (String.ofList (before ++ (bracketed name.toList ++ after))) env)
      (parseFragment (String.ofList (before ++ (Decimal.ofInt n ++ after))) env) := by
  obtain ⟨rest, helement, hrest⟩ := hole.reads
  have hfirst := hole.exists_head? (Decimal.ofInt n)
  have hdigits := NoteText.startsField_ofInt n after
  rw [parseFragment_reference hole hname]
  rcases htakes n after hole.stops before.length with ⟨-, -, a, ha, hread⟩ | ⟨hout, e, c, hread⟩
  · have hliteral := parseFragment_of_element hfirst
      ((helement _ hdigits).trans ((bind_of_ok hread).trans (hrest _ _)))
    have heval : (Expr.reference name).eval env.dictionary = (Expr.literal a).eval env.dictionary :=
      (eval_reference hscalar hentry hn).2 ha
    rw [hliteral, fireOnly_congr (hdepends.congr env.dictionary env.defaults _ _ heval)]
    exact .refl _
  · -- A number that the field does not take is not what the reference may stand for, either.
    have hliteral := parseFragment_of_error hfirst
      ((helement _ hdigits).trans (bind_of_error _ hread))
    rw [hliteral]
    cases hevent : env.evaluate (build (.reference name)) with
    | error e =>
      rw [fireOnly_of_error hevent]
      exact .error
    | ok event =>
      obtain ⟨a, ha, hle⟩ := hdepends.needs (hused.resolve_right hout) _ _ _ _ hevent
      rw [(eval_reference hscalar hentry hn).1 ha] at hle
      exact absurd hle hout

end

section

variable {before after : List Char} {used : Bool} {n : Int} {name : String} {entry : Entry}

theorem agree_of_openField (h : OpenField used before after) (hname : name.toList ∈ nameText)
    (hentry : env.dictionary.get? name = some entry) (hn : entry.value.integer? = some n)
    (hused : used = true ∨ 0 ≤ n ∧ n ≤ 255) :
    Agree (parseFragment (String.ofList (before ++ (bracketed name.toList ++ after))) env)
      (parseFragment (String.ofList (before ++ (Decimal.ofInt n ++ after))) env) := by
  cases h with
  | single hx =>
    simp only [List.mem_cons, List.not_mem_nil, or_false] at hx
    rcases hx with rfl | rfl | rfl | rfl | rfl | rfl | rfl
    · exact agree_of_hole (fun _ => rfl) takesIntegers_byteExpr dependsOn_voice hole_voice hname
        hentry hn hused
    · exact agree_of_hole (fun _ => rfl) takesIntegers_byteExpr dependsOn_layer hole_layer hname
        hentry hn hused
    · exact agree_of_hole (fun _ => rfl) takesIntegers_byteExpr dependsOn_instrument hole_instrument
        hname hentry hn hused
    · exact agree_of_hole (fun _ => rfl) takesIntegers_byteExpr dependsOn_channelPressure
        hole_channelPressure hname hentry hn hused
    · exact agree_of_hole (fun _ => rfl) takesIntegers_intExpr dependsOn_tempo hole_tempo hname
        hentry hn (.inl rfl)
    · exact agree_of_hole (fun _ => rfl) takesIntegers_intExpr dependsOn_pitchBend hole_pitchBend
        hname hentry hn (.inl rfl)
    · exact agree_of_hole (fun _ => rfl) takesIntegers_longExpr dependsOn_time hole_time hname
        hentry hn (.inl rfl)
  | controllerIndex hvalue =>
    obtain ⟨v, hole⟩ := exists_hole_controllerIndex hvalue
    exact agree_of_hole (fun _ => rfl) takesIntegers_intExpr (dependsOn_controllerIndex v) hole
      hname hentry hn (.inl rfl)
  | controllerValue hindex =>
    obtain ⟨i, hole⟩ := exists_hole_controllerValue hindex
    exact agree_of_hole (fun _ => rfl) takesIntegers_intExpr (dependsOn_controllerValue i) hole
      hname hentry hn (.inl rfl)
  | key hpressure =>
    obtain ⟨p, hole⟩ := exists_hole_key hpressure
    exact agree_of_hole (fun _ => rfl) takesIntegers_byteExpr (dependsOn_key p) hole hname hentry hn
      hused
  | pressure hkey =>
    obtain ⟨k, hole⟩ := exists_hole_pressure hkey
    exact agree_of_hole (fun _ => rfl) takesIntegers_byteExpr (dependsOn_pressure k) hole hname
      hentry hn hused
  | byte hearlier hlater =>
    obtain ⟨bytes, bytes', hole⟩ := exists_hole_byte hearlier hlater
    exact agree_of_hole (fun _ => rfl) takesIntegers_byteExpr (dependsOn_byte bytes bytes') hole
      hname hentry hn hused
  | velocity hearlier hhead hvs hletter hws hmore =>
    obtain ⟨notes, note, fields, notes', hfields, hole⟩ :=
      exists_hole_velocity hearlier hhead hvs hletter hws hmore
    have hletters : ∀ f ∈ fields, f.1 ∈ ['a', 'd'] := by
      intro f hf
      have hmem := List.mem_map_of_mem (f := Prod.fst) hf
      rw [hfields] at hmem
      obtain ⟨w, hw, heq⟩ := List.mem_map.1 hmem
      exact heq ▸ (hws w hw).1
    have hdepends := dependsOn_velocity hletter hletters notes notes' note
    rw [hfields] at hdepends
    exact agree_of_hole (fun _ => rfl) takesIntegers_byteExpr hdepends hole hname hentry hn hused

/-- A token that is nothing but a reference is read as if it had the letter of its role. -/
theorem parseFragment_bare {c : Char} (hname : name.toList ∈ nameText)
    (hdigits : Decimal.allDigits name.toList = false)
    (hentry : env.dictionary.get? name = some entry) (hrole : entry.role.letter = some c) :
    parseFragment (String.ofList (bracketed name.toList)) env =
      parseFragment (String.ofList (c :: bracketed name.toList)) env := by
  have hbare := parseFragment_of_element ⟨'[', rfl, rfl⟩ (element_reference hname hdigits hentry)
  have htext : c :: bracketed name.toList = [c] ++ (bracketed name.toList ++ []) := by simp
  rw [hbare, htext]
  cases hr : entry.role <;> rw [hr] at hrole <;> cases hrole
  · exact (parseFragment_reference hole_tempo hname).symm
  · exact (parseFragment_reference hole_instrument hname).symm
  · exact (parseFragment_reference hole_voice hname).symm
  · exact (parseFragment_reference hole_layer hname).symm

/--
**Numbers and references to them.**  A token with an integer in one of its fields and the same token
with a reference to an entry that holds the integer agree; only where a later velocity replaces the
one in the field must the integer be a byte.  A token that is nothing but a reference does what the
token with the letter of its role does.
-/
theorem spellings_agree (env : Environment σ) (hname : name.toList ∈ nameText)
    (hentry : env.dictionary.get? name = some entry) (hn : Holds entry n) :
    (∀ used before after, OpenField used before after → used = true ∨ 0 ≤ n ∧ n ≤ 255 →
      Agree (parseFragment (String.ofList (before ++ (bracketed name.toList ++ after))) env)
        (parseFragment (String.ofList (before ++ (Decimal.ofInt n ++ after))) env)) ∧
    ∀ c, Decimal.allDigits name.toList = false → entry.role.letter = some c →
      parseFragment (String.ofList (bracketed name.toList)) env =
        parseFragment (String.ofList (c :: bracketed name.toList)) env :=
  ⟨fun _ _ _ hfield hused => agree_of_openField hfield hname hentry hn.integer? hused,
    fun _ hdigits hrole => parseFragment_bare hname hdigits hentry hrole⟩

end

theorem spellings_agree_voice :
    let entry : Entry := { value := .int ⟨7, by decide, by decide⟩, role := .voice }
    let env : Environment Unit := .ofDictionary (NameMap.empty.insert "Lead" entry) ()
    "Lead".toList ∈ nameText ∧ env.dictionary.get? "Lead" = some entry ∧ Holds entry 7 ∧
      Agree (parseFragment "X1=[Lead]" env) (parseFragment "X1=7" env) ∧
      parseFragment "[Lead]" env = parseFragment "V[Lead]" env := by
  intro entry env
  have hname : "Lead".toList ∈ nameText := mem_nameText (by decide) (by decide)
  have hholds : Holds entry 7 := .inl ⟨_, rfl, rfl⟩
  have hone : ['1'] ∈ integerText :=
    .inl ⟨false, ['1'], rfl, by decide, by simp [IsDigits], by decide, by decide⟩
  have hreference : "X1=[Lead]" =
      String.ofList ('X' :: (['1'] ++ ['=']) ++ (bracketed "Lead".toList ++ [])) := rfl
  have hnumber : "X1=7" =
      String.ofList ('X' :: (['1'] ++ ['=']) ++ (Decimal.ofInt 7 ++ [])) := rfl
  have hbare : "[Lead]" = String.ofList (bracketed "Lead".toList) := rfl
  have hvoice : "V[Lead]" = String.ofList ('V' :: bracketed "Lead".toList) := rfl
  obtain ⟨hfields, hroles⟩ := spellings_agree env hname rfl hholds
  rw [hreference, hnumber, hbare, hvoice]
  exact ⟨hname, rfl, hholds, hfields _ _ _ (.controllerValue hone) (.inl rfl), hroles 'V' rfl rfl⟩

/-- The first attack of `Ca·a5`, which the second one replaces. -/
theorem openField_replaced : OpenField false "Ca".toList "a5".toList := by
  have hpitch : ['C'] ∈ NoteText.pitch :=
    NoteText.cons_mem_oneOf_mul (by decide) ⟨[], ⟨by simp, by decide, by decide⟩, [],
      ⟨by simp [IsDigits], by decide⟩, rfl⟩
  have hhead : ['C'] ∈ NoteText.head :=
    ⟨['C'], .inr ⟨['C'], .inr hpitch, [], .inl rfl, rfl⟩, [],
      ⟨[], .inl rfl, [], NoteText.nil_mem_length, rfl⟩, rfl⟩
  have hlater : ∀ w ∈ [('a', ['5'])], IsVelocity w := by
    intro w hw
    rw [List.mem_singleton.1 hw]
    exact ⟨by decide, .inl ⟨by decide, by simp [IsDigits], by decide, by decide⟩⟩
  have hletter : 'a' ∈ ['a', 'd'] := by decide
  have hnone : ∀ v ∈ ([] : List (Char × List Char)), IsVelocity v := by simp
  exact .velocity (Language.nil_mem_kstar _) hhead hnone hletter hlater (Language.nil_mem_kstar _)

/-- An environment in which `N` is 300. -/
def largeName : Environment Unit :=
  .ofDictionary (NameMap.empty.insert "N" { value := .int ⟨300, by decide, by decide⟩ }) ()

/-- A reference is not looked up where a later velocity replaces it, but a number must be a byte. -/
theorem not_agree_of_replaced :
    ¬ ∀ (env : Environment Unit) (name : String) (entry : Entry) (n : Int) (used : Bool)
      (before after : List Char), name.toList ∈ nameText →
        env.dictionary.get? name = some entry → Holds entry n → OpenField used before after →
        Agree (parseFragment (String.ofList (before ++ (bracketed name.toList ++ after))) env)
          (parseFragment (String.ofList (before ++ (Decimal.ofInt n ++ after))) env) := by
  intro h
  have hagree := h largeName "N" _ 300 false _ _ (mem_nameText (by decide) (by decide)) rfl
    (.inl ⟨_, rfl, rfl⟩) openField_replaced
  obtain ⟨events, env, hreference⟩ : ∃ events env, parseFragment
      (String.ofList ("Ca".toList ++ (bracketed "N".toList ++ "a5".toList))) largeName =
        .ok events env := ⟨_, _, rfl⟩
  obtain ⟨e, env', hnumber⟩ : ∃ e env, parseFragment
      (String.ofList ("Ca".toList ++ (Decimal.ofInt 300 ++ "a5".toList))) largeName =
        .error e env := ⟨_, _, rfl⟩
  rw [hreference, hnumber] at hagree
  cases hagree

end MusicString.Pattern

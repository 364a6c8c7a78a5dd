import MusicString.Proofs.Pattern.Streaming
import MusicString.Proofs.Rule.Cursor

/-!
# The order of the rules

The first character of a token tells which rule can claim it.  Fifteen rules look for a mark of
their own each, and the other two for a bracket and for the first character of a note, so at most
one rule claims a token, with one exception: what starts with a bracket can be a lone reference and
a note.  So the rules may be tried in any order in which lone references come before notes.

* `TokenRule.claims`, `TokenRule.Heeds`: claims, and the first character that they depend on;
* `claims_rules`: at most one rule claims a token, or the two rules for brackets do;
* `elementBy`, `sameButWording_elementBy`: rules in another order;
* `moves_element`: an element takes characters of the text.
-/

namespace MusicString

namespace Grammar

open Text Read

variable {d : Dictionary} {c c' : Cursor} {rule : TokenRule} {order : List TokenRule}

/-! ### Claims -/

/-- Whether a rule does anything but decline: it gives an element, or it fails. -/
def TokenRule.claims (rule : TokenRule) (d : Dictionary) (c : Cursor) : Bool :=
  match rule.read d c with
  | .ok none _ => false
  | _ => true

theorem TokenRule.claims_of_declined (h : rule.read d c = .ok none c') :
    rule.claims d c = false := by
  rw [claims, h]

/-- A rule that does not claim a token declines it, and leaves the cursor where it was. -/
theorem read_of_not_claims (hrule : rule ∈ rules) (h : rule.claims d c = false) :
    rule.read d c = .ok none c := by
  unfold TokenRule.claims at h
  split at h
  · next c' hread => rw [hread, declines_of_mem_rules hrule hread]
  · cases h

/-- A rule that claims only tokens that start with the given character. -/
def TokenRule.Heeds (rule : TokenRule) (first : Char) : Prop :=
  ∀ ⦃d : Dictionary⦄ ⦃c : Cursor⦄, c.peek ≠ some first → rule.claims d c = false

theorem heeds_marked (name : String) (mark : Char) (body : Read Element) :
    (marked name mark body).Heeds mark :=
  fun _ _ h => TokenRule.claims_of_declined (bind_of_ok (eat_of_not_peek h))

theorem heeds_keySignatureRule : keySignatureRule.Heeds 'K' := fun _ c h =>
  TokenRule.claims_of_declined
    ((bind_of_ok (position_apply c)).trans (bind_of_ok (eat_of_not_peek h)))

theorem reference_of_not_peek (h : c.peek ≠ some '[') : reference c = .ok none c :=
  (bind_of_ok rfl).trans (bind_of_ok (eat_of_not_peek h))

theorem heeds_referenceRule : referenceRule.Heeds '[' := fun _ _ h =>
  TokenRule.claims_of_declined ((bind_of_ok rfl).trans (bind_of_ok (reference_of_not_peek h)))

theorem claims_noteRule (h : c.peek.any Pitch.startsNote = false) :
    noteRule.claims d c = false := by
  have hread : noteRule.read d c = .ok none c := by
    refine (bind_of_ok (peek_apply c)).trans ?_
    rw [h]
    rfl
  exact TokenRule.claims_of_declined hread

/-! ### At most one claim -/

/-- The characters that tell the kind of a token, in the order of their rules. -/
def marks : List Char :=
  ['$', '#', '%', 'V', 'L', 'T', 'I', 'K', 'X', '@', '|', '&', '+', '*', '^']

/-- The rules that look for a mark. -/
def markRules : List TokenRule :=
  rules.take marks.length

theorem rules_eq : rules = markRules ++ [referenceRule, noteRule] := rfl

theorem heeds_markRules : List.Forall₂ TokenRule.Heeds markRules marks := by
  have h := heeds_marked
  exact .cons (h ..) <| .cons (h ..) <| .cons (h ..) <| .cons (h ..) <| .cons (h ..) <|
    .cons (h ..) <| .cons (h ..) <| .cons heeds_keySignatureRule <| .cons (h ..) <|
    .cons (h ..) <| .cons (h ..) <| .cons (h ..) <| .cons (h ..) <| .cons (h ..) <|
    .cons (h ..) .nil

/-- Rules that look for characters claim a token at most as often as its first one is among them. -/
theorem countP_claims_le {rules : List TokenRule} {firsts : List Char}
    (h : List.Forall₂ TokenRule.Heeds rules firsts) (d : Dictionary) (c : Cursor) :
    rules.countP (·.claims d c) ≤ (firsts.map some).count c.peek := by
  induction h with
  | nil => exact Nat.le_refl _
  | @cons rule first rules firsts hfirst _ ih =>
    by_cases hpeek : c.peek = some first
    · rw [List.countP_cons, List.map_cons, hpeek, List.count_cons_self, ← hpeek]
      split <;> omega
    · rw [List.countP_cons_of_neg (by simp [hfirst hpeek])]
      exact ih.trans List.count_le_count_cons

theorem countP_markRules_le (d : Dictionary) (c : Cursor) :
    markRules.countP (·.claims d c) ≤ 1 :=
  (countP_claims_le heeds_markRules d c).trans (List.nodup_iff_count.1 (by decide) _)

/-- No rule that looks for a mark claims a token that starts without one. -/
theorem filter_markRules (h : c.peek ∉ marks.map some) :
    markRules.filter (·.claims d c) = [] := by
  have hle := countP_claims_le heeds_markRules d c
  rw [List.count_eq_zero_of_not_mem h, List.countP_eq_length_filter] at hle
  exact List.eq_nil_of_length_eq_zero (Nat.le_zero.1 hle)

/-- A mark starts neither a reference nor a note. -/
theorem not_claims_of_mark (h : c.peek ∈ marks.map some) :
    referenceRule.claims d c = false ∧ noteRule.claims d c = false := by
  obtain ⟨mark, hmark, hpeek⟩ := List.mem_map.1 h
  have hother : marks.all (fun mark => mark ≠ '[' && !Pitch.startsNote mark) = true := rfl
  obtain ⟨hbracket, hstarts⟩ : mark ≠ '[' ∧ Pitch.startsNote mark = false := by
    simpa using List.all_eq_true.1 hother mark hmark
  constructor
  · exact heeds_referenceRule (by simpa [← hpeek] using hbracket)
  · exact claims_noteRule (by simpa [← hpeek] using hstarts)

/-- At most one rule claims a token, or it starts with a bracket and the last two rules do. -/
theorem claims_rules (d : Dictionary) (c : Cursor) :
    rules.countP (·.claims d c) ≤ 1 ∨
      c.peek = some '[' ∧ rules.filter (·.claims d c) = [referenceRule, noteRule] := by
  have hsplit : rules.filter (·.claims d c) = markRules.filter (·.claims d c) ++
      [referenceRule, noteRule].filter (·.claims d c) := by
    rw [← List.filter_append, ← rules_eq]
  rw [List.countP_eq_length_filter, hsplit]
  by_cases hmark : c.peek ∈ marks.map some
  · obtain ⟨hreference, hnote⟩ := not_claims_of_mark (d := d) hmark
    left
    simpa [hreference, hnote, List.countP_eq_length_filter] using countP_markRules_le d c
  · rw [filter_markRules hmark]
    by_cases hpeek : c.peek = some '['
    · cases hreference : referenceRule.claims d c <;> cases hnote : noteRule.claims d c <;>
        simp [hreference, hnote, hpeek]
    · left
      rw [List.nil_append, List.filter_cons_of_neg (by simp [heeds_referenceRule hpeek])]
      exact List.length_filter_le _ _

/-! ### Rules in another order -/

/-- A claim is final. -/
theorem firstClaim_of_claims (h : rule.claims d c = true) (rest : List TokenRule) :
    firstClaim d (rule :: rest) c = rule.read d c := by
  cases hread : rule.read d c with
  | error e c' => exact bind_of_error _ hread
  | ok claim c' =>
    cases claim with
    | some element => exact bind_of_ok hread
    | none =>
      rw [TokenRule.claims_of_declined hread] at h
      cases h

/-- The rules that decline may be left out. -/
theorem firstClaim_filter (h : order ⊆ rules) (d : Dictionary) (c : Cursor) :
    firstClaim d order c = firstClaim d (order.filter (·.claims d c)) c := by
  induction order with
  | nil => rfl
  | cons rule rest ih =>
    obtain ⟨hrule, hrest⟩ := List.cons_subset.1 h
    rw [List.filter_cons]
    cases hclaims : rule.claims d c with
    | false => exact (bind_of_ok (read_of_not_claims hrule hclaims)).trans (ih hrest)
    | true => exact (firstClaim_of_claims hclaims _).trans (firstClaim_of_claims hclaims _).symm

/-- The same rules claim a token, in the same order. -/
theorem filter_claims_perm (hperm : order.Perm rules)
    (hkeeps : [referenceRule, noteRule].Sublist order) (d : Dictionary) (c : Cursor) :
    order.filter (·.claims d c) = rules.filter (·.claims d c) := by
  have hclaims := hperm.filter (·.claims d c)
  rcases claims_rules d c with hone | ⟨-, htwo⟩
  · rw [List.countP_eq_length_filter] at hone
    generalize rules.filter (·.claims d c) = claiming at hclaims hone
    match claiming, hone with
    | [], _ => exact List.perm_nil.1 hclaims
    | [_], _ => exact List.perm_singleton.1 hclaims
  · -- Both rules stand in either list, which holds nothing else.
    have hboth : [referenceRule, noteRule].filter (·.claims d c) = [referenceRule, noteRule] := by
      rw [← htwo, List.filter_filter]
      simp
    have hsub := hkeeps.filter (·.claims d c)
    rw [hboth, ← htwo] at hsub
    exact (hsub.eq_of_length hclaims.length_eq.symm).symm

/-- Takes one element by the given rules, tried in order. -/
def elementBy (order : List TokenRule) (d : Dictionary) : Read Element := do
  match ← firstClaim d order with
  | some element => return element
  | none =>
    let names := separated ", " (order.map (·.name))
    unexpected s!"one of [{names}]"

theorem elementBy_rules : elementBy rules = element := rfl

/-- The same value at the same place, or failures of one kind and position. -/
inductive SameButWording {α : Type} :
    EStateM.Result ParseError Cursor α → EStateM.Result ParseError Cursor α → Prop
  | ok (a : α) (c : Cursor) : SameButWording (.ok a c) (.ok a c)
  | error {e e' : ParseError} (c : Cursor) :
    e.kind = e'.kind → e.position = e'.position → SameButWording (.error e c) (.error e' c)

/-- The order of the rules shows at most in the text of a failure that lists them. -/
theorem sameButWording_elementBy (hperm : order.Perm rules)
    (hkeeps : [referenceRule, noteRule].Sublist order) (d : Dictionary) (c : Cursor) :
    SameButWording (elementBy order d c) (element d c) := by
  have hclaim : firstClaim d order c = firstClaim d rules c := by
    rw [firstClaim_filter hperm.subset, filter_claims_perm hperm hkeeps,
      ← firstClaim_filter (List.Subset.refl rules)]
  rw [← elementBy_rules]
  cases hfirst : firstClaim d rules c with
  | error e c' =>
    rw [elementBy, bind_of_error _ (hclaim.trans hfirst), elementBy, bind_of_error _ hfirst]
    exact .error c' rfl rfl
  | ok claim c' =>
    rw [elementBy, bind_of_ok (hclaim.trans hfirst), elementBy, bind_of_ok hfirst]
    cases claim with
    | some element => exact .ok element c'
    | none => exact .error c' rfl rfl

/-- Where notes come first, they take what stands for a tempo. -/
example :
    let d := (.empty : Dictionary).insert "Fast" ⟨.int (.nearest 180), .tempo⟩
    let c : Cursor := .start "[Fast]".toList
    element d c = .ok (.tempo (.reference "Fast")) (c.move 6) ∧
      elementBy (markRules ++ [noteRule, referenceRule]) d c =
        .ok (.note { value := .numeric (.reference "Fast") }) (c.move 6) :=
  ⟨rfl, rfl⟩

/-! ### Progress -/

/-- An element takes at least one character, and only characters of the text. -/
theorem moves_element {element : Element} (h : Grammar.element d c = .ok element c') :
    ∃ n, 0 < n ∧ n ≤ c.rest.length ∧ c' = c.move n := by
  obtain ⟨n, hn, rfl⟩ := (within_of_keeps fun f hf => f.keeps_element d hf).of_ok h
  have hlt := takes_element d h
  rw [Cursor.pos_move] at hlt
  exact ⟨n, by omega, hn, rfl⟩

end Grammar

end MusicString

import MusicString.Proofs.Grammar.Locality

/-!
# Reading one element

Every rule either declines and leaves the cursor where it was, or claims the token, and then it
takes at least one character or fails.  So the first claim on a token does not depend on how far
other rules look ahead, and reading an element takes at least one character.

* `TokenRule.Declines`, `declines_of_mem_rules`;
* `advances_of_mem_rules`, `takes_element`;
* `Frame.agrees_element`: an element is read alike in its token alone and in the pattern.
-/

namespace MusicString.Grammar

open Text Read

/-! ### Declining -/

/-- A rule that leaves the cursor where it was if it declines. -/
def TokenRule.Declines (rule : TokenRule) : Prop :=
  ∀ ⦃d : Dictionary⦄ ⦃c c' : Cursor⦄, rule.read d c = .ok none c' → c' = c

theorem declines_marked (name : String) (mark : Char) (body : Read Element) :
    (marked name mark body).Declines := by
  intro d c c' h
  obtain ⟨eaten, e, heat, h⟩ := bind_eq_ok h
  cases eaten with
  | true =>
    obtain ⟨element, e', -, h⟩ := bind_eq_ok h
    cases h
  | false =>
    cases h
    exact eat_eq_ok_false heat

theorem declines_keySignatureRule : keySignatureRule.Declines := by
  intro d c c' h
  obtain ⟨start, e, hstart, h⟩ := bind_eq_ok h
  cases hstart
  obtain ⟨eaten, e', heat, h⟩ := bind_eq_ok h
  cases eaten with
  | true =>
    obtain ⟨letter, e', -, h⟩ := bind_eq_ok h
    obtain ⟨shift, e', -, h⟩ := bind_eq_ok h
    obtain ⟨scale, e', -, h⟩ := bind_eq_ok h
    cases h
  | false =>
    cases h
    exact eat_eq_ok_false heat

theorem reference_eq_none {c c' : Cursor} (h : reference c = .ok none c') : c' = c := by
  obtain ⟨start, e, hstart, h⟩ := bind_eq_ok h
  cases hstart
  obtain ⟨opened, e, heat, h⟩ := bind_eq_ok h
  cases opened with
  | false =>
    cases h
    exact eat_eq_ok_false heat
  | true =>
    obtain ⟨name, e, -, h⟩ := bind_eq_ok h
    obtain ⟨closed, e, -, h⟩ := bind_eq_ok h
    cases closed with
    | false => cases h
    | true => by_cases hname : name = [] <;> simp only [hname, ↓reduceIte] at h <;> cases h

theorem declines_referenceRule : referenceRule.Declines := by
  intro d c c' h
  obtain ⟨start, e, hstart, h⟩ := bind_eq_ok h
  cases hstart
  obtain ⟨name, e', hname, h⟩ := bind_eq_ok h
  cases name with
  | none =>
    cases h
    exact reference_eq_none hname
  | some name =>
    obtain ⟨boundary, e'', -, h⟩ := bind_eq_ok h
    split at h
    · cases h
      rfl
    · cases hentry : d.get? name <;> rw [hentry] at h <;> cases h

theorem declines_noteRule : noteRule.Declines := by
  intro d c c' h
  obtain ⟨next, e, hnext, h⟩ := bind_eq_ok h
  cases hnext
  split at h
  · obtain ⟨element, e', -, h⟩ := bind_eq_ok h
    cases h
  · cases h
    rfl

/-- A rule looks for a mark, or it is one of three. -/
theorem rule_cases {rule : TokenRule} (h : rule ∈ rules) :
    (∃ name mark body, rule = marked name mark body ∧ body.Forward) ∨
      rule = keySignatureRule ∨ rule = referenceRule ∨ rule = noteRule := by
  have hmarked {name : String} {mark : Char} {body : Read Element}
      (hbody : ∀ f : Frame, f.after = [] → f.Keeps body) :
      ∃ name' mark' body', marked name mark body = marked name' mark' body' ∧ body'.Forward :=
    ⟨name, mark, body, rfl, forward_of_keeps hbody⟩
  simp only [rules, List.mem_cons, List.not_mem_nil, or_false] at h
  rcases h with rfl | rfl | rfl | rfl | rfl | rfl | rfl | rfl | rfl | rfl | rfl | rfl | rfl | rfl |
    rfl | rfl | rfl
  · exact .inl (hmarked fun _ _ => Frame.keeps_definition)
  · exact .inl (hmarked fun _ h => Frame.keeps_comment (Frame.stops_of_nil h))
  · exact .inl (hmarked fun _ _ => Frame.keeps_property)
  · exact .inl (hmarked fun _ _ => Frame.Keeps.map _ Frame.keeps_byteExpr)
  · exact .inl (hmarked fun _ _ => Frame.Keeps.map _ Frame.keeps_byteExpr)
  · exact .inl (hmarked fun _ _ => Frame.Keeps.map _ Frame.keeps_intExpr)
  · exact .inl (hmarked fun _ _ => Frame.Keeps.map _ Frame.keeps_byteExpr)
  · exact .inr (.inl rfl)
  · exact .inl (hmarked fun _ _ => Frame.keeps_controller)
  · exact .inl (hmarked fun _ _ => Frame.Keeps.map _ Frame.keeps_longExpr)
  · exact .inl (hmarked fun _ _ => Frame.Keeps.pure _)
  · exact .inl (hmarked fun _ _ => Frame.Keeps.map _ Frame.keeps_intExpr)
  · exact .inl (hmarked fun _ _ => Frame.Keeps.map _ Frame.keeps_byteExpr)
  · exact .inl (hmarked fun _ _ => Frame.keeps_polyphonicPressure)
  · exact .inl (hmarked fun _ _ => Frame.keeps_systemExclusive)
  · exact .inr (.inr (.inl rfl))
  · exact .inr (.inr (.inr rfl))

theorem declines_of_mem_rules {rule : TokenRule} (h : rule ∈ rules) : rule.Declines := by
  rcases rule_cases h with ⟨name, mark, body, rfl, -⟩ | rfl | rfl | rfl
  · exact declines_marked name mark body
  · exact declines_keySignatureRule
  · exact declines_referenceRule
  · exact declines_noteRule

/-! ### Advancing -/

theorem advances_reference : reference.Advances := by
  intro c name c' h
  obtain ⟨start, e, hstart, h⟩ := bind_eq_ok h
  cases hstart
  obtain ⟨opened, e, heat, h⟩ := bind_eq_ok h
  cases opened with
  | false => cases h
  | true =>
    have hforward : Forward (token false [']']) :=
      forward_of_keeps fun f _ => Frame.keeps_token
    obtain ⟨chars, e', htoken, h⟩ := bind_eq_ok h
    obtain ⟨closed, e'', hclose, h⟩ := bind_eq_ok h
    cases closed with
    | false => cases h
    | true =>
      have htaken := hforward htoken
      have hopened := eat_eq_ok_true heat
      have hclosed := eat_eq_ok_true hclose
      subst hopened hclosed
      by_cases hname : chars = [] <;> simp only [hname, ↓reduceIte] at h <;> cases h
      simp only [Cursor.pos_move] at htaken ⊢
      omega

theorem forward_accidentals (start : Nat) : (accidentals start).Forward := by
  intro c net c' h
  obtain ⟨run, e, hrun, h⟩ := bind_eq_ok h
  rw [run_apply] at hrun
  cases hrun
  dsimp only at h
  split at h <;> cases h
  simp

theorem namedNote_eq_ok {name : String} {start : Nat} {c c' : Cursor} {value : NoteValue}
    (h : namedNote name start c = .ok value c') : c' = c := by
  unfold namedNote at h
  split at h
  · cases hn : (Ranged.ofInt? (Decimal.value name.toList : Int) : Option Byte) <;>
      rw [hn] at h <;> cases h
    rfl
  · cases h
    rfl

theorem takes_noteValue : noteValue.Takes := by
  intro c value c' h
  cases hstarts : c.peek.any Pitch.startsNote with
  | false =>
    rw [noteValue_of_not_start hstarts] at h
    cases h
  | true =>
    obtain ⟨x, hx, hstarts⟩ := (Option.any_eq_true _ _).1 hstarts
    rcases Pitch.startsNote_cases hstarts with ⟨base, hbase⟩ | rfl | rfl
    · rw [noteValue_of_letter hx hbase] at h
      obtain ⟨shift, e, hshift, h⟩ := bind_eq_ok h
      obtain ⟨octave, e', hoctave, h⟩ := bind_eq_ok h
      have hforward := forward_of_keeps (fun f _ => f.keeps_octave) hoctave
      have hle := forward_accidentals _ hshift
      cases h
      simp only [Cursor.pos_move] at hle
      omega
    · rw [noteValue_of_rest hx] at h
      cases h
      exact Nat.lt_succ_self _
    · rw [noteValue_of_bracket hx] at h
      obtain ⟨name, e, hname, h⟩ := bind_eq_ok h
      cases name with
      | none => cases h
      | some name =>
        rw [namedNote_eq_ok h]
        exact advances_reference hname

theorem takes_noteToken : noteToken.Takes := by
  have hnote : (note .sequential).Takes :=
    takes_noteValue.bind fun value => forward_of_keeps fun f _ => f.keeps_noteFrom _ value
  refine hnote.bind fun first => forward_of_keeps fun f _ => ?_
  exact Frame.Keeps.bind (Frame.keeps_iterate Frame.keeps_joined Frame.advances_joined _)
    fun _ => Frame.Keeps.pure _

theorem advances_of_mem_rules {rule : TokenRule} (h : rule ∈ rules) (d : Dictionary) :
    (rule.read d).Advances := by
  rcases rule_cases h with ⟨name, mark, body, rfl, hbody⟩ | rfl | rfl | rfl
  · exact advances_eat (hbody.bind fun _ => forward_pure _) advances_none
  · intro c element c' h
    obtain ⟨start, e, hstart, h⟩ := bind_eq_ok h
    cases hstart
    refine advances_eat ?_ advances_none h
    refine (forward_of_keeps fun f _ => f.keeps_keyLetter).bind fun letter => ?_
    refine (forward_accidentals _).bind fun shift => ?_
    refine Forward.bind (forward_of_keeps fun f hf => ?_) fun scale => forward_pure _
    exact Frame.keeps_keyword fun _ _ => Frame.stops_of_nil hf
  · intro c element c' h
    obtain ⟨start, e, hstart, h⟩ := bind_eq_ok h
    cases hstart
    obtain ⟨name, e', hname, h⟩ := bind_eq_ok h
    cases name with
    | none => cases h
    | some name =>
      have hlt := advances_reference hname
      obtain ⟨boundary, e'', hboundary, h⟩ := bind_eq_ok h
      cases hboundary
      split at h
      · cases h
      · cases hentry : d.get? name <;> rw [hentry] at h <;> cases h
        exact hlt
  · intro c element c' h
    obtain ⟨next, e, hnext, h⟩ := bind_eq_ok h
    cases hnext
    split at h
    · exact takes_noteToken.advances_map h
    · cases h

/-! ### The first claim -/

theorem takes_element (d : Dictionary) : (element d).Takes := by
  have hclaim : ∀ rest ⊆ rules, (firstClaim d rest).Advances := by
    intro rest hrest
    induction rest with
    | nil => exact advances_none
    | cons rule rest ih =>
      obtain ⟨hrule, hrest⟩ := List.cons_subset.1 hrest
      intro c element c' h
      obtain ⟨claim, e, hread, h⟩ := bind_eq_ok h
      cases claim with
      | some claimed =>
        cases h
        exact advances_of_mem_rules hrule d hread
      | none =>
        -- The rules after it start from the same cursor.
        rw [declines_of_mem_rules hrule hread] at h
        exact ih hrest h
  intro c element c' h
  obtain ⟨claim, e, hread, h⟩ := bind_eq_ok h
  cases claim with
  | some claimed =>
    cases h
    exact hclaim rules (List.Subset.refl _) hread
  | none => cases h

end MusicString.Grammar

namespace MusicString.Frame

open Text Read Grammar

variable {f : Frame} {c c' : Cursor}

theorem agrees_firstClaim (d : Dictionary) (hc : f.Places c c')
    (h : f.Stops (· ≠ '\n') ∨ c.peek ≠ some '#') {rest : List TokenRule} (hrest : rest ⊆ rules) :
    f.Agrees Eq (firstClaim d rest c) (firstClaim d rest c') := by
  induction rest with
  | nil => exact .ok rfl hc
  | cons rule rest ih =>
    obtain ⟨hrule, hrest⟩ := List.cons_subset.1 hrest
    have hread := agrees_rule d hc h rule hrule
    have hstay := declines_of_mem_rules hrule (d := d) (c := c)
    have hstay' := declines_of_mem_rules hrule (d := d) (c := c')
    show f.Agrees Eq (EStateM.bind (rule.read d) _ c) (EStateM.bind (rule.read d) _ c')
    unfold EStateM.bind
    generalize rule.read d c = x at hread hstay
    generalize rule.read d c' = x' at hread hstay'
    cases hread with
    | @ok claim claim' e e' heq hplaces =>
      subst heq
      cases claim with
      | some element => exact .ok rfl hplaces
      | none =>
        rw [hstay rfl, hstay' rfl]
        exact ih hrest
    | error he hplaces => exact .error he hplaces

/-- An element is read alike, a comment only if it goes on, if at all, with a line break. -/
theorem agrees_element (d : Dictionary) (hc : f.Places c c')
    (h : f.Stops (· ≠ '\n') ∨ c.peek ≠ some '#') :
    f.Agrees Eq (element d c) (element d c') := by
  have hclaim := agrees_firstClaim d hc h (List.Subset.refl _)
  show f.Agrees Eq (EStateM.bind (firstClaim d rules) _ c) (EStateM.bind (firstClaim d rules) _ c')
  unfold EStateM.bind
  generalize firstClaim d rules c = x at hclaim
  generalize firstClaim d rules c' = x' at hclaim
  cases hclaim with
  | @ok claim claim' e e' heq hplaces =>
    subst heq
    cases claim with
    | some element => exact .ok rfl hplaces
    | none => exact .error (hplaces.reports_unexpected _) hplaces
  | error he hplaces => exact .error he hplaces

end MusicString.Frame

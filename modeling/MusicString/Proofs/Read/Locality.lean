import MusicString.Proofs.Read.Frame

/-!
# Reads keep to their token

The reads of tokens, numbers, references and expressions keep to every frame, and the combinators
hand this on.  Repetitions are bounded by the number of characters that follow, which is larger in
the longer text: this makes no difference for a step that takes a character whenever it goes on.
-/

namespace MusicString.Frame

open Text Read

variable {f : Frame} {α : Type}

theorem keeps_token {delimiters : List Char} : f.Keeps (token false delimiters) := by
  unfold token
  refine Keeps.bind (keeps_run (f.stops_of_whiteSpace fun x hx => by simp [hx])) fun taken => ?_
  refine Follows.bind (R := fun _ _ => True) (fun c c' hc => .ok trivial hc) fun _ _ _ => ?_
  exact Keeps.pure taken

theorem keeps_digits : f.Keeps digits :=
  keeps_run (f.stops_of_all (by decide))

theorem keeps_decimalByte : f.Keeps decimalByte := by
  refine Follows.get_bind fun c c' hc => Keeps.bind keeps_digits fun ds => ?_
  by_cases hds : ds = []
  · simp only [hds, ↓reduceIte]
    exact follows_unexpected _
  · simp only [hds, ↓reduceIte]
    split
    · exact Keeps.pure _
    · exact Follows.set_bind hc (Follows.throw (hc.shifted.reports_grammar _))

theorem keeps_chars (count : Option Nat) (strict : Bool) {classes : List CharClass}
    {set : List Char} (hp : f.Stops (isWanted classes set)) :
    f.Keeps (chars count strict classes set) := by
  refine Follows.get_bind fun c c' hc => ?_
  cases count with
  | none => exact keeps_run hp
  | some n =>
    refine Keeps.bind (keeps_runUpTo n hp) fun taken => ?_
    split
    · refine Follows.bind follows_position fun stop stop' hstop => ?_
      exact Follows.set_bind hc (Follows.throw (hstop.reports_grammar _))
    · exact Keeps.pure taken

theorem keeps_hexByte : f.Keeps hexByte :=
  Keeps.bind (keeps_chars _ _ (f.stops_of_all (by decide +kernel))) fun _ => Keeps.pure _

theorem keeps_reference : f.Keeps reference := by
  refine Follows.get_bind fun c c' hc => ?_
  refine Keeps.bind (keeps_eat (f.stops_of_all (by decide))) fun opened => ?_
  cases opened with
  | false => exact Keeps.pure none
  | true =>
    refine Keeps.bind keeps_token fun name => ?_
    refine Keeps.bind (keeps_eat (f.stops_of_all (by decide))) fun closed => ?_
    cases closed with
    | false =>
      refine Follows.get_bind fun stop stop' hstop => ?_
      exact Follows.set_bind hc (Follows.throw (hstop.reports_unexpected _))
    | true =>
      by_cases hname : name = []
      · simp only [hname, ↓reduceIte]
        exact Follows.set_bind hc (Follows.throw (hc.shifted.reports_grammar _))
      · simp only [hname, ↓reduceIte]
        exact Keeps.pure _

theorem keeps_long (what : String) : f.Keeps (long what) := by
  refine Follows.get_bind fun c c' hc => ?_
  refine Keeps.bind (keeps_eat (f.stops_of_all (by decide))) fun negative => ?_
  refine Keeps.bind keeps_digits fun ds => ?_
  by_cases hds : ds = []
  · simp only [hds, ↓reduceIte]
    exact Follows.set_bind hc (follows_unexpected _)
  · simp only [hds, ↓reduceIte]
    split
    · exact Keeps.pure _
    · exact Follows.set_bind hc (Follows.throw (hc.shifted.reports_grammar _))

theorem keeps_integer : f.Keeps integer := by
  refine Follows.get_bind fun c c' hc => Keeps.bind (keeps_long _) fun n => ?_
  split
  · exact Keeps.pure _
  · exact Follows.set_bind hc (Follows.throw (hc.shifted.reports_grammar _))

theorem keeps_fraction : f.Keeps fraction := by
  intro c c' hc
  have hpoint := hc.peek_eq_some (x := '.') (f.stops_of_all (by decide))
  by_cases hpeek : c.peek = some '.'
  · have hnext := hc.peekAt_any (Cursor.length_pos_of_peek hpeek)
      (p := Char.isDigit) (f.stops_of_all (by decide))
    simp only [fraction_apply, hpoint.2 hpeek, hpeek, hnext, true_and]
    split
    · exact keeps_digits (hc.move (Cursor.length_pos_of_peek hpeek))
    · exact .ok rfl hc
  · simp only [fraction_apply, hpeek, mt hpoint.1 hpeek, false_and, ↓reduceIte]
    exact .ok rfl hc

theorem keeps_double : f.Keeps double := by
  refine Follows.get_bind fun c c' hc => ?_
  refine Keeps.bind (keeps_eat (f.stops_of_all (by decide))) fun negative => ?_
  refine Keeps.bind keeps_digits fun whole => ?_
  refine Keeps.bind keeps_fraction fun part => ?_
  by_cases hnone : whole = [] ∧ part = []
  · simp only [hnone, and_self, ↓reduceIte]
    exact Follows.set_bind hc (follows_unexpected _)
  · simp only [hnone, ↓reduceIte]
    exact Keeps.pure _

theorem keeps_expr {literal : Read α} (h : f.Keeps literal) : f.Keeps (expr literal) := by
  unfold expr
  refine Keeps.bind keeps_reference fun name => ?_
  cases name with
  | some name => exact Keeps.pure _
  | none => exact Keeps.bind h fun _ => Keeps.pure _

theorem keeps_byteExpr : f.Keeps byteExpr :=
  keeps_expr keeps_decimalByte

theorem keeps_intExpr : f.Keeps intExpr :=
  keeps_expr keeps_integer

theorem keeps_longExpr : f.Keeps longExpr :=
  keeps_expr (keeps_long _)

theorem keeps_doubleExpr : f.Keeps doubleExpr :=
  keeps_expr keeps_double

/-! ### Words -/

theorem keeps_word {vocabulary : List String} {delimiters : List Char} :
    f.Keeps (word vocabulary delimiters false) := by
  refine Follows.get_bind fun c c' hc => Keeps.bind keeps_token fun taken => ?_
  dsimp only
  split
  · exact Keeps.pure _
  · exact Follows.set_bind hc (Follows.throw (hc.shifted.reports_grammar _))

/-- A word that holds no character like the one after the text starts there if it fits in. -/
theorem isPrefixOf_append_after {w : List Char} (hw : f.Stops w.contains) (text : List Char) :
    w.isPrefixOf (text ++ f.after) = w.isPrefixOf text := by
  -- Where the text ends, the word would have to go on with the character after it.
  induction text generalizing w with
  | nil =>
    cases w with
    | nil => rfl
    | cons x w =>
      cases hafter : f.after with
      | nil => rfl
      | cons y after =>
        have hne : ¬ y = x := fun h => by simp [Stops, hafter, h] at hw
        simp [List.isPrefixOf, Ne.symm hne]
  | cons y text ih =>
    cases w with
    | nil => rfl
    | cons x w =>
      have hw' : f.Stops w.contains := by
        unfold Stops at hw ⊢
        cases hafter : f.after.head? <;> simp_all
      simp [List.isPrefixOf, ih hw']

theorem mem_of_longest {words : List String} {w : String} (h : longest words = some w) :
    w ∈ words := by
  induction words generalizing w with
  | nil => cases h
  | cons v words ih =>
    unfold longest at h
    split at h
    · cases h; exact List.mem_cons_self
    · split at h
      · cases h; exact List.mem_cons_self
      · cases h; exact List.mem_cons_of_mem _ (ih ‹_›)

theorem length_le_of_longestMatch {vocabulary : List String} {text : List Char} {w : String}
    (h : longestMatch vocabulary text = some w) : w.length ≤ text.length := by
  have hpre := (List.mem_filter.1 (mem_of_longest h)).2
  rw [← String.length_toList]
  exact (List.isPrefixOf_iff_prefix.1 hpre).length_le

theorem keeps_keyword {vocabulary : List String}
    (h : ∀ w ∈ vocabulary, f.Stops w.toList.contains) : f.Keeps (keyword vocabulary) := by
  intro c c' hc
  have hmatch : longestMatch vocabulary c'.rest = longestMatch vocabulary c.rest := by
    unfold longestMatch
    rw [hc.rest_eq, List.filter_congr fun w hw => isPrefixOf_append_after (h w hw) c.rest]
  cases hw : longestMatch vocabulary c.rest with
  | some w =>
    rw [keyword_of_match hw, keyword_of_match (hmatch.trans hw)]
    exact .ok rfl (hc.move (length_le_of_longestMatch hw))
  | none =>
    rw [keyword_of_no_match hw, keyword_of_no_match (hmatch.trans hw)]
    exact .error (hc.reports_unexpected _) hc

/-! ### Options and repetitions -/

theorem keeps_optional {r : Read α} (h : f.Keeps r) : f.Keeps (Read.optional r) := by
  intro c c' hc
  unfold Read.optional
  have hr := h hc
  generalize r c = x at hr
  generalize r c' = x' at hr
  cases hr with
  | ok heq hplaces => exact .ok (congrArg some heq) hplaces
  | @error e e' d d' he hplaces =>
    simp only [hc.pos_eq_iff hplaces]
    split
    · exact .ok rfl hplaces
    · exact .error he hplaces

/-- Repetitions go on alike as long as they may take all characters that are left of the text. -/
theorem agrees_repeatedUpTo {r : Read α} (h : f.Keeps r) (hr : r.Forward) {m n : Nat}
    {c c' : Cursor} (hc : f.Places c c') (hm : c.rest.length < m) (hn : c.rest.length < n) :
    f.Agrees Eq (repeatedUpTo r m c) (repeatedUpTo r n c') := by
  induction m generalizing n c c' with
  | zero => omega
  | succ m ih =>
    obtain ⟨n, rfl⟩ := Nat.exists_eq_succ_of_ne_zero (n := n) (by omega)
    unfold repeatedUpTo
    have hagrees := h hc
    have hforward := hr (c := c)
    generalize r c = x at hagrees hforward
    generalize r c' = x' at hagrees
    cases hagrees with
    | @ok a a' d d' heq hd =>
      subst heq
      simp only [hc.pos_eq_iff hd]
      split
      · exact .ok rfl hd
      · -- A repetition that goes on has taken a character, so neither bound is met.
        have hle := hforward rfl
        have hlength := hd.pos_add_length.trans hc.pos_add_length.symm
        have hrest := ih hd (n := n) (by omega) (by omega)
        generalize repeatedUpTo r m d = y at hrest
        generalize repeatedUpTo r n d' = y' at hrest
        cases hrest with
        | ok heq hplaces => exact .ok (congrArg (a :: ·) heq) hplaces
        | error he hplaces => exact .error he hplaces
    | @error e e' d d' he hd =>
      simp only [hc.pos_eq_iff hd]
      split
      · exact .ok rfl hd
      · exact .error he hd

theorem keeps_repeated {r : Read α} (h : f.Keeps r) (hr : r.Forward) : f.Keeps (repeated r) := by
  intro c c' hc
  refine agrees_repeatedUpTo h hr hc (Nat.lt_succ_self _) ?_
  rw [hc.rest_eq, List.length_append]
  omega

/-- Iterations go on alike as long as they may take all characters that are left of the text. -/
theorem agrees_iterateUpTo {step : α → Read (Option α)} (h : ∀ a, f.Keeps (step a))
    (hstep : ∀ a, (step a).Advances) {m n : Nat} (a : α) {c c' : Cursor} (hc : f.Places c c')
    (hm : c.rest.length < m) (hn : c.rest.length < n) :
    f.Agrees Eq (iterateUpTo step m a c) (iterateUpTo step n a c') := by
  induction m generalizing n a c c' with
  | zero => omega
  | succ m ih =>
    obtain ⟨n, rfl⟩ := Nat.exists_eq_succ_of_ne_zero (n := n) (by omega)
    rw [iterateUpTo_succ, iterateUpTo_succ]
    have hagrees := h a hc
    have hadvances := hstep a (c := c)
    generalize step a c = x at hagrees hadvances
    generalize step a c' = x' at hagrees
    cases hagrees with
    | @ok b b' d d' heq hd =>
      subst heq
      cases b with
      | none => exact .ok rfl hd
      | some b =>
        have hlt := hadvances rfl
        have hlength := hd.pos_add_length.trans hc.pos_add_length.symm
        exact ih b hd (by omega) (by omega)
    | error he hd => exact .error he hd

theorem keeps_iterate {step : α → Read (Option α)} (h : ∀ a, f.Keeps (step a))
    (hstep : ∀ a, (step a).Advances) (a : α) : f.Keeps (iterate step a) := by
  intro c c' hc
  refine agrees_iterateUpTo h hstep a hc (Nat.lt_succ_self _) ?_
  rw [hc.rest_eq, List.length_append]
  omega

end MusicString.Frame

import MusicString.Proofs.Read.Spelling

/-!
# Reading integers as they are written

The reads of bytes, ints and longs take the digits of an integer exactly if it lies in their range,
and fail at any other.  The range of longs that can be written lacks the least one, because the
digits without the sign must fit, too.
-/

namespace MusicString.Read

open Text

/-! ### The digits of an integer -/

theorem ofInt_eq (n : Int) :
    Decimal.ofInt n = sign (decide (n < 0)) ++ Decimal.digits n.natAbs := by
  cases n with
  | ofNat n => simp [Decimal.ofInt, sign]
  | negSucc n => simp [Decimal.ofInt, sign, Int.negSucc_lt_zero]

theorem signed_natAbs (n : Int) : Decimal.signed (decide (n < 0)) n.natAbs = n := by
  unfold Decimal.signed
  split
  · rename_i h
    have hneg := of_decide_eq_true h
    omega
  · rename_i h
    have hpos := of_decide_eq_false (Bool.eq_false_iff.2 h)
    omega

theorem isDigits_digits (n : Nat) : IsDigits (Decimal.digits n) :=
  fun _ => Decimal.isDigit_of_mem_digits

theorem digits_ne_nil (n : Nat) : Decimal.digits n ≠ [] :=
  Nat.toDigits_ne_nil

/-- A text splits in one way into a number and what follows its digits. -/
theorem sign_digits_inj {negative negative' : Bool} {ds ds' rest rest' : List Char}
    (hds : IsDigits ds) (hne : ds ≠ []) (hrest : rest.head?.any Char.isDigit = false)
    (hds' : IsDigits ds') (hne' : ds' ≠ []) (hrest' : rest'.head?.any Char.isDigit = false)
    (h : sign negative ++ (ds ++ rest) = sign negative' ++ (ds' ++ rest')) :
    negative = negative' ∧ ds = ds' := by
  have hdigits (h : ds ++ rest = ds' ++ rest') : ds = ds' := by
    rw [← takeWhile_append_of_all hds hrest, h, takeWhile_append_of_all hds' hrest']
  have hminus {ds : List Char} (hds : IsDigits ds) (hne : ds ≠ []) (rest : List Char) :
      (ds ++ rest).head? ≠ some '-' := head?_of_digits hds hne (by decide)
  cases negative <;> cases negative'
  · exact ⟨rfl, hdigits h⟩
  · exact absurd (congrArg List.head? h) (hminus hds hne rest)
  · exact absurd (congrArg List.head? h).symm (hminus hds' hne' rest')
  · exact ⟨rfl, hdigits (List.cons.inj h).2⟩

theorem signed_of_ofInt {n : Int} {negative : Bool} {ds after rest : List Char}
    (hafter : after.head?.any Char.isDigit = false) (hds : IsDigits ds) (hne : ds ≠ [])
    (hrest : rest.head?.any Char.isDigit = false)
    (h : Decimal.ofInt n ++ after = sign negative ++ ds ++ rest) :
    Decimal.signed negative (Decimal.value ds) = n := by
  rw [ofInt_eq, List.append_assoc, List.append_assoc] at h
  obtain ⟨rfl, rfl⟩ := sign_digits_inj (isDigits_digits _) (digits_ne_nil _) hafter hds hne hrest h
  rw [Decimal.value_digits, signed_natAbs]

theorem head?_sign_digits {ds : List Char} (hds : IsDigits ds) (hne : ds ≠ []) (negative : Bool)
    (rest : List Char) : (sign negative ++ ds ++ rest).head? ≠ some '[' := by
  cases negative with
  | true => nofun
  | false =>
    show (ds ++ rest).head? ≠ some '['
    exact head?_of_digits hds hne (by decide)

theorem head?_ofInt (n : Int) (after : List Char) :
    (Decimal.ofInt n ++ after).head? ≠ some '[' := by
  rw [ofInt_eq]
  exact head?_sign_digits (isDigits_digits _) (digits_ne_nil _) _ _

/-! ### Ranges -/

variable {lo hi : Int}

/--
The read takes the integers from `least` to `most` as they are written, before anything but another
digit, and fails at all others.
-/
def TakesIntegers (r : Read (Expr (Ranged lo hi))) (least most : Int) : Prop :=
  ∀ (n : Int) (after : List Char), after.head?.any Char.isDigit = false → ∀ k,
    (least ≤ n ∧ n ≤ most ∧ ∃ a : Ranged lo hi, a.val = n ∧
      r ⟨k, Decimal.ofInt n ++ after⟩ = .ok (.literal a) ⟨k + (Decimal.ofInt n).length, after⟩) ∨
    (¬ (least ≤ n ∧ n ≤ most) ∧ ∃ e c, r ⟨k, Decimal.ofInt n ++ after⟩ = .error e c)

theorem takesIntegers_expr {literal : Read (Ranged lo hi)} {least most : Int}
    {P : List Char → Ranged lo hi → List Char → Prop} (hliteral : literal.Meets P)
    (hwithin : ∀ n after t a rest, after.head?.any Char.isDigit = false →
      Decimal.ofInt n ++ after = t ++ rest → P t a rest → least ≤ n ∧ n ≤ most)
    (hall : ∀ n after, after.head?.any Char.isDigit = false → least ≤ n → n ≤ most →
      ∃ a, a.val = n ∧ P (Decimal.ofInt n) a after) :
    TakesIntegers (expr literal) least most := by
  intro n after hafter k
  by_cases hn : least ≤ n ∧ n ≤ most
  · obtain ⟨a, ha, hP⟩ := hall n after hafter hn.1 hn.2
    exact .inl ⟨hn.1, hn.2, a, ha,
      (meets_expr hliteral).complete (.literal (head?_ofInt n after) hP) k⟩
  · refine .inr ⟨hn, ?_⟩
    cases hread : expr literal ⟨k, Decimal.ofInt n ++ after⟩ with
    | error e c => exact ⟨e, c, rfl⟩
    | ok e d =>
      obtain ⟨t, ht, hspelled⟩ := (meets_expr hliteral).sound hread
      change Decimal.ofInt n ++ after = t ++ d.rest at ht
      cases hspelled with
      | reference hname => exact absurd (congrArg List.head? ht) (head?_ofInt n after)
      | literal _ hP => exact absurd (hwithin n after t _ d.rest hafter ht hP) hn

theorem takesIntegers_byteExpr : TakesIntegers byteExpr 0 255 := by
  refine takesIntegers_expr meets_decimalByte ?_ ?_
  · rintro n after t a rest hafter ht ⟨hne, hdigits, hrest, hval⟩
    have hn : Decimal.signed false (Decimal.value t) = n :=
      signed_of_ofInt hafter hdigits hne hrest ht
    have hlo := a.lo_le
    have hhi := a.le_hi
    simp only [Decimal.signed, Bool.false_eq_true, ↓reduceIte] at hn
    omega
  · intro n after hafter hlo hhi
    have hdigits : Decimal.ofInt n = Decimal.digits n.natAbs := by
      rw [ofInt_eq, decide_eq_false (Int.not_lt.2 hlo)]
      rfl
    refine ⟨⟨n, hlo, hhi⟩, rfl, ?_⟩
    rw [hdigits]
    refine ⟨digits_ne_nil _, isDigits_digits _, hafter, ?_⟩
    rw [Decimal.value_digits]
    exact (Int.natAbs_of_nonneg hlo).symm

theorem longOfSize?_eq_some {negative : Bool} {size : Nat} {n : Long} :
    longOfSize? negative size = some n ↔
      (size : Int) ≤ Value.maxLong ∧ n.val = Decimal.signed negative size := by
  unfold longOfSize?
  split <;> simp [*, Ranged.ofInt?_eq_some_iff]

theorem longOfSize?_of_large (negative : Bool) {size : Nat} (h : Value.maxLong < size) :
    longOfSize? negative size = none :=
  if_neg (Int.not_le.2 h)

/-- Digits that are too large for a long without their sign are refused with it too. -/
theorem long_of_large {ds rest : List Char} (hds : IsDigits ds)
    (hlarge : Value.maxLong < Decimal.value ds) (hrest : rest.head?.any Char.isDigit = false)
    (negative : Bool) (what : String) (k : Nat) :
    long what ⟨k, sign negative ++ (ds ++ rest)⟩ =
      .error (.grammar (.largeInteger (String.ofList ds) what) k)
        ⟨k, sign negative ++ (ds ++ rest)⟩ := by
  have hne : ds ≠ [] := by
    rintro rfl
    exact absurd hlarge (by decide)
  have hminus : negative = false → (ds ++ rest).head? ≠ some '-' := fun _ =>
    head?_of_digits hds hne (by decide)
  refine (bind_of_ok rfl).trans ?_
  refine (bind_of_ok (meets_sign.complete ⟨rfl, hminus⟩ k)).trans ?_
  refine (bind_of_ok (meets_digits.complete ⟨rfl, hds, hrest⟩ _)).trans ?_
  simp only [hne, ↓reduceIte, longOfSize?_of_large negative hlarge]
  rfl

theorem SpelledLong.val_eq {n : Int} {after t rest : List Char} {a : Long}
    (h : SpelledLong t a rest) (hafter : after.head?.any Char.isDigit = false)
    (ht : Decimal.ofInt n ++ after = t ++ rest) :
    a.val = n ∧ -Value.maxLong ≤ n ∧ n ≤ Value.maxLong := by
  obtain ⟨negative, ds, rfl, hne, hdigits, hrest, hsize⟩ := h
  obtain ⟨hle, hval⟩ := longOfSize?_eq_some.1 hsize
  have hn := signed_of_ofInt hafter hdigits hne hrest ht
  refine ⟨hval.trans hn, ?_⟩
  unfold Decimal.signed at hn
  split at hn <;> omega

theorem spelledLong_ofInt {n : Int} {after : List Char}
    (hafter : after.head?.any Char.isDigit = false) {a : Long} (ha : a.val = n)
    (hlo : -Value.maxLong ≤ n) (hhi : n ≤ Value.maxLong) :
    SpelledLong (Decimal.ofInt n) a after := by
  refine ⟨decide (n < 0), Decimal.digits n.natAbs, ofInt_eq n, digits_ne_nil _, isDigits_digits _,
    hafter, longOfSize?_eq_some.2 ?_⟩
  rw [Decimal.value_digits, signed_natAbs]
  exact ⟨by omega, ha⟩

theorem takesIntegers_longExpr : TakesIntegers longExpr (-Value.maxLong) Value.maxLong := by
  refine takesIntegers_expr (meets_long _) ?_ ?_
  · intro n after t a rest hafter ht h
    exact (h.val_eq hafter ht).2
  · intro n after hafter hlo hhi
    have hlong : -9223372036854775808 ≤ n ∧ n ≤ 9223372036854775807 := by
      unfold Value.maxLong at hlo hhi
      omega
    exact ⟨⟨n, hlong.1, hlong.2⟩, rfl, spelledLong_ofInt hafter rfl hlo hhi⟩

theorem takesIntegers_intExpr : TakesIntegers intExpr (-2147483648) 2147483647 := by
  refine takesIntegers_expr meets_integer ?_ ?_
  · rintro n after t i rest hafter ht ⟨a, ha, hval⟩
    obtain ⟨rfl, -⟩ := ha.val_eq hafter ht
    rw [← hval]
    exact ⟨i.lo_le, i.le_hi⟩
  · intro n after hafter hlo hhi
    have hlong : SpelledLong (Decimal.ofInt n) ⟨n, by omega, by omega⟩ after := by
      refine spelledLong_ofInt hafter rfl ?_ ?_ <;> unfold Value.maxLong <;> omega
    exact ⟨⟨n, hlo, hhi⟩, rfl, _, hlong, rfl⟩

end MusicString.Read

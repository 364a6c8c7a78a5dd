import Mathlib.Data.Nat.Digits.Defs
import MusicString.Proofs.Read.Hexadecimal
import MusicString.Proofs.Read.Literal

/-!
# Numbers that fit

A number is read exactly if its digits, of which there may be any number, denote one that fits its
field.  Decimal numbers take all digits that follow, leading zeros too, and hexadecimal bytes the
next two.  Whatever does not fit is a failure of grammar, and nothing is taken.

* `Decimal.positional`, `Decimal.value_eq_positional`: what a run of digits denotes;
* `Read.SucceedsIff`, `Read.Meets.succeedsIff`: where a read succeeds, and how it fails elsewhere;
* `Cursor.numeral`: the digits that follow after a sign;
* `Read.numbers_fit`: bytes and ints are read exactly if they fit.
-/

namespace MusicString

/-! ### What digits denote -/

namespace Decimal

/-- The number in which each digit counts ten times as much as the one after it. -/
def positional (digits : List Char) : Nat :=
  Nat.ofDigits 10 (digits.reverse.map fun x => x.toNat - '0'.toNat)

/-- The digits are added up from the first to the last. -/
theorem value_eq_positional (digits : List Char) : value digits = positional digits := by
  induction digits using List.reverseRecOn with
  | nil => rfl
  | append_singleton digits x ih =>
    have hvalue : value (digits ++ [x]) = 10 * value digits + (x.toNat - '0'.toNat) :=
      Nat.ofDigitChars_append 0
    rw [hvalue, ih, positional, positional, List.reverse_append, List.reverse_singleton,
      List.singleton_append, List.map_cons, Nat.ofDigits_cons, Nat.add_comm]

end Decimal

/-! ### Where reads succeed -/

namespace Read

open Text

variable {α : Type} {r : Read α}

/--
At the cursor, the read succeeds exactly if `fits`: it then takes `n` characters and gives what `is`
tells.  Else it takes nothing and fails for a reason of grammar.
-/
def SucceedsIff (r : Read α) (c : Cursor) (fits : Prop) (n : Nat) (is : α → Prop) : Prop :=
  (fits ∧ ∃ a, is a ∧ r c = .ok a (c.move n)) ∨
    (¬ fits ∧ ∃ e, r c = .error e c ∧ e.kind = .grammar)

/-- A read succeeds exactly where a spelling follows. -/
theorem Meets.succeedsIff {P : List Char → α → List Char → Prop} (hr : r.Meets P)
    (hgrammar : r.Grammatical) (hrestores : r.Restores) {c : Cursor} {fits : Prop} {n : Nat}
    {is : α → Prop}
    (hfits : fits → ∃ t a rest, c.rest = t ++ rest ∧ P t a rest ∧ t.length = n ∧ is a)
    (hspelled : ∀ t a rest, c.rest = t ++ rest → P t a rest → fits) :
    r.SucceedsIff c fits n is := by
  by_cases h : fits
  · obtain ⟨t, a, rest, hrest, hP, rfl, ha⟩ := hfits h
    refine .inl ⟨h, a, ha, ?_⟩
    have hread := hr.complete hP c.pos
    rw [← hrest] at hread
    rw [hread, Cursor.move, hrest, List.drop_left]
  · refine .inr ⟨h, ?_⟩
    cases hread : r c with
    | ok a d =>
      obtain ⟨t, ht, hP⟩ := hr.sound hread
      exact absurd (hspelled t a d.rest ht hP) h
    | error e d =>
      obtain rfl := hrestores hread
      exact ⟨e, rfl, hgrammar hread⟩

/-- A byte is the run of digits that follows. -/
theorem decimalByte_succeedsIff (c : Cursor) :
    let digits := c.rest.takeWhile Char.isDigit
    decimalByte.SucceedsIff c (digits ≠ [] ∧ Decimal.positional digits ≤ 255) digits.length
      (fun b => b.val = Decimal.positional digits) := by
  intro digits
  refine meets_decimalByte.succeedsIff grammatical_decimalByte restores_decimalByte ?_ ?_
  · rintro ⟨hne, hle⟩
    have hdigits : IsDigits digits := fun x hx => List.mem_takeWhile_imp hx
    refine ⟨digits, ⟨Decimal.positional digits, by omega, by omega⟩, c.rest.dropWhile Char.isDigit,
      List.takeWhile_append_dropWhile.symm, ⟨hne, hdigits, head?_any_dropWhile _ _, ?_⟩, rfl, rfl⟩
    rw [Decimal.value_eq_positional]
  · rintro t b rest hrest ⟨hne, hdigits, hstop, hval⟩
    have ht : digits = t := by
      show c.rest.takeWhile _ = t
      rw [hrest, takeWhile_append_of_all hdigits hstop]
    have hhi := b.le_hi
    rw [ht, ← Decimal.value_eq_positional]
    exact ⟨hne, by omega⟩

/-- A hexadecimal byte is the two digits that follow. -/
theorem hexByte_succeedsIff (c : Cursor) :
    hexByte.SucceedsIff c (∃ x y, [x, y] <+: c.rest ∧ x ∈ hexDigits ∧ y ∈ hexDigits) 2
      (fun b => ∃ x y, [x, y] <+: c.rest ∧
        b.toNat = 16 * hexDigits.idxOf x + hexDigits.idxOf y) := by
  refine meets_hexByte.succeedsIff grammatical_hexByte restores_hexByte ?_ ?_
  · rintro ⟨x, y, ⟨rest, hrest⟩, hx, hy⟩
    exact ⟨[x, y], byteOfHex x y, rest, hrest.symm, (hexText_byteOfHex hx hy).symm, rfl, x, y,
      ⟨rest, hrest⟩, toNat_byteOfHex hx hy⟩
  · rintro t b rest hrest rfl
    exact ⟨_, _, ⟨rest, hrest.symm⟩, mem_hexDigits_of_mem_hexText List.mem_cons_self,
      mem_hexDigits_of_mem_hexText (List.mem_cons_of_mem _ List.mem_cons_self)⟩

end Read

/-! ### Numbers with a sign -/

namespace Cursor

open Read

/-- Whether a minus sign follows. -/
def negative (c : Cursor) : Bool :=
  c.peek = some '-'

/-- The run of digits that follows, after a minus sign if there is one. -/
def numeral (c : Cursor) : List Char :=
  (c.rest.drop (sign c.negative).length).takeWhile Char.isDigit

/-- A text goes on with a sign, digits and something else. -/
theorem exists_rest_eq (c : Cursor) : ∃ rest, c.rest = sign c.negative ++ (c.numeral ++ rest) ∧
    rest.head?.any Char.isDigit = false := by
  have hsign : c.rest = sign c.negative ++ c.rest.drop (sign c.negative).length := by
    by_cases h : c.peek = some '-'
    · rw [show c.negative = true from decide_eq_true h]
      exact rest_of_peek h
    · rw [show c.negative = false from decide_eq_false h]
      rfl
  refine ⟨(c.rest.drop (sign c.negative).length).dropWhile Char.isDigit, ?_,
    head?_any_dropWhile _ _⟩
  rw [numeral, List.takeWhile_append_dropWhile]
  exact hsign

/-- There is one way to do so if there are any digits. -/
theorem numeral_eq {c : Cursor} {minus : Bool} {ds rest : List Char}
    (h : c.rest = sign minus ++ (ds ++ rest)) (hds : IsDigits ds) (hne : ds ≠ [])
    (hrest : rest.head?.any Char.isDigit = false) : c.negative = minus ∧ c.numeral = ds := by
  have hnegative : c.negative = minus := by
    unfold negative peek
    rw [h]
    cases minus with
    | true => rfl
    | false =>
      have hhead : (ds ++ rest).head? ≠ some '-' := head?_of_digits hds hne (by decide)
      exact decide_eq_false hhead
  refine ⟨hnegative, ?_⟩
  rw [numeral, hnegative, h, List.drop_left]
  exact takeWhile_append_of_all hds hrest

end Cursor

namespace Read

open Text

/-- An int is the run of digits that follows, after a minus sign if there is one. -/
theorem intExpr_succeedsIff {c : Cursor} (hc : c.peek ≠ some '[') :
    let n := Decimal.signed c.negative (Decimal.positional c.numeral)
    intExpr.SucceedsIff c (c.numeral ≠ [] ∧ -2147483648 ≤ n ∧ n ≤ 2147483647)
      ((sign c.negative).length + c.numeral.length) (fun e => ∃ i, e = .literal i ∧ i.val = n) := by
  intro n
  refine (meets_expr meets_integer).succeedsIff grammatical_intExpr restores_intExpr ?_ ?_
  · rintro ⟨hne, hlo, hhi⟩
    obtain ⟨rest, hrest, hstop⟩ := c.exists_rest_eq
    have hdigits : IsDigits c.numeral := fun x hx => List.mem_takeWhile_imp hx
    -- Digits that fit an int with their sign fit a long without it.
    have hsize : (Decimal.value c.numeral : Int) ≤ Value.maxLong := by
      rw [Decimal.value_eq_positional]
      unfold Value.maxLong
      cases hsign : c.negative <;> simp only [n, hsign, Decimal.signed, Bool.false_eq_true,
        ↓reduceIte] at hlo hhi <;> omega
    have hlong : longOfSize? c.negative (Decimal.value c.numeral) =
        some ⟨n, by omega, by omega⟩ := by
      rw [longOfSize?_eq_some]
      exact ⟨hsize, by rw [Decimal.value_eq_positional]⟩
    have hspelled : SpelledInteger (sign c.negative ++ c.numeral) ⟨n, hlo, hhi⟩ rest :=
      ⟨_, ⟨c.negative, c.numeral, rfl, hne, hdigits, hstop, hlong⟩, rfl⟩
    rw [← List.append_assoc] at hrest
    refine ⟨sign c.negative ++ c.numeral, .literal ⟨n, hlo, hhi⟩, rest, hrest,
      .literal ?_ hspelled, List.length_append, _, rfl, rfl⟩
    rwa [← hrest]
  · intro t e rest hrest hspelled
    cases hspelled with
    | reference hname =>
      rw [Cursor.peek, hrest] at hc
      exact absurd rfl hc
    | @literal _ i _ _ hi =>
      obtain ⟨m, ⟨minus, ds, rfl, hne, hds, hstop, hsize⟩, hval⟩ := hi
      rw [List.append_assoc] at hrest
      obtain ⟨rfl, rfl⟩ := Cursor.numeral_eq hrest hds hne hstop
      obtain ⟨-, hm⟩ := longOfSize?_eq_some.1 hsize
      rw [Decimal.value_eq_positional] at hm
      have hn : i.val = n := hval.trans hm
      rw [← hn]
      exact ⟨hne, i.lo_le, i.le_hi⟩

/-- A byte is written in one of two radices. -/
theorem byte_of_radix {radix : Nat} (hten : radix ≠ 10) (hsixteen : radix ≠ 16) (c : Cursor) :
    byte radix c = .error ⟨.unsupportedRadix radix, c.pos⟩ c := by
  unfold byte
  split
  · exact absurd rfl hten
  · exact absurd rfl hsixteen
  · rfl

/--
**Numbers that fit.**  Wherever the cursor stands, a decimal byte is read exactly if digits follow
that denote at most 255, and an int exactly if digits follow, after a minus sign if there is one,
that denote with their sign an int of 32 bits; there may be any number of digits, and all of them
are taken.  A hexadecimal byte is read exactly if the next two characters are among the sixteen
digits.  Everything else is a failure of grammar, except for another radix.
-/
theorem numbers_fit (c : Cursor) :
    let digits := c.rest.takeWhile Char.isDigit
    let n := Decimal.signed c.negative (Decimal.positional c.numeral)
    (byte 10).SucceedsIff c (digits ≠ [] ∧ Decimal.positional digits ≤ 255) digits.length
        (fun b => b.val = Decimal.positional digits) ∧
      (c.peek ≠ some '[' →
        intExpr.SucceedsIff c (c.numeral ≠ [] ∧ -2147483648 ≤ n ∧ n ≤ 2147483647)
          ((sign c.negative).length + c.numeral.length)
          (fun e => ∃ i, e = .literal i ∧ i.val = n)) ∧
      (byte 16).SucceedsIff c (∃ x y, [x, y] <+: c.rest ∧ x ∈ hexDigits ∧ y ∈ hexDigits) 2
        (fun b => ∃ x y, [x, y] <+: c.rest ∧
          b.toNat = 16 * hexDigits.idxOf x + hexDigits.idxOf y) ∧
      ∀ radix, radix ≠ 10 → radix ≠ 16 →
        byte radix c = .error ⟨.unsupportedRadix radix, c.pos⟩ c :=
  ⟨decimalByte_succeedsIff c, intExpr_succeedsIff, hexByte_succeedsIff c,
    fun _ hten hsixteen => byte_of_radix hten hsixteen c⟩

/-- The least int, with leading zeros, is read up to the character after its digits. -/
theorem numbers_fit_least :
    let c : Cursor := ⟨1, "-0002147483648]".toList⟩
    c.peek ≠ some '[' ∧
      intExpr c = .ok (.literal (.nearest (-2147483648))) ⟨15, [']']⟩ := by
  intro c
  have hpeek : c.peek ≠ some '[' := by decide
  refine ⟨hpeek, ?_⟩
  obtain ⟨-, hint, -⟩ := numbers_fit c
  rcases hint hpeek with ⟨-, _, ⟨i, rfl, hi⟩, hread⟩ | ⟨hmisfit, -⟩
  · rw [hread, show i = .nearest (-2147483648) from Ranged.ext hi]
    rfl
  · exact absurd (by decide) hmisfit

end Read

end MusicString

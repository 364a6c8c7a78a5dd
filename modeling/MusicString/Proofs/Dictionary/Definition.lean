import MusicString.Config
import MusicString.Proofs.Grammar.RoundTrip

/-!
# Definitions of integers

The text of a definition that has no point denotes an integer: a letter for the role, which may be
missing, then an integer with or without a sign.  Nothing else is accepted, and the entry holds the
integer in full: as an int if it fits one, and else as a long, as in a configuration.

* `Decimal.Spells`, `Decimal.toInt?_eq_some_iff`: the texts of integers;
* `Value.integer?_ofLong`: the value that an integer defines;
* `Definition.parse?_eq_some_iff`, `Definition.parse?_integers`: definitions without a point.
-/

namespace MusicString

open Read

namespace Decimal

/-- The texts of an integer: an optional sign and one or more decimal digits. -/
inductive Spells : List Char → Int → Prop
  | unsigned {ds : List Char} : ds ≠ [] → IsDigits ds → Spells ds (value ds)
  | plus {ds : List Char} : ds ≠ [] → IsDigits ds → Spells ('+' :: ds) (value ds)
  | minus {ds : List Char} : ds ≠ [] → IsDigits ds → Spells ('-' :: ds) (-(value ds : Int))

theorem toNat?_eq_some_iff {s : List Char} {n : Nat} :
    toNat? s = some n ↔ s ≠ [] ∧ IsDigits s ∧ n = value s := by
  unfold toNat?
  rw [Option.ite_none_right_eq_some, Option.some.injEq, eq_comm (b := n), and_assoc]
  exact and_congr_right fun _ => and_congr_left fun _ => List.all_eq_true

theorem splitSign_cases (s : List Char) :
    (∃ ds, s = '-' :: ds ∧ splitSign s = (true, ds)) ∨
      (∃ ds, s = '+' :: ds ∧ splitSign s = (false, ds)) ∨ splitSign s = (false, s) := by
  fun_cases splitSign s with
  | case1 ds => exact .inl ⟨ds, rfl, rfl⟩
  | case2 ds => exact .inr (.inl ⟨ds, rfl, rfl⟩)
  | case3 => exact .inr (.inr rfl)

theorem toInt?_of_splitSign {s ds : List Char} {negative : Bool}
    (h : splitSign s = (negative, ds)) : toInt? s = (toNat? ds).map (signed negative) := by
  rw [toInt?, h]

theorem toInt?_eq_some_iff {s : List Char} {n : Int} : toInt? s = some n ↔ Spells s n := by
  constructor
  · intro h
    rcases splitSign_cases s with ⟨ds, rfl, hsplit⟩ | ⟨ds, rfl, hsplit⟩ | hsplit
    all_goals
      rw [toInt?_of_splitSign hsplit] at h
      obtain ⟨m, hm, rfl⟩ := Option.map_eq_some_iff.1 h
      obtain ⟨hne, hdigits, rfl⟩ := toNat?_eq_some_iff.1 hm
    · exact .minus hne hdigits
    · exact .plus hne hdigits
    · exact .unsigned hne hdigits
  · have hread {ds : List Char} (negative : Bool) (hsplit : splitSign s = (negative, ds))
        (hne : ds ≠ []) (hdigits : IsDigits ds) : toInt? s = some (signed negative (value ds)) := by
      rw [toInt?_of_splitSign hsplit, toNat?_eq_some_iff.2 ⟨hne, hdigits, rfl⟩, Option.map_some]
    intro h
    cases h with
    | unsigned hne hdigits => exact hread false (splitSign_digits hdigits) hne hdigits
    | plus hne hdigits => exact hread false rfl hne hdigits
    | minus hne hdigits => exact hread true rfl hne hdigits

/-- An integer starts with a sign or a digit, and never with the letter of a role. -/
theorem Spells.head?_bind_ofLetter? {s : List Char} {n : Int} (h : Spells s n) :
    s.head?.bind Role.ofLetter? = none := by
  cases h with
  | unsigned hne hdigits =>
    obtain ⟨x, ds, rfl⟩ := List.exists_cons_of_ne_nil hne
    exact Definition.ofLetter?_of_isDigit (hdigits x List.mem_cons_self)
  | plus | minus => rfl

end Decimal

/-- The value that is defined by an integer stands for all of it. -/
theorem Value.integer?_ofLong (n : Long) : (Value.ofLong n).integer? = some n.val := by
  rw [ofLong_eq]
  split <;> rfl

namespace Definition

/-- A text is the letter of its role, if that has one, and what follows it. -/
theorem letter_append_splitRole (t : List Char) :
    (splitRole t).1.letter.toList ++ (splitRole t).2 = t := by
  fun_cases splitRole t with
  | case1 => rfl
  | case2 x s role hrole =>
    rw [Role.ofLetter?_eq_some_iff.1 hrole]
    rfl
  | case3 x s hnone => rfl

theorem integer?_eq_some_iff {s : List Char} {v : Value} :
    integer? s = some v ↔ ∃ n : Long, Decimal.Spells s n.val ∧ v = .ofLong n := by
  unfold integer?
  constructor
  · intro h
    obtain ⟨n, hn, h⟩ := Option.bind_eq_some_iff.1 h
    obtain ⟨long, hlong, rfl⟩ := Option.map_eq_some_iff.1 h
    rw [← Ranged.ofInt?_eq_some_iff.1 hlong] at hn
    exact ⟨long, Decimal.toInt?_eq_some_iff.1 hn, rfl⟩
  · rintro ⟨n, hn, rfl⟩
    simp [Decimal.toInt?_eq_some_iff.2 hn]

theorem parse?_of_no_point {t : List Char} (h : '.' ∉ t) :
    parse? t = (integer? (splitRole t).2).map (⟨·, (splitRole t).1⟩) := by
  have hpoint : '.' ∉ (splitRole t).2 := by
    rw [← letter_append_splitRole t] at h
    exact fun hmem => h (List.mem_append_right _ hmem)
  simp only [parse?, hpoint, ↓reduceIte]

theorem parse?_eq_some_iff {t : List Char} (h : '.' ∉ t) {entry : Entry} :
    parse? t = some entry ↔ ∃ s, ∃ n : Long, t = entry.role.letter.toList ++ s ∧
      Decimal.Spells s n.val ∧ entry.value = .ofLong n := by
  rw [parse?_of_no_point h]
  constructor
  · intro hparse
    obtain ⟨v, hv, rfl⟩ := Option.map_eq_some_iff.1 hparse
    obtain ⟨n, hn, rfl⟩ := integer?_eq_some_iff.1 hv
    exact ⟨_, n, (letter_append_splitRole t).symm, hn, rfl⟩
  · rintro ⟨s, n, rfl, hn, hvalue⟩
    rw [splitRole_letter entry.role hn.head?_bind_ofLetter?,
      integer?_eq_some_iff.2 ⟨n, hn, rfl⟩, Option.map_some, ← hvalue]

/--
**Definitions of integers.**  A text without a point is a definition exactly if it is the letter of
a role, or no letter for a plain value, and a long with or without a sign.  Its entry has this role
and the value that the long has in a configuration, which is an int if it fits one, and the long
itself otherwise.  Every long can be defined in every role.
-/
theorem parse?_integers :
    (∀ t : List Char, '.' ∉ t →
      (∀ entry, parse? t = some entry ↔ ∃ s, ∃ n : Long, t = entry.role.letter.toList ++ s ∧
        Decimal.Spells s n.val ∧ entry.value = (Config.Number.integer n).toValue) ∧
      ((parse? t).isSome ↔ ∃ (role : Role) (s : List Char) (n : Int),
        t = role.letter.toList ++ s ∧ Decimal.Spells s n ∧
          -9223372036854775808 ≤ n ∧ n ≤ 9223372036854775807)) ∧
    (∀ n : Long, (Config.Number.integer n).toValue =
      if h : -2147483648 ≤ n.val ∧ n.val ≤ 2147483647 then .int ⟨n.val, h.1, h.2⟩ else .long n) ∧
    ∀ (role : Role) (n : Long),
      parse? (role.letter.toList ++ Decimal.ofInt n.val) =
          some ⟨(Config.Number.integer n).toValue, role⟩ ∧
        (Config.Number.integer n).toValue.integer? = some n.val := by
  refine ⟨fun t ht => ⟨fun entry => parse?_eq_some_iff ht, ?_⟩, Value.ofLong_eq,
    fun role n => ⟨?_, Value.integer?_ofLong n⟩⟩
  · rw [Option.isSome_iff_exists]
    constructor
    · rintro ⟨entry, hentry⟩
      obtain ⟨s, n, htext, hn, -⟩ := (parse?_eq_some_iff ht).1 hentry
      exact ⟨entry.role, s, n.val, htext, hn, n.lo_le, n.le_hi⟩
    · rintro ⟨role, s, n, htext, hn, hlo, hhi⟩
      exact ⟨⟨.ofLong ⟨n, hlo, hhi⟩, role⟩,
        (parse?_eq_some_iff ht).2 ⟨s, ⟨n, hlo, hhi⟩, htext, hn, rfl⟩⟩
  · have hpoint : '.' ∉ role.letter.toList ++ Decimal.ofInt n.val := by
      rw [List.mem_append, not_or]
      exact ⟨by cases role <;> decide, Decimal.notMem_ofInt (by decide) (by decide) n.val⟩
    exact (parse?_eq_some_iff hpoint).2
      ⟨_, n, rfl, Decimal.toInt?_eq_some_iff.1 (Decimal.toInt?_ofInt n.val), rfl⟩

/-- The least long is defined in full, and neither a plus sign nor zeros in front matter. -/
theorem parse?_integers_least :
    let least : Long := ⟨-9223372036854775808, by decide, by decide⟩
    let twelve : Long := ⟨12, by decide, by decide⟩
    '.' ∉ "V-9223372036854775808".toList ∧
      parse? "V-9223372036854775808".toList = some ⟨.long least, .voice⟩ ∧
      (parse? "V-9223372036854775808".toList).isSome ∧
      '.' ∉ "T+0012".toList ∧
      parse? "T+0012".toList = some ⟨(Config.Number.integer twelve).toValue, .tempo⟩ ∧
      (Config.Number.integer twelve).toValue = .int ⟨12, by decide, by decide⟩ := by
  intro least twelve
  have hleast : '.' ∉ "V-9223372036854775808".toList := by decide
  have htwelve : '.' ∉ "T+0012".toList := by decide
  have hdigits {ds : List Char} (h : Decimal.allDigits ds = true) : IsDigits ds :=
    List.all_eq_true.1 h
  obtain ⟨hparse, hvalue, -⟩ := parse?_integers
  obtain ⟨hentry, hsome⟩ := hparse _ hleast
  have hspells : Decimal.Spells "-9223372036854775808".toList (-9223372036854775808) :=
    .minus (by decide) (hdigits (by decide))
  have hspells' : Decimal.Spells "+0012".toList 12 := .plus (by decide) (hdigits (by decide))
  exact ⟨hleast, (hentry _).2 ⟨_, least, rfl, hspells, (hvalue least).symm⟩,
    hsome.2 ⟨.voice, _, _, rfl, hspells, by decide, by decide⟩, htwelve,
    ((hparse _ htwelve).1 _).2 ⟨_, twelve, rfl, hspells', rfl⟩, hvalue twelve⟩

end Definition

end MusicString

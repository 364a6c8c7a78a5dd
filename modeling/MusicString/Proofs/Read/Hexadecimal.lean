import MusicString.Proofs.Read.Spelling
import MusicString.Proofs.Rule.Cursor

/-!
# Reading hexadecimal bytes

A byte in hexadecimal is two of the sixteen digits, so that each byte has one spelling and nothing
else is one.  A repetition takes spellings as long as one follows, and what it leaves does not start
with one: it never fails, but it does not tell how much it left.

* `Read.hexText`, `Read.meets_hexByte`: the two digits of a byte;
* `Read.Repeated`, `Read.meets_repeated`: what a repetition takes.
-/

namespace MusicString

/-! ### Digits -/

namespace Text

theorem mem_hexDigits_iff {x : Char} : x ∈ hexDigits ↔ isUpperHexDigit x = true := by
  constructor
  · have hall : hexDigits.all isUpperHexDigit = true := by decide
    exact List.all_eq_true.1 hall x
  · intro h
    have hcode : (48 ≤ x.toNat ∧ x.toNat ≤ 57) ∨ (65 ≤ x.toNat ∧ x.toNat ≤ 70) := by
      simpa [isUpperHexDigit, Char.isDigit, Char.le_def, UInt32.le_iff_toNat_le] using h
    have hall : ∀ n < 71, (48 ≤ n ∧ n ≤ 57) ∨ (65 ≤ n ∧ n ≤ 70) → Char.ofNat n ∈ hexDigits := by
      decide
    rw [← Char.ofNat_toNat x]
    exact hall x.toNat (by omega) hcode

/-- What a digit stands for is its place among the digits. -/
theorem hexValue_of_mem {x : Char} (h : x ∈ hexDigits) : hexValue x = hexDigits.idxOf x := by
  have hall : hexDigits.all (fun x => hexValue x = hexDigits.idxOf x) = true := by decide
  exact of_decide_eq_true (List.all_eq_true.1 hall x h)

end Text

namespace Read

open Text

variable {α : Type}

/-- The hexadecimal digit of a number below sixteen. -/
def hexDigit (n : Nat) : Char :=
  hexDigits.getD n '0'

/-- The two hexadecimal digits of a byte. -/
def hexText (b : Byte) : List Char :=
  [hexDigit (b.toNat / 16), hexDigit (b.toNat % 16)]

theorem hexDigit_mem {n : Nat} (h : n < 16) : hexDigit n ∈ hexDigits := by
  have hall : ∀ n < 16, hexDigit n ∈ hexDigits := by decide
  exact hall n h

theorem idxOf_hexDigit {n : Nat} (h : n < 16) : hexDigits.idxOf (hexDigit n) = n := by
  have hall : ∀ n < 16, hexDigits.idxOf (hexDigit n) = n := by decide
  exact hall n h

theorem hexDigit_idxOf {x : Char} (h : x ∈ hexDigits) : hexDigit (hexDigits.idxOf x) = x := by
  have hall : hexDigits.all (fun x => hexDigit (hexDigits.idxOf x) = x) = true := by decide
  exact of_decide_eq_true (List.all_eq_true.1 hall x h)

theorem toNat_lt (b : Byte) : b.toNat < 256 := by
  have hhi := b.le_hi
  unfold Ranged.toNat
  omega

theorem toNat_injective : Function.Injective (Ranged.toNat : Byte → Nat) := by
  intro a b h
  have ha := a.lo_le
  have hb := b.lo_le
  refine Ranged.ext ?_
  unfold Ranged.toNat at h
  omega

/-- Two digits stand for the sixteenfold of the first and the second. -/
theorem toNat_byteOfHex {x y : Char} (hx : x ∈ hexDigits) (hy : y ∈ hexDigits) :
    (byteOfHex x y).toNat = 16 * hexDigits.idxOf x + hexDigits.idxOf y := by
  have hxlt : hexDigits.idxOf x < 16 := List.idxOf_lt_length_of_mem hx
  have hylt : hexDigits.idxOf y < 16 := List.idxOf_lt_length_of_mem hy
  simp only [byteOfHex, Byte.nearest, Ranged.clamp, Ranged.toNat, hexValue_of_mem hx,
    hexValue_of_mem hy]
  omega

theorem hexText_byteOfHex {x y : Char} (hx : x ∈ hexDigits) (hy : y ∈ hexDigits) :
    hexText (byteOfHex x y) = [x, y] := by
  have hylt : hexDigits.idxOf y < 16 := List.idxOf_lt_length_of_mem hy
  have hhigh : (16 * hexDigits.idxOf x + hexDigits.idxOf y) / 16 = hexDigits.idxOf x := by omega
  have hlow : (16 * hexDigits.idxOf x + hexDigits.idxOf y) % 16 = hexDigits.idxOf y := by omega
  rw [hexText, toNat_byteOfHex hx hy, hhigh, hlow, hexDigit_idxOf hx, hexDigit_idxOf hy]

theorem mem_hexDigits_of_mem_hexText {b : Byte} {x : Char} (h : x ∈ hexText b) :
    x ∈ hexDigits := by
  have hlt := toNat_lt b
  rcases List.mem_pair.1 h with rfl | rfl <;> exact hexDigit_mem (by omega)

theorem byteOfHex_hexDigit (b : Byte) :
    byteOfHex (hexDigit (b.toNat / 16)) (hexDigit (b.toNat % 16)) = b := by
  have hlt := toNat_lt b
  have hhigh : b.toNat / 16 < 16 := by omega
  have hlow : b.toNat % 16 < 16 := by omega
  apply toNat_injective
  rw [toNat_byteOfHex (hexDigit_mem hhigh) (hexDigit_mem hlow), idxOf_hexDigit hhigh,
    idxOf_hexDigit hlow, Nat.div_add_mod]

/-! ### The read of a byte -/

theorem meets_chars_exactly (n : Nat) (classes : List CharClass) (set : List Char) :
    (chars (some n) true classes set).Meets fun t taken _ =>
      taken = t ∧ t.length = n ∧ ∀ x ∈ t, isWanted classes set x = true := by
  unfold chars
  refine (Meets.get_bind fun start => (meets_runUpTo n _).bind_check (R := fun taken result =>
    result = taken ∧ taken.length = n) fun taken => ?_).congr fun t taken rest => ?_
  · by_cases hlength : taken.length = n
    · simp only [hlength, ne_eq, not_true_eq_false, decide_false, Bool.and_false]
      exact (Meets.pure taken).congr fun t result rest => by simp
    · simp only [hlength, ne_eq, not_false_eq_true, decide_true, Bool.and_true]
      exact (Meets.position_bind fun stop => Meets.set_bind start (Meets.throw _)).congr
        fun t result rest => by simp
  · constructor
    · rintro ⟨rfl, hlength, hall⟩
      exact ⟨taken, ⟨rfl, hlength.le, hall, fun hlt => absurd hlength hlt.ne⟩, rfl, hlength⟩
    · rintro ⟨run, ⟨rfl, -, hall, -⟩, rfl, hlength⟩
      exact ⟨rfl, hlength, hall⟩

theorem meets_hexByte : hexByte.Meets fun t b _ => t = hexText b := by
  unfold hexByte
  refine ((meets_chars_exactly 2 _ _).bind_check fun ds => Meets.pure _).congr fun t b rest => ?_
  have hwanted (x : Char) : isWanted [.upperHexDigit] [] x = true ↔ x ∈ hexDigits := by
    rw [mem_hexDigits_iff]
    simp [isWanted, CharClass.contains]
  simp only [hwanted]
  constructor
  · rintro rfl
    exact ⟨_, ⟨rfl, rfl, fun x => mem_hexDigits_of_mem_hexText⟩, (byteOfHex_hexDigit b).symm⟩
  · rintro ⟨ds, ⟨rfl, hlength, hall⟩, rfl⟩
    obtain ⟨x, y, rfl⟩ := List.length_eq_two.1 hlength
    exact (hexText_byteOfHex (hall x (by simp)) (hall y (by simp))).symm

/-! ### Repetitions -/

/-- What a repetition takes: texts one after the other, until what follows starts with none. -/
inductive Repeated (P : List Char → α → List Char → Prop) : List Char → List α → List Char → Prop
  | stop {rest : List Char} :
    (∀ t a after, rest = t ++ after → ¬ P t a after) → Repeated P [] [] rest
  | next {t u rest : List Char} {a : α} {as : List α} :
    P t a (u ++ rest) → Repeated P u as rest → Repeated P (t ++ u) (a :: as) rest

/-- A loop has one end. -/
theorem Loops.unique {r : Read α} {c : Cursor} {x y : EStateM.Result ParseError Cursor (List α)}
    (hx : Loops r c x) (hy : Loops r c y) : x = y := by
  induction hx generalizing y with
  | stop hc hpos | fail hc hpos | last hc hpos =>
    cases hy <;> simp_all
  | next hc hpos _ ih | nextFail hc hpos _ ih =>
    cases hy with
    | next hc' _ hlater | nextFail hc' _ hlater =>
      rw [hc] at hc'
      cases hc'
      simpa using ih hlater
    | stop hc' | fail hc' | last hc' => simp_all

theorem meets_repeated {r : Read α} {P : List Char → α → List Char → Prop} (hr : r.Meets P)
    (hP : ∀ t a rest, P t a rest → t ≠ []) (hrestores : r.Restores) (hwithin : r.Within) :
    (repeated r).Meets (Repeated P) where
  complete := by
    intro t as rest h k
    refine (loops_repeated hwithin ⟨k, t ++ rest⟩).unique ?_
    induction h generalizing k with
    | @stop rest hstop =>
      -- The read fails where no spelling follows, and then it has taken nothing.
      cases hread : r ⟨k, rest⟩ with
      | ok a d =>
        obtain ⟨t, ht, ha⟩ := hr.sound hread
        exact absurd ha (hstop t a d.rest ht)
      | error e d =>
        obtain rfl := hrestores hread
        exact .stop hread rfl
    | @next t u rest a as ha _ ih =>
      have hpos := List.length_pos_of_ne_nil (hP _ _ _ ha)
      rw [List.append_assoc, List.length_append, ← Nat.add_assoc]
      exact .next (hr.complete ha k) (by dsimp only; omega) (ih (k + t.length))
  sound := by
    intro c as d h
    have hloops := loops_repeated hwithin c
    rw [h] at hloops
    clear h
    generalize hx : EStateM.Result.ok as d = x at hloops
    induction hloops generalizing as d with
    | @stop _ c _ hc hpos =>
      cases hx
      obtain rfl := hrestores hc
      refine ⟨[], rfl, .stop fun t a after hrest ha => ?_⟩
      have hread := hr.complete ha c.pos
      rw [← hrest, hc] at hread
      cases hread
    | last hc hpos =>
      obtain ⟨t, ht, ha⟩ := hr.sound hc
      have hlength := (hwithin.of_ok hc).pos_add_length
      have hne := List.length_pos_of_ne_nil (hP _ _ _ ha)
      rw [ht, List.length_append] at hlength
      omega
    | next hc hpos _ ih =>
      cases hx
      obtain ⟨t, ht, ha⟩ := hr.sound hc
      obtain ⟨u, hu, hlater⟩ := ih rfl
      rw [hu] at ht ha
      exact ⟨t ++ u, by rw [ht, List.append_assoc], .next ha hlater⟩
    | fail | nextFail => cases hx

end Read

end MusicString

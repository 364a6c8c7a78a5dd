import Mathlib
import MusicString.Expr

/-!
# Coercion

The exact value of a double is a rational number, which the bits of its sign, mantissa and exponent
make up.  A value converts to the integer that it is equal to, if that lies in the range of the kind
that is asked for, and to nothing else.  One double is an exception: the power of two just beyond
the longs converts to the largest long.

* `Double.rational?` and `Value.rational?`: the exact values;
* `Double.unpack_eq_decode`: the bits of a double make up its exact value;
* `Double.whole?_eq_some_iff`: the doubles that are whole;
* `Double.range_iff`, `Value.val_wholeLong?`: the whole doubles that count as longs;
* `Value.Exactly`: a conversion that keeps the value or fails;
* `Value.exactly_conversions`: which conversions do.
-/

namespace MusicString

open Float.Model

/-! ### The exact value of a double -/

namespace Double

/-- The exact value of a double, if it is finite. -/
def rational? (x : Float) : Option ℚ :=
  match x.toModel.unpack with
  | .zero _ => some 0
  | .finite sign mantissa exponent _ => some (sign.apply mantissa * 2 ^ exponent)
  | .infinity _ | .notANumber => none

/-- The number that a dyadic number is. -/
def Dyadic.toRat (d : Dyadic) : ℚ :=
  Decimal.signed d.negative d.mantissa * 2 ^ d.exponent

/-- The number that a meaning gives, if it is finite. -/
def Meaning.rational? : Meaning → Option ℚ
  | .finite value => some value.toRat
  | .infinite _ | .notANumber => none

theorem toNat_unpackMantissa (b : BitVec 64) :
    (@UnpackedFloat.unpackMantissa Format.binary64 b).toNat = b.toNat % 2 ^ 52 := by
  simp [UnpackedFloat.unpackMantissa]

theorem toNat_unpackExponent (b : BitVec 64) :
    (@UnpackedFloat.unpackExponent Format.binary64 b).toNat = b.toNat / 2 ^ 52 % 2 ^ 11 := by
  simp [UnpackedFloat.unpackExponent, Nat.shiftRight_eq_div_pow]

theorem toNat_one_append (v : BitVec 52) : (1#1 ++ v).toNat = twoPow 52 + v.toNat := by
  rw [BitVec.toNat_append, ← Nat.shiftLeft_add_eq_or_of_lt v.isLt]
  rfl

/-- The sign of a number. -/
def signOf (negative : Bool) : UnpackedFloat.Sign :=
  if negative then .negative else .positive

theorem ofBitVec_unpackSign (b : BitVec 64) :
    UnpackedFloat.Sign.ofBitVec (@UnpackedFloat.unpackSign Format.binary64 b) =
      signOf (decide (twoPow 63 ≤ b.toNat)) := by
  have hbit : (@UnpackedFloat.unpackSign Format.binary64 b).toNat = b.toNat / 2 ^ 63 % 2 := by
    simp [UnpackedFloat.unpackSign, Nat.shiftRight_eq_div_pow]
  have hpow : twoPow 63 = 2 ^ 63 := rfl
  have hlt := b.isLt
  have hzero : @UnpackedFloat.unpackSign Format.binary64 b = 0#1 ↔ ¬ twoPow 63 ≤ b.toNat := by
    rw [← BitVec.toNat_inj, hbit, BitVec.toNat_zero]
    omega
  by_cases hle : twoPow 63 ≤ b.toNat <;> simp [UnpackedFloat.Sign.ofBitVec, hzero, signOf, hle]

theorem apply_signOf (negative : Bool) (n : Nat) :
    (signOf negative).apply n = Decimal.signed negative n := by
  cases negative <;> simp [signOf, UnpackedFloat.Sign.apply, Decimal.signed]

/-- A meaning with its sign apart, in which zero is not a mantissa. -/
def Meaning.unpacked : Meaning → UnpackedFloat
  | .notANumber => .notANumber
  | .infinite negative => .infinity (signOf negative)
  | .finite d =>
    if h : 0 < d.mantissa then .finite (signOf d.negative) d.mantissa d.exponent h
    else .zero (signOf d.negative)

/-- The meaning of a double is what its bits are unpacked to. -/
theorem unpack_eq_decode (x : Float) : x.toModel.unpack = (decode x).unpacked := by
  have hmantissa := toNat_unpackMantissa x.toBits.toBitVec
  have hexponent := toNat_unpackExponent x.toBits.toBitVec
  have hsign := ofBitVec_unpackSign x.toBits.toBitVec
  have hunpack : x.toModel.unpack = UnpackedFloat.unpack Format.binary64 x.toBits.toBitVec := rfl
  generalize hm : @UnpackedFloat.unpackMantissa Format.binary64 x.toBits.toBitVec = mantissa
    at hmantissa
  generalize he : @UnpackedFloat.unpackExponent Format.binary64 x.toBits.toBitVec = exponent
    at hexponent
  rw [UInt64.toNat_toBitVec] at hmantissa hexponent hsign
  have hones : exponent = -1#11 ↔ exponent.toNat = 2047 := BitVec.toNat_inj.symm
  have hzero : exponent = 0#11 ↔ exponent.toNat = 0 := BitVec.toNat_inj.symm
  have hnone : mantissa = 0#52 ↔ mantissa.toNat = 0 := BitVec.toNat_inj.symm
  have hbias : (Format.binary64.exponentBias : Int) + (52 : Nat) = 1075 := rfl
  -- Both read the same two numbers, and tell the same cases apart.
  simp only [hunpack, UnpackedFloat.unpack, hm, he, hones, hzero, hnone, hbias, decode, hsign,
    show x.toBits.toNat / twoPow 52 % twoPow 11 = exponent.toNat from hexponent.symm,
    show x.toBits.toNat % twoPow 52 = mantissa.toNat from hmantissa.symm]
  by_cases hspecial : exponent.toNat = 2047
  · rw [if_pos hspecial, if_pos hspecial]
    split_ifs <;> rfl
  rw [if_neg hspecial, if_neg hspecial]
  by_cases hsmall : exponent.toNat = 0
  · rw [if_pos hsmall, if_pos hsmall]
    by_cases hfraction : mantissa.toNat = 0
    · simp [hfraction, Meaning.unpacked]
    · simp [hfraction, hsmall, Nat.pos_of_ne_zero hfraction, Meaning.unpacked]
  · rw [if_neg hsmall, if_neg hsmall]
    have hpos : 0 < twoPow 52 + mantissa.toNat := Nat.add_pos_left (Nat.two_pow_pos 52) _
    simp only [toNat_one_append, Meaning.unpacked, dif_pos hpos]

/-- The exact value of a double is that of its meaning. -/
theorem rational?_eq_decode (x : Float) : rational? x = (decode x).rational? := by
  rw [rational?, unpack_eq_decode]
  cases decode x with
  | notANumber | infinite => rfl
  | finite d =>
    by_cases hpos : 0 < d.mantissa
    · simp only [Meaning.unpacked, dif_pos hpos, apply_signOf, Meaning.rational?, Dyadic.toRat]
    · have hzero : d.mantissa = 0 := by omega
      simp [Meaning.unpacked, Meaning.rational?, Dyadic.toRat, Decimal.signed, hzero]

/-- The mantissa of a finite double has 53 bits, or fewer if the exponent is the least. -/
theorem decode_bounds {x : Float} {d : Dyadic} (h : decode x = .finite d) :
    d.mantissa < 2 ^ 53 ∧ (2 ^ 52 ≤ d.mantissa ∨ d.exponent = -1074) := by
  have hfraction : x.toBits.toNat % twoPow 52 < 2 ^ 52 := Nat.mod_lt _ (Nat.two_pow_pos 52)
  have hpow : twoPow 52 = 2 ^ 52 := rfl
  simp only [decode] at h
  split_ifs at h <;> cases h <;> dsimp only
  · exact ⟨by omega, .inr rfl⟩
  · exact ⟨by omega, .inl (by omega)⟩

/-! ### Whole numbers -/

theorem signed_mul (negative : Bool) (m n : Nat) :
    Decimal.signed negative (m * n) = Decimal.signed negative m * n := by
  cases negative <;> simp [Decimal.signed]

theorem natAbs_signed (negative : Bool) (n : Nat) : (Decimal.signed negative n).natAbs = n := by
  cases negative <;> simp [Decimal.signed]

theorem Dyadic.toRat_ofNat (negative : Bool) (mantissa k : Nat) :
    toRat ⟨negative, mantissa, .ofNat k⟩ = Decimal.signed negative (mantissa * 2 ^ k) := by
  rw [signed_mul, toRat, Int.ofNat_eq_natCast, zpow_natCast]
  push_cast
  rfl

theorem Dyadic.toRat_negSucc_eq_iff {negative : Bool} {mantissa k : Nat} {n : Int} :
    toRat ⟨negative, mantissa, .negSucc k⟩ = n ↔
      Decimal.signed negative mantissa = n * (2 ^ (k + 1) : Nat) := by
  rw [toRat, zpow_negSucc, ← div_eq_mul_inv, div_eq_iff (pow_ne_zero _ two_ne_zero)]
  exact_mod_cast Iff.rfl

/-- The integer part of a dyadic number, if it has no fraction. -/
def Dyadic.whole? (d : Dyadic) : Option Int :=
  if d.fract.mantissa = 0 then some d.trunc else none

/-- A dyadic number is whole if it is equal to an integer. -/
theorem Dyadic.whole?_eq_some_iff {d : Dyadic} {n : Int} : d.whole? = some n ↔ d.toRat = n := by
  obtain ⟨negative, mantissa, exponent⟩ := d
  cases exponent with
  | ofNat k =>
    rw [toRat_ofNat, Int.cast_inj]
    simp [whole?, fract, trunc, twoPow]
  | negSucc k =>
    have hscale : twoPow (Int.negSucc k).natAbs = 2 ^ (k + 1) := rfl
    have hpos : 0 < 2 ^ (k + 1) := Nat.two_pow_pos (k + 1)
    rw [toRat_negSucc_eq_iff]
    simp only [whole?, fract, trunc, hscale, Int.negSucc_not_nonneg, ↓reduceIte]
    generalize 2 ^ (k + 1) = scale at hpos
    by_cases hmod : mantissa % scale = 0
    · -- The quotient is exact, so it has the sign and the size of the number.
      obtain ⟨q, rfl⟩ := Nat.dvd_of_mod_eq_zero hmod
      rw [if_pos hmod, Option.some_inj, Nat.mul_div_cancel_left q hpos, Nat.mul_comm, signed_mul]
      exact (mul_left_inj' (by omega)).symm
    · rw [if_neg hmod]
      refine iff_of_false (by simp) fun h => hmod ?_
      rw [← natAbs_signed negative mantissa, h, Int.natAbs_mul, Int.natAbs_natCast]
      exact Nat.mul_mod_left _ _

/-- The integer that a double is equal to. -/
def whole? (x : Float) : Option Int :=
  match decode x with
  | .finite d => d.whole?
  | _ => none

/-- A double is whole if its exact value is an integer. -/
theorem whole?_eq_some_iff {x : Float} {n : Int} :
    whole? x = some n ↔ rational? x = some (n : ℚ) := by
  rw [rational?_eq_decode, whole?]
  cases decode x with
  | finite d => simp [Meaning.rational?, Dyadic.whole?_eq_some_iff]
  | infinite | notANumber => simp [Meaning.rational?]

/-! ### The range of longs -/

/-- A dyadic number is no larger than `2 ^ 63`, as its exponent and its mantissa show. -/
def Dyadic.WithinLongs (d : Dyadic) : Prop :=
  d.exponent < 11 ∨ d.exponent = 11 ∧ d.mantissa ≤ 2 ^ 52

theorem Dyadic.withinLongs_iff {d : Dyadic} {n : Int} (hsize : d.mantissa < 2 ^ 53)
    (hnormal : 2 ^ 52 ≤ d.mantissa ∨ d.exponent = -1074) (hwhole : d.whole? = some n) :
    d.WithinLongs ↔ n.natAbs ≤ 2 ^ 63 := by
  have hn : d.trunc = n := by
    unfold whole? at hwhole
    split_ifs at hwhole
    exact Option.some.inj hwhole
  obtain ⟨negative, mantissa, exponent⟩ := d
  rw [← hn, trunc, natAbs_signed, WithinLongs]
  dsimp only at hsize hnormal ⊢
  cases exponent with
  | negSucc k =>
    have hle : mantissa / twoPow (Int.negSucc k).natAbs ≤ mantissa := Nat.div_le_self _ _
    simp only [Int.negSucc_not_nonneg, ↓reduceIte]
    omega
  | ofNat k =>
    have hpow : twoPow (Int.ofNat k).natAbs = 2 ^ k := rfl
    simp only [Int.ofNat_eq_natCast, Int.natCast_nonneg, ↓reduceIte] at hpow hnormal ⊢
    rw [hpow]
    rcases Nat.lt_trichotomy k 11 with hlt | rfl | hgt
    · have hle : mantissa * 2 ^ k ≤ 2 ^ 53 * 2 ^ 10 :=
        Nat.mul_le_mul hsize.le (Nat.pow_le_pow_right (by decide) (by omega))
      omega
    · omega
    · have hle : 2 ^ 52 * 2 ^ 12 ≤ mantissa * 2 ^ k :=
        Nat.mul_le_mul (by omega) (Nat.pow_le_pow_right (by decide) hgt)
      omega

theorem isFinite_iff {x : Float} : x.isFinite ↔ ∃ d, decode x = .finite d := by
  have hfinite : x.isFinite = x.toModel.unpack.isFinite := rfl
  rw [hfinite, unpack_eq_decode]
  cases decode x with
  | notANumber | infinite => simp [Meaning.unpacked, UnpackedFloat.isFinite]
  | finite d =>
    by_cases hpos : 0 < d.mantissa <;> simp [Meaning.unpacked, UnpackedFloat.isFinite, hpos]

theorem le_iff_compare (x y : Float) :
    x ≤ y ↔ ((decode x).unpacked.compare (decode y).unpacked).any (·.isLE) := by
  rw [← unpack_eq_decode, ← unpack_eq_decode]
  exact decide_eq_true_iff

theorem isLE_lex_iff {e e' : Int} {m m' : Nat} :
    ((compare e e').then (compare m m')).isLE ↔ e < e' ∨ e = e' ∧ m ≤ m' := by
  rw [Ordering.isLE_then_iff_or, compare_lt_iff_lt, compare_eq_iff_eq, Nat.isLE_compare]

theorem isGE_lex_iff {e e' : Int} {m m' : Nat} :
    ((compare e e').then (compare m m')).isGE ↔ e' < e ∨ e' = e ∧ m' ≤ m := by
  rw [← Ordering.isLE_swap, Ordering.swap_then, Int.compare_swap, Nat.compare_swap, isLE_lex_iff]

/-- The doubles from the one nearest to the smallest long on. -/
theorem minLong_le_iff {x : Float} {d : Dyadic} (h : decode x = .finite d) :
    Float.ofInt Value.minLong ≤ x ↔ d.negative = false ∨ d.WithinLongs := by
  have hleast : decode (Float.ofInt Value.minLong) = .finite ⟨true, 2 ^ 52, 11⟩ := by
    decide +kernel
  obtain ⟨-, hnormal⟩ := decode_bounds h
  obtain ⟨negative, mantissa, exponent⟩ := d
  rw [le_iff_compare, hleast, h, Dyadic.WithinLongs]
  dsimp only at hnormal ⊢
  by_cases hpos : 0 < mantissa
  · cases negative
    · simp [Meaning.unpacked, hpos, signOf, UnpackedFloat.compare]
    · simp [Meaning.unpacked, hpos, signOf, UnpackedFloat.compare, isGE_lex_iff]
  · have hexponent : exponent < 11 := by omega
    simp [Meaning.unpacked, hpos, signOf, UnpackedFloat.compare, hexponent]

/-- The doubles up to the one nearest to the largest long. -/
theorem le_maxLong_iff {x : Float} {d : Dyadic} (h : decode x = .finite d) :
    x ≤ Float.ofInt Value.maxLong ↔ d.negative = true ∨ d.WithinLongs := by
  have hmost : decode (Float.ofInt Value.maxLong) = .finite ⟨false, 2 ^ 52, 11⟩ := by
    decide +kernel
  obtain ⟨-, hnormal⟩ := decode_bounds h
  obtain ⟨negative, mantissa, exponent⟩ := d
  rw [le_iff_compare, hmost, h, Dyadic.WithinLongs]
  dsimp only at hnormal ⊢
  by_cases hpos : 0 < mantissa
  · cases negative
    · simp [Meaning.unpacked, hpos, signOf, UnpackedFloat.compare, isLE_lex_iff]
    · simp [Meaning.unpacked, hpos, signOf, UnpackedFloat.compare]
  · have hexponent : exponent < 11 := by omega
    simp [Meaning.unpacked, hpos, signOf, UnpackedFloat.compare, hexponent]

/-- The tests against both ends tell the size of a whole double. -/
theorem range_iff {x : Float} {d : Dyadic} (h : decode x = .finite d)
    (hfract : d.fract.mantissa = 0) :
    Float.ofInt Value.minLong ≤ x ∧ x ≤ Float.ofInt Value.maxLong ↔
      Value.minLong ≤ d.trunc ∧ d.trunc ≤ Value.maxLong + 1 := by
  obtain ⟨hsize, hnormal⟩ := decode_bounds h
  have hwithin : d.WithinLongs ↔ d.trunc.natAbs ≤ 2 ^ 63 :=
    Dyadic.withinLongs_iff hsize hnormal (if_pos hfract)
  have hends : (d.negative = false ∨ d.WithinLongs) ∧ (d.negative = true ∨ d.WithinLongs) ↔
      d.WithinLongs := by
    cases d.negative <;> simp
  rw [minLong_le_iff h, le_maxLong_iff h, hends, hwithin, Value.minLong, Value.maxLong]
  omega

end Double

/-! ### The exact value of a value -/

/-- A reference gives what the value of its entry converts to. -/
theorem Expr.toOption_eval_reference {α : Type} [Scalar α] {d : Dictionary} {name : String}
    {entry : Entry} (h : d.get? name = some entry) :
    ((Expr.reference name).eval d).toOption = (Scalar.ofValue? entry.value : Option α) := by
  cases hvalue : (Scalar.ofValue? entry.value : Option α) with
  | none | some => simp [Expr.eval, h, hvalue, Except.toOption]

namespace Value

/-- The exact value of a value, if it is finite. -/
def rational? : Value → Option ℚ
  | byte n => some n.val
  | int n => some n.val
  | long n => some n.val
  | double x => Double.rational? x

/--
A whole double from the smallest long to the double nearest to the largest one, which is one beyond
the longs, counts as a long, and no other double does.
-/
theorem val_wholeLong? (x : Float) :
    (wholeLong? x).map (·.val) = (Double.whole? x).bind fun n =>
      if minLong ≤ n ∧ n ≤ maxLong + 1 then some (min n maxLong) else none := by
  cases h : Double.decode x with
  | notANumber | infinite =>
    have hfinite : ¬ x.isFinite := by
      rw [Double.isFinite_iff, h]
      simp
    rw [wholeLong?, if_neg fun htests => hfinite htests.1, Double.whole?, h]
    rfl
  | finite d =>
    have hfinite : x.isFinite := Double.isFinite_iff.2 ⟨d, h⟩
    have hwhole : Double.whole? x = if d.fract.mantissa = 0 then some d.trunc else none := by
      rw [Double.whole?, h]
      rfl
    have hzero : Double.fractIsZero x = decide (d.fract.mantissa = 0) := by
      rw [Double.fractIsZero, h]
    have hcast : Double.toLong x = Long.nearest d.trunc := by rw [Double.toLong, h]
    rw [wholeLong?, hwhole, hzero, hcast]
    by_cases hfract : d.fract.mantissa = 0
    · simp only [hfinite, hfract, Double.range_iff h hfract, decide_true, true_and, if_true,
        Option.bind_some]
      split_ifs with hrange
      · have hnearest : (Long.nearest d.trunc).val = min d.trunc maxLong := by
          have hlo := hrange.1
          simp only [Long.nearest, Ranged.clamp, minLong, maxLong] at hlo ⊢
          omega
        rw [Option.map_some, hnearest]
      · rfl
    · simp [hfract]

theorem wholeLong?_eq_some_iff {x : Float} {n : Int} :
    (wholeLong? x).map (·.val) = some n ↔
      (Double.rational? x = some (n : ℚ) ∧ minLong ≤ n ∧ n ≤ maxLong) ∨
        (Double.rational? x = some ((maxLong + 1 : Int) : ℚ) ∧ n = maxLong) := by
  rw [val_wholeLong?, Option.bind_eq_some_iff, ← Double.whole?_eq_some_iff,
    ← Double.whole?_eq_some_iff]
  constructor
  · rintro ⟨m, hm, h⟩
    split_ifs at h with hrange
    cases h
    rw [hm]
    by_cases hle : m ≤ maxLong
    · left
      rw [min_eq_left hle]
      exact ⟨rfl, hrange.1, hle⟩
    · right
      rw [min_eq_right (by omega), show m = maxLong + 1 by omega]
      exact ⟨rfl, rfl⟩
  · rintro (⟨h, hlo, hhi⟩ | ⟨h, rfl⟩)
    · exact ⟨n, h, by rw [if_pos ⟨hlo, by omega⟩, min_eq_left hhi]⟩
    · exact ⟨_, h, by decide⟩

/-- The integer a value stands for is the value itself, or the largest long if it is one more. -/
theorem integer?_eq_some_iff {v : Value} {n : Int} :
    v.integer? = some n ↔
      (v.rational? = some (n : ℚ) ∧ minLong ≤ n ∧ n ≤ maxLong) ∨
        (v.rational? = some ((maxLong + 1 : Int) : ℚ) ∧ n = maxLong) := by
  cases v with
  | double x => exact wholeLong?_eq_some_iff
  | byte m | int m | long m =>
    -- An integer of any kind is a long.
    have hlo := m.lo_le
    have hhi := m.le_hi
    simp only [integer?, rational?, Option.some_inj, Int.cast_inj, minLong, maxLong]
    omega

/-- A conversion gives the integer that the value is equal to, if that lies in the range. -/
def Exactly {lo hi : Int} (v : Value) (converted : Option (Ranged lo hi)) : Prop :=
  ∀ n, converted = some n ↔ v.rational? = some (n.val : ℚ)

theorem bind_ofInt?_eq_some_iff {lo hi : Int} {v : Value} {n : Ranged lo hi} :
    v.integer?.bind Ranged.ofInt? = some n ↔ v.integer? = some n.val := by
  simp only [Option.bind_eq_some_iff, Ranged.ofInt?_eq_some_iff]
  constructor
  · rintro ⟨m, hm, h⟩
    rw [hm, h]
  · intro h
    exact ⟨n.val, h, rfl⟩

/-- Conversions to the integers below the largest long are exact. -/
theorem exactly_of_lt {lo hi : Int} (hlo : minLong ≤ lo) (hhi : hi < maxLong) (v : Value) :
    v.Exactly (v.integer?.bind Ranged.ofInt? : Option (Ranged lo hi)) := by
  intro n
  have := n.lo_le
  have := n.le_hi
  rw [bind_ofInt?_eq_some_iff, integer?_eq_some_iff]
  constructor
  · rintro (⟨h, -, -⟩ | ⟨-, h⟩)
    · exact h
    · omega
  · intro h
    exact .inl ⟨h, by omega, by omega⟩

theorem cast_maxLong_add_one : ((maxLong + 1 : Int) : ℚ) = 2 ^ 63 := by
  norm_num [maxLong]

/-- The number one beyond the longs is taken for the largest of them. -/
theorem ofValue?_of_beyond {v : Value} (h : v.rational? = some (2 ^ 63)) :
    Scalar.ofValue? v = some (Long.nearest maxLong) := by
  rw [← cast_maxLong_add_one] at h
  exact bind_ofInt?_eq_some_iff.2 (integer?_eq_some_iff.2 (.inr ⟨h, by decide⟩))

/-- The conversion to a long is exact but for this number. -/
theorem exactly_long_iff {v : Value} :
    v.Exactly (Scalar.ofValue? v : Option Long) ↔ v.rational? ≠ some (2 ^ 63) := by
  constructor
  · intro h hbeyond
    have hlargest := (h _).1 (ofValue?_of_beyond hbeyond)
    rw [hbeyond, ← cast_maxLong_add_one, Option.some_inj, Int.cast_inj] at hlargest
    exact absurd hlargest (by decide)
  · intro hne n
    refine bind_ofInt?_eq_some_iff.trans ?_
    rw [integer?_eq_some_iff, cast_maxLong_add_one]
    constructor
    · rintro (⟨h, -, -⟩ | ⟨h, -⟩)
      · exact h
      · exact absurd h hne
    · intro h
      exact .inl ⟨h, n.lo_le, n.le_hi⟩

/--
**Conversions keep the number.**  A value converts to the integer that it is equal to, if there is
one in the range, and to nothing else, except that the number one beyond the longs converts to the
largest long.  So does a reference to an entry with the value.
-/
theorem exactly_conversions (v : Value) :
    (v.Exactly (Scalar.ofValue? v : Option Byte) ∧ v.Exactly (Scalar.ofValue? v : Option Integer) ∧
      (v.Exactly (Scalar.ofValue? v : Option Long) ↔ v.rational? ≠ some (2 ^ 63)) ∧
      (v.rational? = some (2 ^ 63) → Scalar.ofValue? v = some (Long.nearest maxLong))) ∧
    ∀ (d : Dictionary) (name : String) (role : Role), d.get? name = some ⟨v, role⟩ →
      v.Exactly ((Expr.reference name : Expr Byte).eval d).toOption ∧
      v.Exactly ((Expr.reference name : Expr Integer).eval d).toOption ∧
      (v.Exactly ((Expr.reference name : Expr Long).eval d).toOption ↔
        v.rational? ≠ some (2 ^ 63)) := by
  have hbyte : v.Exactly (Scalar.ofValue? v : Option Byte) :=
    exactly_of_lt (by decide) (by decide) v
  have hint : v.Exactly (Scalar.ofValue? v : Option Integer) :=
    exactly_of_lt (by decide) (by decide) v
  refine ⟨⟨hbyte, hint, exactly_long_iff, ofValue?_of_beyond⟩, ?_⟩
  intro d name role hget
  simp only [Expr.toOption_eval_reference hget]
  exact ⟨hbyte, hint, exactly_long_iff⟩

/-- The double that is one beyond the longs. -/
def beyondLongs : Value :=
  .double (Float.ofBits 0x43E0000000000000)

theorem rational?_beyondLongs : beyondLongs.rational? = some (2 ^ 63) := by
  have h : Double.decode (Float.ofBits 0x43E0000000000000) = .finite ⟨false, 2 ^ 52, 11⟩ := by
    decide +kernel
  rw [beyondLongs, rational?, Double.rational?_eq_decode, h]
  norm_num [Double.Meaning.rational?, Double.Dyadic.toRat, Decimal.signed]

theorem exactly_conversions_beyondLongs :
    let d : Dictionary := NameMap.empty.insert "N" ⟨beyondLongs, .value⟩
    (Scalar.ofValue? beyondLongs : Option Long) = some (Long.nearest maxLong) ∧
      beyondLongs.Exactly ((Expr.reference "N" : Expr Integer).eval d).toOption := by
  obtain ⟨⟨-, -, -, hlong⟩, hreference⟩ := exactly_conversions beyondLongs
  exact ⟨hlong rational?_beyondLongs, (hreference _ "N" .value (by decide +kernel)).2.1⟩

/-- The double one beyond the longs converts to a long, which is another number. -/
theorem ofValue?_beyondLongs :
    beyondLongs.rational? = some (2 ^ 63) ∧
      (Scalar.ofValue? beyondLongs : Option Long) = some (Long.nearest (2 ^ 63 - 1)) ∧
      ¬ beyondLongs.Exactly (Scalar.ofValue? beyondLongs : Option Long) := by
  refine ⟨rational?_beyondLongs, by decide +kernel, ?_⟩
  rw [exactly_long_iff]
  exact not_not_intro rational?_beyondLongs

/-- The double before it is a long, and stays what it is. -/
example : (Scalar.ofValue? (.double (Float.ofBits 0x43DFFFFFFFFFFFFF)) : Option Long) =
    some (Long.nearest (2 ^ 63 - 1024)) := by
  decide +kernel

end Value

end MusicString

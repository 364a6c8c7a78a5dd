/-!
# Integers of a range

`Ranged lo hi` holds the integers from `lo` to `hi`.  The integer kinds of the language are three
such ranges: a byte, an integer of 32 bits and a long of 64 bits.

* `Ranged.ofInt?` keeps an integer that fits and refuses any other;
* `Ranged.clamp` moves an integer to the nearest one that fits.
-/

namespace MusicString

/-- The integers from `lo` to `hi`. -/
structure Ranged (lo hi : Int) where
  val : Int
  lo_le : lo ≤ val
  le_hi : val ≤ hi
  deriving DecidableEq

/-- The integers of 8 bits without a sign. -/
abbrev Byte := Ranged 0 255

/-- The integers of 32 bits with a sign. -/
abbrev Integer := Ranged (-2147483648) 2147483647

/-- The integers of 64 bits with a sign. -/
abbrev Long := Ranged (-9223372036854775808) 9223372036854775807

namespace Ranged

variable {lo hi : Int}

/-- The integer, if it lies in the range. -/
def ofInt? (n : Int) : Option (Ranged lo hi) :=
  if h : lo ≤ n ∧ n ≤ hi then some ⟨n, h.1, h.2⟩ else none

/-- The integer of the range nearest to `n`. -/
def clamp (h : lo ≤ hi) (n : Int) : Ranged lo hi :=
  ⟨max lo (min n hi), by omega, by omega⟩

/-- The natural number of the same size, for a range without negative integers. -/
def toNat (r : Ranged lo hi) : Nat :=
  r.val.toNat

theorem ext {a b : Ranged lo hi} (h : a.val = b.val) : a = b := by
  cases a; cases b; cases h; rfl

theorem ofInt?_eq_some_iff {n : Int} {r : Ranged lo hi} : ofInt? n = some r ↔ r.val = n := by
  constructor
  · intro h
    unfold ofInt? at h
    split at h
    · cases h; rfl
    · cases h
  · rintro rfl
    simp [ofInt?, r.lo_le, r.le_hi]

theorem ofInt?_eq_none_iff {n : Int} :
    (ofInt? n : Option (Ranged lo hi)) = none ↔ n < lo ∨ hi < n := by
  unfold ofInt?
  split <;> simp <;> omega

@[simp] theorem ofInt?_val (r : Ranged lo hi) : ofInt? r.val = some r :=
  ofInt?_eq_some_iff.2 rfl

/-- An integer that fits is the nearest to itself. -/
theorem clamp_val (h : lo ≤ hi) {n : Int} (hn : lo ≤ n ∧ n ≤ hi) : (clamp h n).val = n := by
  simp only [clamp]
  omega

end Ranged

/-- The byte nearest to an integer. -/
def Byte.nearest (n : Int) : Byte :=
  Ranged.clamp (by decide) n

/-- The integer of 32 bits nearest to an integer. -/
def Integer.nearest (n : Int) : Integer :=
  Ranged.clamp (by decide) n

/-- The long nearest to an integer. -/
def Long.nearest (n : Int) : Long :=
  Ranged.clamp (by decide) n

end MusicString

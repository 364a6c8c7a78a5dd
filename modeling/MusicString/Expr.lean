import MusicString.Dictionary
import MusicString.Error

/-!
# Expressions

A field of an element is an expression: a number, or a reference to a dictionary entry, which is
looked up only when the element is evaluated.
-/

namespace MusicString

/-- A number, or a reference to a dictionary entry. -/
inductive Expr (α : Type)
  | literal (value : α)
  | reference (name : String)
  deriving DecidableEq

namespace Expr

variable {α : Type} [Scalar α]

/-- The number an expression stands for. -/
def eval (d : Dictionary) : Expr α → Except EvalError α
  | literal value => .ok value
  | reference name =>
    match d.get? name with
    | none => .error (.undefinedKey name)
    | some entry =>
      match Scalar.ofValue? entry.value with
      | some value => .ok value
      | none => .error (.incompatibleKind name (Scalar.kind α) entry.value)

/-- An expression as it is written in a pattern. -/
def text : Expr α → String
  | literal value => (Scalar.toValue value).number
  | reference name => "[" ++ name ++ "]"

@[simp] theorem eval_literal (d : Dictionary) (value : α) :
    eval d (literal value) = .ok value := rfl

end Expr

/-- The largest number of 14 bits. -/
def max14Bit : Int := 16383

/-- The upper 7 bits of a number, which is first moved into the range of 14 bits. -/
def msb (n : Int) : Byte :=
  ⟨max 0 (min n max14Bit) / 128, by unfold max14Bit; omega, by unfold max14Bit; omega⟩

/-- The lower 7 bits of a number, which is first moved into the range of 14 bits. -/
def lsb (n : Int) : Byte :=
  ⟨max 0 (min n max14Bit) % 128, by unfold max14Bit; omega, by unfold max14Bit; omega⟩

/-- The two halves of a number give back the number, moved into the range of 14 bits. -/
theorem msb_mul_add_lsb (n : Int) :
    (msb n).val * 128 + (lsb n).val = max 0 (min n max14Bit) := by
  simp only [msb, lsb, max14Bit]
  omega

end MusicString

import MusicString.NameMap
import MusicString.Role
import MusicString.Value

/-!
# Dictionaries

A dictionary maps names to entries, each a value with a role.
-/

namespace MusicString

/-- What a dictionary holds under a name. -/
structure Entry where
  value : Value
  role : Role := .value
  deriving DecidableEq

/-- A map from names to entries. -/
abbrev Dictionary := NameMap Entry

namespace Dictionary

/-- Dictionaries with the same names, whose values agree and whose roles are equal. -/
def agrees (d other : Dictionary) : Bool :=
  d.size = other.size &&
    (d.entries.zip other.entries).all fun (p, q) =>
      p.1 = q.1 && p.2.value.agrees q.2.value && p.2.role = q.2.role

/-- The entries which another dictionary lacks or holds differently. -/
def changesFrom (d base : Dictionary) : List (String × Entry) :=
  d.entries.filter fun p => base.get? p.1 ≠ some p.2

end Dictionary

end MusicString

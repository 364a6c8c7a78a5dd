/-!
# Roles

The role of a dictionary entry says what a token becomes that is nothing but a reference to it.
-/

namespace MusicString

/-- What a lone reference to an entry stands for; the role `value` makes it a note. -/
inductive Role
  | value
  | tempo
  | instrument
  | voice
  | layer
  deriving DecidableEq

namespace Role

/-- The name of a role. -/
def name : Role → String
  | value => "value"
  | tempo => "tempo"
  | instrument => "instrument"
  | voice => "voice"
  | layer => "layer"

/-- All roles. -/
def all : List Role :=
  [value, tempo, instrument, voice, layer]

/-- The role with the given name. -/
def ofName? (s : String) : Option Role :=
  all.find? (·.name = s)

/-- The letter that marks a role in a definition; a plain value has none. -/
def letter : Role → Option Char
  | value => none
  | tempo => some 'T'
  | instrument => some 'I'
  | voice => some 'V'
  | layer => some 'L'

/-- The role that a letter marks. -/
def ofLetter? : Char → Option Role
  | 'T' => some tempo
  | 'I' => some instrument
  | 'V' => some voice
  | 'L' => some layer
  | _ => none

theorem ofLetter?_eq_some_iff {c : Char} {r : Role} : ofLetter? c = some r ↔ r.letter = some c := by
  constructor
  · intro h
    unfold ofLetter? at h
    split at h <;> cases h <;> rfl
  · intro h
    cases r <;> cases h <;> rfl

end Role

end MusicString

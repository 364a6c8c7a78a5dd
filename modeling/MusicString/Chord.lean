/-!
# Chords

The names of chords and their intervals above the root, in semitones.
-/

namespace MusicString.Chord

/-- The chords: a name and its intervals. -/
def table : List (String × List Nat) :=
  [("maj", [0, 4, 7]),
    ("min", [0, 3, 7]),
    ("aug", [0, 4, 8]),
    ("dim", [0, 3, 6]),
    ("dom7", [0, 4, 7, 10]),
    ("maj7", [0, 4, 7, 11]),
    ("min7", [0, 3, 7, 10]),
    ("sus4", [0, 5, 7]),
    ("sus2", [0, 2, 7]),
    ("maj6", [0, 4, 7, 9]),
    ("min6", [0, 3, 7, 9]),
    ("dom9", [0, 4, 7, 10, 14]),
    ("maj9", [0, 4, 7, 11, 14]),
    ("min9", [0, 3, 7, 10, 14]),
    ("dim7", [0, 3, 6, 9]),
    ("add9", [0, 4, 7, 14]),
    ("min11", [0, 7, 10, 14, 15, 17]),
    ("dom11", [0, 7, 10, 14, 17]),
    ("dom13", [0, 4, 7, 10, 14, 21]),
    ("min13", [0, 3, 7, 10, 14, 21]),
    ("maj13", [0, 4, 7, 11, 14, 21]),
    ("dom7<5", [0, 4, 6, 10]),
    ("dom7>5", [0, 4, 8, 10]),
    ("maj7<5", [0, 4, 6, 11]),
    ("maj7>5", [0, 4, 8, 11]),
    ("minmaj7", [0, 3, 7, 11]),
    ("dom7<5<9", [0, 4, 6, 10, 13]),
    ("dom7<5>9", [0, 4, 6, 10, 15]),
    ("dom7>5<9", [0, 4, 8, 10, 13]),
    ("dom7>5>9", [0, 4, 8, 10, 15])]

/-- The names of the chords, in the order of the table. -/
def names : List String :=
  table.map (·.1)

/-- The intervals of a chord. -/
def intervals? (name : String) : Option (List Nat) :=
  (table.find? (·.1 = name)).map (·.2)

end MusicString.Chord

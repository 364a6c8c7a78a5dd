import MusicString.Number.Ranged

/-!
# Defaults

What a token that leaves a field out takes instead.
-/

namespace MusicString

/-- The current defaults; the duration is in whole notes. -/
structure Defaults where
  octave : Byte := .nearest 5
  chordOctave : Byte := .nearest 3
  duration : Float := 0.25
  attack : Byte := .nearest 64
  decay : Byte := .nearest 64
  tempo : Integer := .nearest 120
  voice : Byte := .nearest 0
  layer : Byte := .nearest 0
  time : Long := .nearest 0
  deriving DecidableEq

end MusicString

import MusicString.Environment
import MusicString.Grammar.Token

/-!
# Patterns

A pattern is a text of tokens with white space between them.  Each token is read and fired before
the next one is read, so a definition counts for all tokens after it.
-/

namespace MusicString.Pattern

open Read

variable {σ : Type}

/-- Takes the next token, with its position, unless only white space follows. -/
def nextToken (d : Dictionary) : Read (Option (Nat × Element)) := do
  skipWhiteSpace
  if ← atEnd then return none
  let start ← position
  let element ← Grammar.element d
  if ← atBoundary then return some (start, element)
  else unexpected "whitespace or end of input"

/-- Reads and fires at most `n` tokens from a cursor on. -/
def fireUpTo : Nat → Cursor → Run σ (List Event)
  | 0, _ => pure []
  | n + 1, c => do
    match nextToken (← get).dictionary c with
    | .error e _ => throw e
    | .ok none _ => return []
    | .ok (some (start, element)) c' =>
      let event ← Environment.fire element start
      return event :: (← fireUpTo n c')

/-- Reads and fires the tokens of a text, which has at most as many as it has characters. -/
def parseFragment (text : String) : Run σ (List Event) :=
  fireUpTo (text.toList.length + 1) (.start text.toList)

/-- Reads and fires the tokens of a text after a reset of the environment. -/
def parse (text : String) : Run σ (List Event) := do
  modify (·.reset)
  parseFragment text

end MusicString.Pattern

import MusicString.Read.Combinator

/-!
# Rules

A rule is a grammar as data: a tree built from reads of characters, words and numbers by pairing,
choice and repetition.  `Rule.read` runs it against a dictionary, where the number of characters to
take may be defined.
-/

namespace MusicString

open Text

/-- A grammar whose results have type `α`. -/
inductive Rule : Type → Type 1
  /-- Characters of classes or of a set, at most or exactly in the given number. -/
  | chars (count : Option (Expr Integer)) (strict : Bool) (classes : List CharClass)
      (set : List Char) : Rule String
  /-- A token up to a delimiter that is a word of a vocabulary. -/
  | word (vocabulary : List String) (delimiters : List Char) (consume : Bool) : Rule String
  /-- The longest word of a vocabulary that follows. -/
  | keyword (vocabulary : List String) : Rule String
  /-- Two hexadecimal digits. -/
  | hexByte : Rule Byte
  /-- An expression that stands for a byte. -/
  | byteExpr : Rule (Expr Byte)
  /-- An expression that stands for an int. -/
  | intExpr : Rule (Expr Integer)
  /-- One rule and then another. -/
  | pair {α β : Type} (first : Rule α) (second : Rule β) : Rule (α × β)
  /-- A rule or nothing. -/
  | optional {α : Type} (inner : Rule α) : Rule (Option α)
  /-- A rule any number of times. -/
  | repeated {α : Type} (inner : Rule α) : Rule (List α)
  /-- The first of several rules that succeeds. -/
  | firstOf {α : Type} (count : Nat) (rules : Fin count → Rule α) : Rule α
  /-- A rule whose result is put through a function. -/
  | map {α β : Type} (f : α → β) (inner : Rule α) : Rule β

namespace Rule

/-- Exactly `count` characters of a class. -/
def exactly (count : Integer) (charClass : CharClass) : Rule String :=
  chars (some (.literal count)) true [charClass] []

/-- Any number of characters of a set. -/
def anyOf (set : List Char) : Rule String :=
  chars none false [] set

/-- The number of characters that an expression stands for. -/
def readCount (d : Dictionary) : Option (Expr Integer) → Read (Option Nat)
  | none => return none
  | some e => do
    let pos ← Read.position
    match e.eval d with
    | .error err => throw (.evaluation err pos)
    | .ok n =>
      if n.val < 0 then throw (.grammar (.negativeCount n.val) pos)
      return some n.toNat

/-- Runs a rule. -/
def read (d : Dictionary) : {α : Type} → Rule α → Read α
  | _, chars count strict classes set => do
    let count ← readCount d count
    return String.ofList (← Read.chars count strict classes set)
  | _, word vocabulary delimiters consume => Read.word vocabulary delimiters consume
  | _, keyword vocabulary => Read.keyword vocabulary
  | _, hexByte => Read.hexByte
  | _, byteExpr => Read.byteExpr
  | _, intExpr => Read.intExpr
  | _, pair first second => do
    let a ← first.read d
    let b ← second.read d
    return (a, b)
  | _, optional inner => Read.optional (inner.read d)
  | _, repeated inner => Read.repeated (inner.read d)
  | _, firstOf count rules => Read.firstOf (List.ofFn fun i : Fin count => (rules i).read d)
  | _, map f inner => f <$> inner.read d

end Rule

end MusicString

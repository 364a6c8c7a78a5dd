import MusicString.Read.Number

/-!
# Combining reads

Alternatives, options and repetitions fall back on a failure only if the failing read took
nothing; a failure after characters were taken is final.
-/

namespace MusicString.Read

variable {α β : Type}

/-- The longest text of a list, if it has one. -/
def longest : List String → Option String
  | [] => none
  | w :: ws =>
    match longest ws with
    | none => some w
    | some v => if v.length < w.length then some w else some v

/-- The longest word of the vocabulary with which a text starts. -/
def longestMatch (vocabulary : List String) (text : List Char) : Option String :=
  longest (vocabulary.filter fun w => w.toList.isPrefixOf text)

/-- Takes the longest word of the vocabulary that follows. -/
def keyword (vocabulary : List String) : Read String := do
  match longestMatch vocabulary (← get).rest with
  | some w =>
    skip w.length
    return w
  | none =>
    let words := separated ", " vocabulary
    unexpected s!"one of [{words}]"

theorem keyword_of_match {vocabulary : List String} {c : Cursor} {w : String}
    (h : longestMatch vocabulary c.rest = some w) :
    keyword vocabulary c = .ok w (c.move w.length) := by
  show (match longestMatch vocabulary c.rest with
    | some w => (do skip w.length; return w : Read String)
    | none => unexpected _) c = _
  rw [h]
  rfl

theorem keyword_of_no_match {vocabulary : List String} {c : Cursor}
    (h : longestMatch vocabulary c.rest = none) :
    keyword vocabulary c =
      .error (c.unexpected ("one of [" ++ separated ", " vocabulary ++ "]")) c := by
  show (match longestMatch vocabulary c.rest with
    | some w => (do skip w.length; return w : Read String)
    | none => unexpected _) c = _
  rw [h]
  rfl

/-- Takes a token up to a delimiter, which must be a word of the vocabulary. -/
def word (vocabulary : List String) (delimiters : List Char) (consume : Bool) : Read String := do
  let start ← get
  let w := String.ofList (← token consume delimiters)
  if vocabulary.contains w then
    return w
  else
    set start
    throw (.grammar (.notOneOf vocabulary w) start.pos)

/-- What a read takes, or nothing if it fails without taking a character. -/
def optional (r : Read α) : Read (Option α) := fun c =>
  match r c with
  | .ok a c' => .ok (some a) c'
  | .error e c' => if c'.pos = c.pos then .ok none c' else .error e c'

/--
What a read takes again and again, until it fails without taking a character or succeeds without
taking one, at most `n` times.
-/
def repeatedUpTo (r : Read α) : Nat → Read (List α)
  | 0 => pure []
  | n + 1 => fun c =>
    match r c with
    | .ok a c' =>
      if c'.pos = c.pos then .ok [a] c'
      else
        match repeatedUpTo r n c' with
        | .ok as c'' => .ok (a :: as) c''
        | .error e c'' => .error e c''
    | .error e c' => if c'.pos = c.pos then .ok [] c' else .error e c'

/-- What a read takes again and again; there are at most one more items than characters. -/
def repeated (r : Read α) : Read (List α) := fun c =>
  repeatedUpTo r (c.rest.length + 1) c

/-- Tries reads in order, and collects the messages of those that fail without taking anything. -/
def firstOfFrom : List (Read α) → List String → Read α
  | [], messages => do throw (.grammar (.noAlternative messages) (← position))
  | r :: rs, messages => fun c =>
    match r c with
    | .ok a c' => .ok a c'
    | .error e c' =>
      if c'.pos = c.pos then firstOfFrom rs (messages ++ [e.message]) c' else .error e c'

/-- What the first read takes that succeeds. -/
def firstOf (rs : List (Read α)) : Read α :=
  firstOfFrom rs []

/-- Repeats a step as long as it gives a new value, at most `n` times. -/
def iterateUpTo (step : α → Read (Option α)) : Nat → α → Read α
  | 0, a => pure a
  | n + 1, a => do
    match ← step a with
    | some b => iterateUpTo step n b
    | none => pure a

theorem iterateUpTo_succ (step : α → Read (Option α)) (n : Nat) (a : α) (c : Cursor) :
    iterateUpTo step (n + 1) a c =
      match step a c with
      | .ok (some b) c' => iterateUpTo step n b c'
      | .ok none c' => .ok a c'
      | .error e c' => .error e c' := by
  show EStateM.bind (step a) _ c = _
  unfold EStateM.bind
  rcases step a c with ⟨_ | b, c'⟩ | ⟨e, c'⟩ <;> rfl

/-- Repeats a step as long as it gives a new value; a step that does must take a character. -/
def iterate (step : α → Read (Option α)) (a : α) : Read α := do
  iterateUpTo step ((← get).rest.length + 1) a

end MusicString.Read

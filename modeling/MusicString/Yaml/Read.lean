import MusicString.Yaml
import MusicString.Yaml.Scalar
import MusicString.Text.WhiteSpace

/-!
# Reading YAML

The part of YAML that configurations use: mappings in block style, one entry a line, scalars
without quotes, lists of such scalars between brackets, comments and empty lines.
-/

namespace MusicString.Yaml

open Text

/-- A line: the spaces that it starts with, and the text after them. -/
structure Line where
  indent : Nat
  text : List Char

/-- Whether a character is a space or a tab. -/
def isBlank (c : Char) : Bool :=
  c = ' ' || c = '\t'

/-- A line without its comment, which starts at a number sign that a blank or nothing precedes. -/
def withoutComment (afterBlank : Bool) : List Char → List Char
  | [] => []
  | c :: rest => if c = '#' && afterBlank then [] else c :: withoutComment (isBlank c) rest

/-- The line of a text without comment and blanks at the end, if anything is left. -/
def Line.ofText? (s : List Char) : Option Line :=
  let kept := trimEnd (withoutComment true s)
  let text := kept.dropWhile (· = ' ')
  if text = [] then none else some ⟨kept.length - text.length, text⟩

/-- The lines of a document, without empty ones. -/
def linesOf (s : String) : List Line :=
  (s.splitOn "\n").filterMap fun l => Line.ofText? l.toList

/-- The key and the value of an entry, which a colon before a blank or the end divides. -/
def splitEntry : List Char → Option (List Char × List Char)
  | [] => none
  | [c] => if c = ':' then some ([], []) else none
  | c :: d :: rest =>
    if c = ':' && isBlank d then some ([], rest.dropWhile isBlank)
    else (splitEntry (d :: rest)).map fun (key, value) => (c :: key, value)

/-- The texts between commas. -/
def splitAtCommas : List Char → List (List Char)
  | [] => [[]]
  | c :: rest =>
    match splitAtCommas rest with
    | [] => [[c]]
    | item :: items => if c = ',' then [] :: item :: items else (c :: item) :: items

/-- The items of a list between brackets. -/
def flowItems (s : List Char) : List Yaml :=
  (splitAtCommas s).map fun item => .scalar (String.ofList (trim item))

/-- The value that stands on the line of its key: a list between brackets, or a scalar. -/
def inlineValue? (s : List Char) : Option Yaml :=
  match s with
  | '[' :: rest =>
    if rest.getLast? = some ']' then some (.sequence (flowItems rest.dropLast)) else none
  | _ =>
    if startsWithIndicator s || (splitEntry s).isSome then none
    else some (.scalar (String.ofList s))

/--
The entries of a mapping at one depth of indentation, and the lines after it; there are at most `n`
lines.
-/
def entries (indent : Nat) : Nat → List Line → Option (List (String × Yaml) × List Line)
  | 0, _ => none
  | _ + 1, [] => some ([], [])
  | n + 1, line :: rest => do
    if line.indent < indent then return ([], line :: rest)
    if indent < line.indent then none
    let (key, value) ← splitEntry line.text
    let (node, rest) ←
      if value = [] then
        match rest with
        | next :: _ =>
          if indent < next.indent then
            (entries next.indent n rest).map fun (fields, rest) => (.mapping fields, rest)
          else some (.scalar "", rest)
        | [] => some (.scalar "", rest)
      else (inlineValue? value).map (·, rest)
    let (others, rest) ← entries indent n rest
    return ((String.ofList (trimEnd key), node) :: others, rest)

/-- The mapping of a document; a document without lines is an empty one. -/
def document? (s : String) : Option (List (String × Yaml)) :=
  match linesOf s with
  | [] => some []
  | first :: rest =>
    match entries first.indent (rest.length + 2) (first :: rest) with
    | some (fields, []) => some fields
    | _ => none

end MusicString.Yaml

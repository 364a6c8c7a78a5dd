/-!
# YAML documents

A document is a tree of scalars, sequences and mappings.  `Yaml.render` writes it in block style:
the entries of a mapping and the items of a sequence stand on lines of their own.
-/

namespace MusicString

/-- A YAML document; a scalar holds its text as it is written. -/
inductive Yaml
  | scalar (text : String)
  | sequence (items : List Yaml)
  | mapping (fields : List (String × Yaml))

namespace Yaml

/-- Lines indented by one level. -/
def indented (lines : List String) : List String :=
  lines.map ("  " ++ ·)

/-- The lines of an item: a dash before the first, and the others indented. -/
def itemLines : List String → List String
  | [] => []
  | first :: rest => ("- " ++ first) :: indented rest

mutual

/-- The lines of a document. -/
def lines : Yaml → List String
  | scalar text => [text]
  | sequence [] => ["[]"]
  | sequence items => sequenceLines items
  | mapping fields => mappingLines fields

/-- The lines of the items of a sequence. -/
def sequenceLines : List Yaml → List String
  | [] => []
  | item :: rest => itemLines item.lines ++ sequenceLines rest

/-- The lines of the entries of a mapping. -/
def mappingLines : List (String × Yaml) → List String
  | [] => []
  | (key, value) :: rest => fieldLines key value ++ mappingLines rest

/-- The lines of an entry; the items of a sequence are not indented below their key. -/
def fieldLines (key : String) : Yaml → List String
  | scalar text => [key ++ ": " ++ text]
  | sequence [] => [key ++ ": []"]
  | sequence items => (key ++ ":") :: sequenceLines items
  | mapping fields => (key ++ ":") :: indented (mappingLines fields)

end

/-- The text of a document, which ends in a line break. -/
def render (y : Yaml) : String :=
  String.join (y.lines.map (· ++ "\n"))

end Yaml

end MusicString

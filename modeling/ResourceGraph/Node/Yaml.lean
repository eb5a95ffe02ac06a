import ResourceGraph.Node.Basic
import ResourceGraph.Yaml.ScalarText

/-!
# Document trees as YAML

Trees are written in block layout, two columns deeper for each level. The list of a key starts at
the column of the key; an item starts on the line of its marker; empty collections are written in
brackets. Every part ends its last line.
-/

set_option autoImplicit false

namespace ResourceGraph

open Yaml.ScalarText

/-- The YAML text of a number: an integer below 2^53 in size is written without a fraction. -/
def Number.yamlText (x : Number) : List Char :=
  match x.toSmallInt? with
  | some i => intText i
  | none => x.text .yaml

namespace Node

/-- The text of a node that takes no lines below it; further lines of a string go on at a column. -/
def inlineText? (column : Nat) : Node → Option (List Char)
  | null => some ['n', 'u', 'l', 'l']
  | boolean b => some (if b then ['t', 'r', 'u', 'e'] else ['f', 'a', 'l', 's', 'e'])
  | number x => some x.yamlText
  | string s => some (ofText column s.toList)
  | sequence [] => some ['[', ']']
  | mapping [] => some ['\x7b', '\x7d']
  | _ => none

/-- A text with its last line ended; any line break ends it. -/
def endLine (cs : List Char) : List Char :=
  if cs.getLast?.any Yaml.isBreak then cs else cs ++ ['\n']

mutual

/-- A node after an indicator of one character at a column, on the same line. -/
def afterIndicator (column : Nat) : Node → List Char
  | sequence (item :: rest) => ' ' :: itemsText (column + 2) true (item :: rest)
  | mapping (entry :: rest) => ' ' :: entriesText (column + 2) true (entry :: rest)
  | node => ' ' :: endLine ((node.inlineText? (column + 2)).getD [])

/-- A node after the colon of a key at a column. -/
def afterKey (column : Nat) : Node → List Char
  | sequence (item :: rest) => '\n' :: itemsText column false (item :: rest)
  | mapping (entry :: rest) => '\n' :: entriesText (column + 2) false (entry :: rest)
  | node => ' ' :: endLine ((node.inlineText? (column + 2)).getD [])

/-- The items of a list at a column; the first may stand where its marker is to be already. -/
def itemsText (column : Nat) : Bool → List Node → List Char
  | _, [] => []
  | placed, item :: rest =>
    (if placed then [] else spaces column) ++ '-' :: afterIndicator column item ++
      itemsText column false rest

/-- The entries of a mapping at a column; the first may stand where its key is to be already. -/
def entriesText (column : Nat) : Bool → List (String × Node) → List Char
  | _, [] => []
  | placed, (key, value) :: rest =>
    (if placed then [] else spaces column) ++
      (if isSimpleKey key.toList then ofText (column + 2) key.toList ++ ':' :: afterKey column value
        else '?' :: ' ' :: endLine (ofText (column + 2) key.toList) ++ spaces column ++
          ':' :: afterIndicator column value) ++
      entriesText column false rest

end

/-- A tree as YAML. -/
def toYaml : Node → String
  | sequence (item :: rest) => String.ofList (itemsText 0 true (item :: rest))
  | mapping (entry :: rest) => String.ofList (entriesText 0 true (entry :: rest))
  | node => String.ofList (endLine ((node.inlineText? 2).getD []))

end Node

end ResourceGraph

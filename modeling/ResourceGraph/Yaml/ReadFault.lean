import ResourceGraph.Yaml.Document
import ResourceGraph.Yaml.Value
import ResourceGraph.Text.Quoted

/-!
# Faults of reading

What can go wrong between a YAML text and a value: the text does not load, its content is not what
is expected, or the whole goes past a limit. Content faults name the place in the document, and
every fault that has a mark tells it.
-/

set_option autoImplicit false

namespace ResourceGraph.Yaml

/-- A place in a document, as a path from its root. -/
inductive Place where
  | root
  | item (parent : Place) (index : Nat)
  | entry (parent : Place) (key : List Char)
  /-- The value of a key that is no scalar. -/
  | unnamed (parent : Place)
  /-- What an alias at a place stands for. -/
  | aliased (origin : Place)
  deriving Repr

namespace Place

/-- The written form of a place. The root is a point, which is left out before a key unless an alias
stands at the root. -/
def render : Place → String
  | root => "."
  | item parent index => parent.render ++ "[" ++ toString index ++ "]"
  | entry root key => String.ofList key
  | entry parent key => parent.render ++ "." ++ String.ofList key
  | unnamed root => "?"
  | unnamed parent => parent.render ++ ".?"
  | aliased origin => origin.render

/-- A place before a message: nothing where the place is written as a point alone. -/
def lead (place : Place) : String :=
  if place.render = "." then "" else place.render ++ ": "

end Place

/-- What was found where something else was expected. -/
inductive Found where
  | unit
  | bool (b : Bool)
  | int (i : Int)
  /-- An integer outside the 64-bit ranges. -/
  | wide (i : Int)
  | float (x : Number)
  | string (cs : List Char)
  | sequence
  | mapping
  deriving Repr

namespace Found

/-- The text of a floating point number, which shows a point if it is finite. -/
def floatText (x : Number) : String :=
  let text := x.text .scalar
  String.ofList (if x.isFinite && !text.contains '.' then text ++ ['.', '0'] else text)

/-- The wording of what was found. -/
def message : Found → String
  | unit => "unit value"
  | bool b => "boolean \x60" ++ (if b then "true" else "false") ++ "\x60"
  | int i => "integer \x60" ++ String.ofList (Number.intText i) ++ "\x60"
  | wide i =>
    "integer \x60" ++ String.ofList (Number.intText i) ++ "\x60 as " ++
      (if i < 0 then "i128" else "u128")
  | float x => "floating point \x60" ++ floatText x ++ "\x60"
  | string cs => "string " ++ String.ofList (Text.quoted cs)
  | sequence => "sequence"
  | mapping => "map"

end Found

/-- What was expected. -/
inductive Expected where
  | anyValue
  | boolean
  | integer
  | float
  | null
  | text
  | natural
  | fieldName
  | settings
  deriving DecidableEq, Repr

namespace Expected

/-- The wording of what was expected. -/
def message : Expected → String
  | anyValue => "any YAML value"
  | boolean => "a boolean"
  | integer => "an integer"
  | float => "a float"
  | null => "null"
  | text => "a string"
  | natural => "u64"
  | fieldName => "field identifier"
  | settings => "struct ValidatorConfig"

end Expected

/-- What is wrong with the content of a document. -/
inductive Complaint where
  /-- A value of another type than expected. -/
  | wrongType (found : Found) (expected : Expected)
  /-- A text that is no value of the expected type. -/
  | wrongValue (found : Found) (expected : Expected)
  /-- A key that occurs before in its mapping. -/
  | duplicateKey (key : Value)
  /-- A field that is not among the known ones. -/
  | unknownField (name : List Char) (known : List String)
  /-- A field that occurs before. -/
  | duplicateField (name : String)

namespace Complaint

/-- A name between backquotes. -/
def backquoted (name : String) : String := "\x60" ++ name ++ "\x60"

/-- The wording of a key that occurs before. -/
def keyMessage : Value → String
  | .null => "with null key"
  | .bool b => "with key " ++ backquoted (if b then "true" else "false")
  | .int i => "with key " ++ String.ofList (Number.intText i)
  | .float x => "with key " ++ String.ofList (x.text .yaml)
  | .string s => "with key " ++ String.ofList (Text.quoted s.toList)
  | _ => "in YAML map"

/-- The wording of a complaint. -/
def message : Complaint → String
  | wrongType found expected =>
    "invalid type: " ++ found.message ++ ", expected " ++ expected.message
  | wrongValue found expected =>
    "invalid value: " ++ found.message ++ ", expected " ++ expected.message
  | duplicateKey key => "duplicate entry " ++ keyMessage key
  | unknownField name known =>
    "unknown field " ++ backquoted (String.ofList name) ++ ", expected one of " ++
      ", ".intercalate (known.map backquoted)
  | duplicateField name => "duplicate field " ++ backquoted name

end Complaint

/-- Why a text could not be read. -/
inductive ReadFault where
  | load (fault : LoadFault)
  | content (complaint : Complaint) (mark : Mark) (place : Place)
  /-- Collections nest too deep. -/
  | tooDeep (mark : Mark)
  /-- Aliases were followed too often. -/
  | tooManyAliases
  /-- The document ended too soon. -/
  | endOfStream
  | severalDocuments

namespace ReadFault

/-- The mark that a fault tells. -/
def mark? : ReadFault → Option Mark
  | load (.syntactic fault) => some fault.mark
  | load (.unknownAnchor mark) => some mark
  | content _ mark _ => some mark
  | tooDeep mark => some mark
  | tooManyAliases => none
  | endOfStream => none
  | severalDocuments => none

/-- The wording of a fault. -/
def message : ReadFault → String
  | load (.syntactic fault) => fault.message
  | load (.unknownAnchor mark) => "unknown anchor" ++ Fault.placeText mark
  | content complaint mark place =>
    place.lead ++ complaint.message ++ Fault.placeText mark
  | tooDeep mark => "recursion limit exceeded" ++ Fault.placeText mark
  | tooManyAliases => "repetition limit exceeded"
  | endOfStream => "EOF while parsing a value"
  | severalDocuments =>
    "deserializing from YAML containing more than one document is not supported"

end ReadFault

end ResourceGraph.Yaml

import ResourceGraph.Text.Blank
import ResourceGraph.Text.Split

/-!
# Field type expressions

The compact types of schema fields: a base type and modifiers, with bars between them.

    type     ::= base { "|" modifier }
    base     ::= "string" | "integer" | "boolean" | "number" | "[]" inner | "map[" key "]" value
    modifier ::= "required" | name "=" value

Segments are trimmed, and a bar after a backslash does not split. Reading never fails: what does not
follow the grammar is marked as not valid, and reading stops at the first malformed modifier.
-/

set_option autoImplicit false

namespace ResourceGraph

/-- Modifiers in the order they were first written. A repeated name keeps its place and takes the
last value. -/
structure Modifiers where
  entries : List (String × String)
  deriving DecidableEq, Repr

namespace Modifiers

/-- No modifiers. -/
def empty : Modifiers := ⟨[]⟩

/-- The entries with the value of a name set, at its place if it has one and at the end if not. -/
def insertInto (name value : String) : List (String × String) → List (String × String)
  | [] => [(name, value)]
  | (n, v) :: rest => if n = name then (n, value) :: rest else (n, v) :: insertInto name value rest

/-- Sets the value of a name. -/
def insert (m : Modifiers) (name value : String) : Modifiers := ⟨insertInto name value m.entries⟩

/-- The value of a name. -/
def get? (m : Modifiers) (name : String) : Option String := m.entries.lookup name

/-- Whether a name has a value. -/
def contains (m : Modifiers) (name : String) : Bool := (m.get? name).isSome

/-- The names, in order. -/
def names (m : Modifiers) : List String := m.entries.map Prod.fst

/-- The number of names. -/
def size (m : Modifiers) : Nat := m.entries.length

/-- Whether there is no modifier. -/
def isEmpty (m : Modifiers) : Bool := m.entries.isEmpty

theorem lookup_insertInto_self (name value : String) (entries : List (String × String)) :
    (insertInto name value entries).lookup name = some value := by
  induction entries with
  | nil => simp [insertInto]
  | cons e rest ih =>
    obtain ⟨n, v⟩ := e
    by_cases hn : n = name
    · simp [insertInto, hn]
    · have hne : (name == n) = false := by simpa using fun h => hn h.symm
      simp [insertInto, hn, List.lookup_cons, hne, ih]

/-- A name has the value it was last given. -/
theorem get?_insert_self (m : Modifiers) (name value : String) :
    (m.insert name value).get? name = some value :=
  lookup_insertInto_self name value m.entries

end Modifiers

/-- The form of a base type. Element, key and value types are not looked into. -/
inductive BaseKind where
  | primitive
  | array
  | map
  | unknown
  deriving DecidableEq, Repr

namespace FieldType

/-- The primitive base types. -/
def primitives : List String := ["string", "integer", "boolean", "number"]

/-- The modifiers with a meaning. -/
def knownModifiers : List String :=
  ["required", "default", "description", "minimum", "maximum", "enum"]

/-- Whether a modifier has a meaning. -/
def isKnownModifier (name : String) : Bool := knownModifiers.contains name

/-- Whether a text begins with `[]` and goes on. -/
def isArray : List Char → Bool
  | '[' :: ']' :: inner => !inner.isEmpty
  | _ => false

/-- Whether a text holds a `]` with text after it. -/
def closesKey : List Char → Bool
  | [] => false
  | c :: cs => (c == ']' && !cs.isEmpty) || closesKey cs

/-- Whether a text is `map[K]V` with neither `K` nor `V` empty. `K` may hold brackets. -/
def isMap : List Char → Bool
  | 'm' :: 'a' :: 'p' :: '[' :: _ :: rest => closesKey rest
  | _ => false

/-- The form of a base type. -/
def baseKind (base : String) : BaseKind :=
  if primitives.contains base then .primitive
  else if isArray base.toList then .array
  else if isMap base.toList then .map
  else .unknown

/-- A character put before the first part. -/
def consFirst (c : Char) : List (List Char) → List (List Char)
  | [] => [[c]]
  | part :: parts => (c :: part) :: parts

/-- The parts of a text between its bars. A bar after a backslash belongs to its part, without the
backslash. -/
def splitBars : List Char → List (List Char)
  | [] => [[]]
  | '\\' :: '|' :: cs => consFirst '|' (splitBars cs)
  | '|' :: cs => [] :: splitBars cs
  | c :: cs => consFirst c (splitBars cs)

/-- The trimmed parts of a text between its bars. -/
def segments (text : List Char) : List (List Char) := (splitBars text).map Text.trim

/-- Whether a character may stand in a modifier's name. -/
def isWordChar (c : Char) : Bool := c.isAlphanum || c == '_'

/-- The name and value of one modifier: `required` alone stands for `required=true`, and otherwise
the name is a word and the value is not empty. -/
def modifier? (segment : List Char) : Option (String × String) :=
  if segment = "required".toList then some ("required", "true")
  else match Text.cutAt? '=' segment with
    | none => none
    | some (left, right) =>
      let name := Text.trimEnd left
      let value := Text.trimStart right
      if !name.isEmpty && name.all isWordChar && !value.isEmpty then
        some (String.ofList name, String.ofList value)
      else none

end FieldType

/-- A field type as read: what was recorded, and whether the whole text follows the grammar. -/
structure FieldType where
  baseType : String
  modifiers : Modifiers
  isValid : Bool
  isRequired : Bool
  deriving DecidableEq, Repr

namespace FieldType

/-- The type read from a blank text. -/
def blank : FieldType := ⟨"", Modifiers.empty, false, false⟩

/-- Records one modifier; the last value of `required` decides whether the field is required. -/
def record (t : FieldType) (name value : String) : FieldType :=
  { t with
    modifiers := t.modifiers.insert name value
    isRequired := if name = "required" then value == "true" else t.isRequired }

/-- Records modifiers up to the first malformed one; without one, the type is valid if its base is.
-/
def readModifiers (baseIsValid : Bool) : List (List Char) → FieldType → FieldType
  | [], t => { t with isValid := baseIsValid }
  | segment :: rest, t =>
    match modifier? segment with
    | none => t
    | some (name, value) => readModifiers baseIsValid rest (t.record name value)

/-- Reads a type expression. -/
def read (text : String) : FieldType :=
  if (Text.trim text.toList).isEmpty then blank
  else match segments text.toList with
    | [] => blank
    | first :: rest =>
      let base := String.ofList first
      readModifiers (baseKind base != .unknown) rest { blank with baseType := base }

/-- The form of the base type. -/
def kind (t : FieldType) : BaseKind := baseKind t.baseType

/-- The names of the modifiers without a meaning, in order. -/
def unknownModifiers (t : FieldType) : List String :=
  t.modifiers.names.filter fun name => !isKnownModifier name

end FieldType

end ResourceGraph

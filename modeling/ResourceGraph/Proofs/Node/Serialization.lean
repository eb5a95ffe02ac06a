import ResourceGraph.Node.Json
import ResourceGraph.Node.Yaml
import ResourceGraph.Node.Reading
import ResourceGraph.Proofs.Number.Integer
import ResourceGraph.Proofs.Yaml.IntegerText

/-!
# Integers of a document, written again

A tree is written by one walk with a form for each kind of node (`Serializer`); JSON and YAML are
two such choices of forms (`Node.toJson_eq_serialize`, `Node.toYaml_eq_serialize`). A number is
given to the form for integers if it is an integer below 2^53 in size, and to the form for floating
point numbers otherwise.

Proves: of a document made of mappings with text keys, sequences and integers of 64 bits, every
integer below 2^53 in size is written as that integer, in its place and order. Every other one is
written there as a floating point number, one of the nearest to it, and its literal is no integer's
(`IntegerTree.serialize_ofValue`). The digits that JSON and YAML write for an integer are read as
that integer again (`Integer64.ofPlain_text`).
-/

set_option autoImplicit false

namespace ResourceGraph

open Number (twoTo intText)

/-! ## Serializers -/

/-- The forms that the nodes of a tree are written in. -/
structure Serializer (α : Type) where
  null : α
  boolean : Bool → α
  integer : Int → α
  float : Number → α
  string : String → α
  sequence : List α → α
  mapping : List (String × α) → α

namespace Node

variable {α : Type} (S : Serializer α)

mutual

/-- A tree in the forms of a serializer. -/
def serialize : Node → α
  | null => S.null
  | boolean b => S.boolean b
  | number x =>
    match x.toSmallInt? with
    | some i => S.integer i
    | none => S.float x
  | string s => S.string s
  | sequence items => S.sequence (serializeItems items)
  | mapping entries => S.mapping (serializeEntries entries)

/-- The elements of a sequence in the forms of a serializer. -/
def serializeItems : List Node → List α
  | [] => []
  | item :: rest => serialize item :: serializeItems rest

/-- The entries of a mapping in the forms of a serializer. -/
def serializeEntries : List (String × Node) → List (String × α)
  | [] => []
  | (key, value) :: rest => (key, serialize value) :: serializeEntries rest

end

end Node

/-! ## JSON -/

/-- The forms of JSON. -/
def Serializer.json : Serializer Json where
  null := .null
  boolean := .bool
  integer i := .number (String.ofList (intText i))
  float x := .number (String.ofList (x.text .json))
  string := .string
  sequence := .array
  mapping := .object

namespace Node

mutual

theorem toJson_eq_serialize : ∀ n : Node, n.toJson = n.serialize .json
  | null => rfl
  | boolean _ => rfl
  | number x => by
    rw [toJson, serialize, Number.jsonText]
    cases x.toSmallInt? <;> rfl
  | string _ => rfl
  | sequence items => congrArg Json.array (itemsToJson_eq_serialize items)
  | mapping entries => congrArg Json.object (entriesToJson_eq_serialize entries)

theorem itemsToJson_eq_serialize : ∀ items : List Node,
    itemsToJson items = serializeItems .json items
  | [] => rfl
  | item :: rest => by
    rw [itemsToJson, serializeItems, toJson_eq_serialize item, itemsToJson_eq_serialize rest]

theorem entriesToJson_eq_serialize : ∀ entries : List (String × Node),
    entriesToJson entries = serializeEntries .json entries
  | [] => rfl
  | (key, value) :: rest => by
    rw [entriesToJson, serializeEntries, toJson_eq_serialize value,
      entriesToJson_eq_serialize rest]

end

end Node

/-! ## YAML -/

/-- Where a node is written: on its own, or after an indicator or a key at a column. -/
inductive Slot where
  | whole
  | afterIndicator (column : Nat)
  | afterKey (column : Nat)

namespace Slot

open Yaml.ScalarText
open Node (endLine)

/-- A text that takes no lines below it, given by the column where its further lines go on. -/
def inline (text : Nat → List Char) : Slot → List Char
  | whole => endLine (text 2)
  | afterIndicator column => ' ' :: endLine (text (column + 2))
  | afterKey column => ' ' :: endLine (text (column + 2))

/-- Lines at a column, the first of which may stand where it is to be already. After a key they are
set in by some columns. -/
def block (step : Nat) (lines : Nat → Bool → List Char) : Slot → List Char
  | whole => lines 0 true
  | afterIndicator column => ' ' :: lines (column + 2) true
  | afterKey column => '\n' :: lines (column + step) false

/-- The items of a list at a column. -/
def itemLines : List (Slot → List Char) → Nat → Bool → List Char
  | [], _, _ => []
  | item :: rest, column, placed =>
    (if placed then [] else spaces column) ++ '-' :: item (afterIndicator column) ++
      itemLines rest column false

/-- The entries of a mapping at a column. -/
def entryLines : List (String × (Slot → List Char)) → Nat → Bool → List Char
  | [], _, _ => []
  | (key, value) :: rest, column, placed =>
    (if placed then [] else spaces column) ++
      (if isSimpleKey key.toList then
          ofText (column + 2) key.toList ++ ':' :: value (afterKey column)
        else '?' :: ' ' :: endLine (ofText (column + 2) key.toList) ++ spaces column ++
          ':' :: value (afterIndicator column)) ++
      entryLines rest column false

end Slot

/-- The forms of YAML, each as the text it takes where it is written. -/
def Serializer.yaml : Serializer (Slot → List Char) where
  null := Slot.inline fun _ => ['n', 'u', 'l', 'l']
  boolean b := Slot.inline fun _ => if b then ['t', 'r', 'u', 'e'] else ['f', 'a', 'l', 's', 'e']
  integer i := Slot.inline fun _ => intText i
  float x := Slot.inline fun _ => x.text .yaml
  string s := Slot.inline fun column => Yaml.ScalarText.ofText column s.toList
  sequence
    | [] => Slot.inline fun _ => ['[', ']']
    | item :: rest => Slot.block 0 (Slot.itemLines (item :: rest))
  mapping
    | [] => Slot.inline fun _ => ['\x7b', '\x7d']
    | entry :: rest => Slot.block 2 (Slot.entryLines (entry :: rest))

namespace Node

/-- A node as it is written in a place. -/
def textAt (n : Node) : Slot → List Char
  | .whole => n.toYaml.toList
  | .afterIndicator column => n.afterIndicator column
  | .afterKey column => n.afterKey column

/-- What takes no lines below it is written in the same way in all places. -/
theorem inline_eq_textAt {n : Node} (h : ∀ column, (n.inlineText? column).isSome = true)
    (slot : Slot) : Slot.inline (fun column => (n.inlineText? column).getD []) slot =
      n.textAt slot := by
  have hitems : ∀ item rest, n ≠ sequence (item :: rest) := by
    rintro item rest rfl
    exact absurd (h 0) (by simp [inlineText?])
  have hentries : ∀ entry rest, n ≠ mapping (entry :: rest) := by
    rintro entry rest rfl
    exact absurd (h 0) (by simp [inlineText?])
  cases slot with
  | whole => rw [Slot.inline, textAt, toYaml, String.toList_ofList] <;> assumption
  | afterIndicator column => rw [Slot.inline, textAt, afterIndicator] <;> assumption
  | afterKey column => rw [Slot.inline, textAt, afterKey] <;> assumption

theorem serialize_yaml_number (x : Number) :
    (number x).serialize .yaml = Slot.inline fun _ => x.yamlText := by
  rw [serialize, Number.yamlText]
  cases x.toSmallInt? <;> rfl

-- A part is written by its place alone, so the places are general; the lists of a tree go with it.
mutual

theorem serialize_yaml : ∀ (n : Node) (slot : Slot), n.serialize .yaml slot = n.textAt slot
  | null, slot => @inline_eq_textAt null (fun _ => rfl) slot
  | boolean b, slot => @inline_eq_textAt (boolean b) (fun _ => rfl) slot
  | number x, slot => by
    rw [serialize_yaml_number]
    exact @inline_eq_textAt (number x) (fun _ => rfl) slot
  | string s, slot => @inline_eq_textAt (string s) (fun _ => rfl) slot
  | sequence items, slot => by
    have hitems := itemLines_serialize items
    rw [serialize]
    cases items with
    | nil => exact @inline_eq_textAt (sequence []) (fun _ => rfl) slot
    | cons item rest =>
      show Slot.block 0 (Slot.itemLines (serializeItems .yaml (item :: rest))) slot = _
      cases slot with
      | whole => rw [Slot.block, hitems, textAt, toYaml, String.toList_ofList]
      | afterIndicator column => rw [Slot.block, hitems, textAt, afterIndicator]
      | afterKey column => rw [Slot.block, hitems, textAt, afterKey, Nat.add_zero]
  | mapping entries, slot => by
    have hentries := entryLines_serialize entries
    rw [serialize]
    cases entries with
    | nil => exact @inline_eq_textAt (mapping []) (fun _ => rfl) slot
    | cons entry rest =>
      show Slot.block 2 (Slot.entryLines (serializeEntries .yaml (entry :: rest))) slot = _
      cases slot with
      | whole => rw [Slot.block, hentries, textAt, toYaml, String.toList_ofList]
      | afterIndicator column => rw [Slot.block, hentries, textAt, afterIndicator]
      | afterKey column => rw [Slot.block, hentries, textAt, afterKey]

theorem itemLines_serialize : ∀ (items : List Node) (column : Nat) (placed : Bool),
    Slot.itemLines (serializeItems .yaml items) column placed = itemsText column placed items
  | [], column, placed => rfl
  | item :: rest, column, placed => by
    rw [serializeItems, Slot.itemLines, itemsText, itemLines_serialize rest column false,
      serialize_yaml item]
    rfl

theorem entryLines_serialize : ∀ (entries : List (String × Node)) (column : Nat) (placed : Bool),
    Slot.entryLines (serializeEntries .yaml entries) column placed =
      entriesText column placed entries
  | [], column, placed => rfl
  | (key, value) :: rest, column, placed => by
    rw [serializeEntries, Slot.entryLines, entriesText, entryLines_serialize rest column false,
      serialize_yaml value, serialize_yaml value]
    rfl

end

theorem toYaml_eq_serialize (n : Node) : n.toYaml = String.ofList (n.serialize .yaml .whole) := by
  rw [serialize_yaml, textAt, String.ofList_toList]

end Node

/-! ## Documents of integers -/

/-- An integer of 64 bits, with a sign or without. -/
structure Integer64 where
  value : Int
  least_le : -(twoTo 63 : Int) ≤ value
  lt_bound : value < (twoTo 64 : Int)

theorem Integer64.natAbs_lt (i : Integer64) : i.value.natAbs < twoTo 64 := by
  have hlow := i.least_le
  have hhigh := i.lt_bound
  have hbounds : twoTo 63 < twoTo 64 := by decide
  omega

/-- What an integer is written as stands for it as a scalar of a document. -/
theorem Integer64.ofPlain_text (i : Integer64) :
    Yaml.Scalar.ofPlain (intText i.value) = .int i.value :=
  Yaml.Scalar.ofPlain_intText i.least_le i.lt_bound

/-- A document made of mappings with text keys, sequences and integers. -/
inductive IntegerTree where
  | integer (i : Integer64)
  | sequence (items : List IntegerTree)
  | mapping (entries : List (String × IntegerTree))

namespace IntegerTree

mutual

/-- A document of integers as it is read. -/
def value : IntegerTree → Yaml.Value
  | integer i => .int i.value
  | sequence items => .sequence (itemValues items)
  | mapping entries => .mapping (entryValues entries)

/-- The elements of a sequence as they are read. -/
def itemValues : List IntegerTree → List Yaml.Value
  | [] => []
  | item :: rest => value item :: itemValues rest

/-- The entries of a mapping as they are read. -/
def entryValues : List (String × IntegerTree) → List (Yaml.Value × Yaml.Value)
  | [] => []
  | (key, tree) :: rest => (.string key, value tree) :: entryValues rest

end

section Written

variable {α : Type} (S : Serializer α) (leaf : Integer64 → α)

mutual

/-- A document of integers in the forms of a serializer, with a form for its integers. -/
def written : IntegerTree → α
  | integer i => leaf i
  | sequence items => S.sequence (writtenItems items)
  | mapping entries => S.mapping (writtenEntries entries)

/-- The elements of a sequence in the forms of a serializer. -/
def writtenItems : List IntegerTree → List α
  | [] => []
  | item :: rest => written item :: writtenItems rest

/-- The entries of a mapping in the forms of a serializer. -/
def writtenEntries : List (String × IntegerTree) → List (String × α)
  | [] => []
  | (key, tree) :: rest => (key, written tree) :: writtenEntries rest

end

/-- The form that an integer of a document comes out in: the one for integers below 2^53 in size,
and else the one for floating point numbers. -/
def shown (i : Integer64) : α :=
  if i.value.natAbs < twoTo 53 then S.integer i.value else S.float (Number.ofInt i.value)

theorem serialize_ofInt (i : Integer64) :
    (Node.number (Number.ofInt i.value)).serialize S = shown S i := by
  rw [Node.serialize]
  rcases Nat.lt_or_ge i.value.natAbs (twoTo 53) with hsmall | hlarge
  · rw [Number.toSmallInt?_ofInt hsmall, shown, if_pos hsmall]
  · rw [Number.toSmallInt?_ofInt_of_le hlarge i.natAbs_lt, shown, if_neg (Nat.not_lt.2 hlarge)]

mutual

theorem serialize_value : ∀ t : IntegerTree,
    (Node.ofValue t.value).serialize S = t.written S (shown S)
  | integer i => serialize_ofInt S i
  | sequence items => congrArg S.sequence (serialize_itemValues items)
  | mapping entries => congrArg S.mapping (serialize_entryValues entries)

theorem serialize_itemValues : ∀ items : List IntegerTree,
    Node.serializeItems S (Node.itemsOfValues (itemValues items)) =
      writtenItems S (shown S) items
  | [] => rfl
  | item :: rest => by
    rw [itemValues, Node.itemsOfValues, Node.serializeItems, writtenItems, serialize_value item,
      serialize_itemValues rest]

theorem serialize_entryValues : ∀ entries : List (String × IntegerTree),
    Node.serializeEntries S (Node.entriesOfValues (entryValues entries)) =
      writtenEntries S (shown S) entries
  | [] => rfl
  | (key, tree) :: rest => by
    show (key, (Node.ofValue tree.value).serialize S) ::
      Node.serializeEntries S (Node.entriesOfValues (entryValues rest)) = _
    rw [writtenEntries, serialize_value tree, serialize_entryValues rest]

end

end Written

/-- **Integers below 2^53 in size are written again as they are**, each in its place and in order,
whatever the forms are that a tree is written in, and so in JSON and in YAML. All other integers of
64 bits are written as floating point numbers. These are finite, no number is nearer to the integer,
and both literals have a point or a power of ten. That the digits of an integer are read as it again
is `Integer64.ofPlain_text`. -/
theorem serialize_ofValue (t : IntegerTree) :
    (∀ (α : Type) (S : Serializer α),
      (Node.ofValue t.value).serialize S = t.written S (shown S)) ∧
    (Node.ofValue t.value).toJson = t.written .json (shown .json) ∧
    (Node.ofValue t.value).toYaml = String.ofList (t.written .yaml (shown .yaml) .whole) ∧
    ∀ i : Integer64, (Number.ofInt i.value).IsNearest i.value ∧
      Number.IsFloatLiteral ((Number.ofInt i.value).text .json) ∧
      Number.IsFloatLiteral ((Number.ofInt i.value).text .yaml) := by
  refine ⟨fun α S => serialize_value S t, ?_, ?_, ?_⟩
  · rw [Node.toJson_eq_serialize, serialize_value]
  · rw [Node.toYaml_eq_serialize, serialize_value]
  · intro i
    have hnearest := Number.isNearest_ofInt i.natAbs_lt
    have hfinite := hnearest.isFinite
    exact ⟨hnearest, Number.isFloatLiteral_text (by decide) hfinite,
      Number.isFloatLiteral_text (by decide) hfinite⟩

/-- A document whose integer is the least positive one that no number is. -/
def inexact : IntegerTree := mapping [("n", integer ⟨9007199254740993, by decide, by decide⟩)]

/-- The integer 2^53 + 1 is written as the number before it, with a point. -/
theorem serialize_inexact :
    (Node.ofValue inexact.value).toJson ≠
      inexact.written .json (fun i => Serializer.json.integer i.value) ∧
    (Node.ofValue inexact.value).toYaml ≠
      String.ofList (inexact.written .yaml (fun i => Serializer.yaml.integer i.value) .whole) ∧
    (Node.ofValue inexact.value).toYaml = "n: 9007199254740992.0\n" := by
  have hyaml : (Node.ofValue inexact.value).toYaml = "n: 9007199254740992.0\n" := by
    decide +kernel
  refine ⟨?_, ?_, hyaml⟩
  · intro hjson
    -- both are objects with one member, and a number's literal is no integer's
    have hmember : Json.number (Number.ofInt 9007199254740993).jsonText =
        .number (String.ofList (intText 9007199254740993)) := by
      injection hjson with hmembers
      injection hmembers with hentry _
      injection hentry
    injection hmember with htext
    rw [Number.jsonText, Number.toSmallInt?_ofInt_of_le (by decide) (by decide)] at htext
    have hfloat : Number.IsFloatLiteral ((Number.ofInt 9007199254740993).text .json) :=
      Number.isFloatLiteral_text (by decide) (by decide)
    rw [String.ofList_injective htext] at hfloat
    exact Number.not_isFloatLiteral_intText _ hfloat
  · rw [hyaml]
    decide +kernel

end IntegerTree

end ResourceGraph

import ResourceGraph.Yaml.ReadFault
import ResourceGraph.Yaml.Scalar

/-!
# Reading values

The value that a loaded document writes. Aliases are followed wherever they stand, collections nest
at most 128 deep, and a key may occur once in a mapping. What is read stops where loading stopped.

An application tag, one that begins with an exclamation mark, is kept around its value.
-/

set_option autoImplicit false

namespace ResourceGraph.Yaml

/-- The items still to be read, and how many aliases were followed. -/
structure Reading where
  rest : List Item
  jumps : Nat
  deriving Repr

/-- How deep collections may nest. -/
def depthLimit : Nat := 128

namespace Document

/-- The items of a document from its start. -/
def reading (d : Document) : Reading := ⟨d.items, 0⟩

/-- The next item, left in place. Where there is none, the document failed to load. -/
def peek (d : Document) (r : Reading) : Except ReadFault Item :=
  match r.rest with
  | item :: _ => .ok item
  | [] =>
    match d.fault with
    | some fault => .error (.load fault)
    | none => .error .endOfStream

/-- The next item, taken away. -/
def take (d : Document) (r : Reading) : Except ReadFault (Item × Reading) :=
  (d.peek r).map fun item => (item, { r with rest := r.rest.tail })

/-- Follows an alias to the item its anchor marks. A document may follow a hundred aliases for each
of its items. -/
def jump (d : Document) (anchor : Nat) (r : Reading) : Except ReadFault Reading :=
  if d.items.length * 100 < r.jumps + 1 then .error .tooManyAliases
  else match d.target? anchor with
    | some target => .ok ⟨target, r.jumps + 1⟩
    | none => .error .endOfStream

/-- Reads something else at the target of an alias, and goes on after the alias. -/
def through {α : Type} (d : Document) (anchor : Nat) (r : Reading)
    (read : Reading → Except ReadFault (α × Reading)) : Except ReadFault (α × Reading) := do
  let target ← d.jump anchor r
  let (a, after) ← read target
  return (a, ⟨r.rest, after.jumps⟩)

end Document

/-! ## Scalars -/

/-- The octets of a tag of the YAML core types. -/
def coreTag (name : List Char) : Octets := octetsOf ("tag:yaml.org,2002:".toList ++ name)

/-- The name of an application tag, if a tag is one and its octets are text. -/
def applicationTag? : Option Octets → Option Octets
  | some (0x21 :: rest) =>
    let name := if rest.isEmpty then [0x21] else rest
    if (ByteArray.mk (name.map UInt8.ofNat).toArray).validateUTF8 then some name else none
  | _ => none

/-- What a scalar stands for, read as plain text. -/
def Scalar.found (cs : List Char) : Found :=
  match Scalar.ofPlain cs with
  | .null => .unit
  | .bool b => .bool b
  | .int i => .int i
  | .wide i => .wide i
  | .float x => .float x
  | .text => .string cs

/-- What a scalar stands for under its tag and in its style. -/
def scalarFound (tag : Option Octets) (cs : List Char) (style : ScalarStyle) :
    Except Complaint Found :=
  let untyped := if style == .plain then Scalar.found cs else .string cs
  match tag with
  | none => .ok untyped
  | some t =>
    let wrong := fun expected => Except.error (Complaint.wrongValue (.string cs) expected)
    if t == coreTag ['b', 'o', 'o', 'l'] then
      match Scalar.bool? cs with
      | some b => .ok (.bool b)
      | none => wrong .boolean
    else if t == coreTag ['i', 'n', 't'] then
      match Scalar.integer? cs with
      | some (.int i) => .ok (.int i)
      | some (.wide i) => .ok (.wide i)
      | _ => wrong .integer
    else if t == coreTag ['f', 'l', 'o', 'a', 't'] then
      match Scalar.float? cs with
      | some x => .ok (.float x)
      | none => wrong .float
    else if t == coreTag ['n', 'u', 'l', 'l'] then
      if Scalar.isNullWord cs then .ok .unit else wrong .null
    else if t.head? == some 0x21 then .ok untyped
    else .ok (.string cs)

/-- The value of a scalar; integers outside the 64-bit ranges are refused. -/
def Found.value : Found → Except Complaint Value
  | .unit => .ok .null
  | .bool b => .ok (.bool b)
  | .int i => .ok (.int i)
  | .float x => .ok (.float x)
  | .string cs => .ok (.string (String.ofList cs))
  | other => .error (.wrongType other .anyValue)

/-- The value of a scalar under its tag and in its style. -/
def scalarValue (tag : Option Octets) (cs : List Char) (style : ScalarStyle) :
    Except Complaint Value := do (← scalarFound tag cs style).value

/-! ## Values -/

/-- A value under an application tag, if there is one. -/
def underTag (tag : Option Octets) (value : Value) : Value :=
  match tag with
  | some name => .tagged name value
  | none => value

/-- The text of a key that is a scalar. -/
def ItemKind.scalarText? : ItemKind → Option (List Char)
  | .scalar _ text _ => some text
  | _ => none

/-- The place of the value after a key in a mapping. -/
def Place.atValue (place : Place) (key : ItemKind) : Place :=
  match key.scalarText? with
  | some text => .entry place text
  | none => .unnamed place

mutual

/-- Reads the value at the next item, with collections nested at most `depth` deep. The first
argument bounds the recursion. -/
def readValue (d : Document) : Nat → Nat → Place → Reading → Except ReadFault (Value × Reading)
  | 0, _, _, _ => .error .endOfStream
  | n + 1, depth, place, r => do
    let (item, r) ← d.take r
    match item.kind with
    | .aliasOf anchor => d.through anchor r (readValue d n depth (.aliased place))
    | .scalar tag text style =>
      let outer := applicationTag? tag
      let own := if outer.isSome then none else tag
      match scalarValue own text style with
      | .ok value => return (underTag outer value, r)
      | .error complaint => .error (.content complaint item.mark place)
    | .sequenceStart tag =>
      match depth with
      | 0 => .error (.tooDeep item.mark)
      | depth + 1 => do
        let (items, r) ← readItems d n depth place 0 [] r
        return (underTag (applicationTag? tag) (.sequence items), r)
    | .mappingStart tag =>
      match depth with
      | 0 => .error (.tooDeep item.mark)
      | depth + 1 => do
        let (entries, r) ← readEntries d n depth place item.mark [] r
        return (underTag (applicationTag? tag) (.mapping entries), r)
    | .absent => return (.null, r)
    | .sequenceEnd => .error .endOfStream
    | .mappingEnd => .error .endOfStream

/-- Reads the elements of a sequence from the given index on, after the given ones in reverse
order. -/
def readItems (d : Document) :
    Nat → Nat → Place → Nat → List Value → Reading → Except ReadFault (List Value × Reading)
  | 0, _, _, _, _, _ => .error .endOfStream
  | n + 1, depth, place, index, done, r => do
    let item ← d.peek r
    match item.kind with
    | .sequenceEnd => return (done.reverse, { r with rest := r.rest.tail })
    | _ =>
      let (value, r) ← readValue d n depth (.item place index) r
      readItems d n depth place (index + 1) (value :: done) r

/-- Reads the entries of a mapping that starts at a mark, after the given ones in reverse order. -/
def readEntries (d : Document) :
    Nat → Nat → Place → Mark → List (Value × Value) → Reading →
      Except ReadFault (List (Value × Value) × Reading)
  | 0, _, _, _, _, _ => .error .endOfStream
  | n + 1, depth, place, mark, done, r => do
    let item ← d.peek r
    match item.kind with
    | .mappingEnd => return (done.reverse, { r with rest := r.rest.tail })
    | _ =>
      let (key, r) ← readValue d n depth place r
      match done.find? fun entry => entry.1.same key with
      | some entry => .error (.content (.duplicateKey entry.1) mark place)
      | none =>
        let (value, r) ← readValue d n depth (place.atValue item.kind) r
        readEntries d n depth place mark ((key, value) :: done) r

end

namespace Document

/-- A bound on the recursion of reading: at each depth it goes along the items at most once. -/
def recursionBound (d : Document) : Nat := (depthLimit + 2) * (d.items.length + 4)

/-- The value that a document writes. -/
def value (d : Document) (r : Reading) : Except ReadFault (Value × Reading) :=
  readValue d d.recursionBound depthLimit .root r

/-- Reads something from the only document of a text. A fault of reading comes before one of
loading, and both before that of a further document. -/
def readText {α : Type} (read : Document → Reading → Except ReadFault (α × Reading))
    (text : List Char) : Except ReadFault α := do
  let (d, after) := load text
  let (a, _) ← read d d.reading
  match d.fault with
  | some fault => .error (.load fault)
  | none => if isFollowed after then .error .severalDocuments else .ok a

end Document

/-- The value that a YAML text writes. -/
def Value.ofText (text : List Char) : Except ReadFault Value :=
  Document.readText Document.value text

end ResourceGraph.Yaml

import ResourceGraph.Yaml.Event

/-!
# Loaded documents

The nodes of the first document of a stream as one list of items, with every alias bound to the item
its anchor marks. Loading stops at the first fault, and keeps the items read before it: what is
built from them may fail earlier and for a reason of its own.
-/

set_option autoImplicit false

namespace ResourceGraph.Yaml

/-- Why loading stopped. -/
inductive LoadFault where
  /-- A fault of syntax. -/
  | syntactic (fault : Fault)
  /-- An alias without an anchor before it. -/
  | unknownAnchor (mark : Mark)
  deriving DecidableEq, Repr

/-- What an item of a document is. -/
inductive ItemKind where
  /-- An alias, by the number of its anchor. -/
  | aliasOf (anchor : Nat)
  | scalar (tag : Option Octets) (text : List Char) (style : ScalarStyle)
  | sequenceStart (tag : Option Octets)
  | sequenceEnd
  | mappingStart (tag : Option Octets)
  | mappingEnd
  /-- The one item of a stream without a document. -/
  | absent
  deriving DecidableEq, Repr

/-- An item of a document and the mark where it starts. -/
structure Item where
  kind : ItemKind
  mark : Mark
  deriving Repr

/-- The items of a document in reverse order while they are read, and its anchors: the number that a
name stands for, and the place of the item that a number marks. -/
structure Loading where
  items : List Item
  names : List (List Char × Nat)
  places : List (Nat × Nat)
  deriving Repr

/-- A document as loaded: its items, the places that anchors mark, and why loading stopped. -/
structure Document where
  items : List Item
  places : List (Nat × Nat)
  fault : Option LoadFault
  deriving Repr

namespace Loading

/-- Nothing read yet. -/
def start : Loading := ⟨[], [], []⟩

/-- The names with one bound to a number, each name bound once. -/
def bind (name : List Char) (number : Nat) (names : List (List Char × Nat)) :
    List (List Char × Nat) :=
  (name, number) :: names.filter fun entry => entry.1 != name

/-- Gives an anchor the number of names so far. A name that is used again takes a new number, which
may belong to another name already: the later place counts for both. -/
def mark (l : Loading) : Option (List Char) → Loading
  | none => l
  | some name =>
    let number := l.names.length
    { l with
      names := bind name number l.names
      places := (number, l.items.length) :: l.places }

/-- Adds an item. -/
def add (l : Loading) (kind : ItemKind) (m : Mark) : Loading :=
  { l with items := ⟨kind, m⟩ :: l.items }

/-- The loaded document. -/
def finish (l : Loading) (fault : Option LoadFault) : Document := ⟨l.items.reverse, l.places, fault⟩

end Loading

/-- Reads at most `n` events into a document, up to its end. -/
def loadUpTo : Nat → Loading → EventSource → Document × Option EventSource
  | 0, l, _ => (l.finish none, none)
  | n + 1, l, s =>
    match s.step with
    | .error fault => (l.finish (some (.syntactic fault)), none)
    | .ok (none, _) => (l.finish none, none)
    | .ok (some e, s) =>
      match e.kind with
      | .streamStart => loadUpTo n l s
      | .documentStart => loadUpTo n l s
      | .documentEnd => (l.finish none, some s)
      | .streamEnd => ((l.add .absent e.mark).finish none, none)
      | .aliasOf name =>
        match l.names.lookup name with
        | some anchor => loadUpTo n (l.add (.aliasOf anchor) e.mark) s
        | none => (l.finish (some (.unknownAnchor e.mark)), none)
      | .scalar props text style =>
        loadUpTo n ((l.mark props.anchor).add (.scalar props.tag text style) e.mark) s
      | .sequenceStart props =>
        loadUpTo n ((l.mark props.anchor).add (.sequenceStart props.tag) e.mark) s
      | .mappingStart props =>
        loadUpTo n ((l.mark props.anchor).add (.mappingStart props.tag) e.mark) s
      | .sequenceEnd => loadUpTo n (l.add .sequenceEnd e.mark) s
      | .mappingEnd => loadUpTo n (l.add .mappingEnd e.mark) s

namespace Document

/-- Loads the first document of a text, with the source of the events after it. A character of the
text makes no more than four tokens, and a token no more than two events. -/
def load (text : List Char) : Document × Option EventSource :=
  loadUpTo (8 * text.length + 16) Loading.start (EventSource.start text)

/-- Whether a further document, or a fault, follows a loaded one. -/
def isFollowed : Option EventSource → Bool
  | none => false
  | some s =>
    match s.step with
    | .ok (some ⟨.streamEnd, _⟩, _) => false
    | _ => true

/-- The items from the one that an anchor marks. -/
def target? (d : Document) (anchor : Nat) : Option (List Item) :=
  (d.places.lookup anchor).map fun place => d.items.drop place

end Document

end ResourceGraph.Yaml

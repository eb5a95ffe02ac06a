import ResourceGraph.Yaml.Token.Queue

/-!
# Events

The structure of a YAML stream as a sequence of events: where streams, documents and collections
start and end, and the scalars and aliases between. An empty node is an empty plain scalar.
`EventSource` gives one event after the other; what it expects next is a stack of expectations.
-/

set_option autoImplicit false

namespace ResourceGraph.Yaml

/-- The anchor and the tag of a node, where it has them. -/
structure Properties where
  anchor : Option (List Char)
  tag : Option Octets
  deriving DecidableEq, Repr

namespace Properties

/-- Neither anchor nor tag. -/
def none : Properties := ⟨.none, .none⟩

end Properties

/-- What an event is. -/
inductive EventKind where
  | streamStart
  | streamEnd
  | documentStart
  | documentEnd
  | aliasOf (name : List Char)
  | scalar (props : Properties) (text : List Char) (style : ScalarStyle)
  | sequenceStart (props : Properties)
  | sequenceEnd
  | mappingStart (props : Properties)
  | mappingEnd
  deriving DecidableEq, Repr

/-- An event and the mark where it starts. -/
structure Event where
  kind : EventKind
  mark : Mark
  deriving Repr

/-- What is expected next. -/
inductive Expectation where
  | streamStart
  | implicitDocument
  | document
  | documentContent
  | documentEnd
  | blockNode
  | blockSequenceFirst
  | blockSequenceEntry
  | indentlessEntry
  | blockMappingFirst
  | blockMappingKey
  | blockMappingValue
  | flowSequenceFirst
  | flowSequenceEntry
  | flowPairKey
  | flowPairValue
  | flowPairEnd
  | flowMappingFirst
  | flowMappingKey
  | flowMappingValue
  | flowMappingEmptyValue
  | nothing
  deriving DecidableEq, Repr

/-- A source of events: the tokens, what is expected next and after that, where the open collections
began, and the tag handles of the document. -/
structure EventSource where
  queue : TokenQueue
  next : Expectation
  afterwards : List Expectation
  opened : List Mark
  handles : List (Octets × Octets)
  deriving Repr

/-- The result of reading an event. -/
abbrev EventStep := Except Fault (Event × EventSource)

namespace EventSource

/-- The source of a text's events. -/
def start (text : List Char) : EventSource := ⟨TokenQueue.start text, .streamStart, [], [], []⟩

/-- The next token, left in the queue. -/
def peek (s : EventSource) : Except Fault (Token × EventSource) := do
  let q ← s.queue.fill
  match q.tokens with
  | t :: _ => return (t, { s with queue := q })
  | [] => .error (.bare .endOfStream q.mark)

/-- The source after the next token. -/
def drop (s : EventSource) : EventSource := { s with queue := s.queue.drop }

/-- The source with something else expected next. -/
def expect (s : EventSource) (e : Expectation) : EventSource := { s with next := e }

/-- The source with something to expect after the node to come. -/
def later (s : EventSource) (e : Expectation) : EventSource :=
  { s with afterwards := e :: s.afterwards }

/-- The source that goes back to what was to be expected afterwards. -/
def resume (s : EventSource) : EventSource :=
  match s.afterwards with
  | [] => s.expect .nothing
  | e :: rest => { s with next := e, afterwards := rest }

/-- The source in a collection that opened at a mark. -/
def enter (s : EventSource) (m : Mark) : EventSource := { s with opened := m :: s.opened }

/-- The source after the innermost collection. -/
def leave (s : EventSource) : EventSource := { s.resume with opened := s.opened.tail }

/-- The mark where the innermost collection opened. -/
def openMark (s : EventSource) : Mark := s.opened.headD Mark.origin

/-- Gives an event. -/
def give (s : EventSource) (kind : EventKind) (m : Mark) : EventStep := .ok (⟨kind, m⟩, s)

/-- Gives the scalar of an empty node. -/
def giveEmpty (s : EventSource) (m : Mark) : EventStep := s.give (.scalar .none [] .plain) m

/-! ## Documents -/

/-- The handles that every document has. -/
def defaultHandles : List (Octets × Octets) :=
  [(octetsOf ['!'], octetsOf ['!']),
    (octetsOf ['!', '!'], octetsOf "tag:yaml.org,2002:".toList)]

/-- Reads at most `n` directives before a document. -/
def readDirectives : Nat → Bool → EventSource → Except Fault EventSource
  | 0, _, s => .ok s
  | n + 1, versioned, s => do
    let (t, s) ← s.peek
    match t.kind with
    | .version major minor =>
      if versioned then .error (.bare .duplicateVersion t.start)
      else if major != 1 || (minor != 1 && minor != 2) then
        .error (.bare .incompatibleVersion t.start)
      else readDirectives n true s.drop
    | .tagHandle handle target =>
      if s.handles.any fun h => h.1 == handle then .error (.bare .duplicateTagHandle t.start)
      else readDirectives n versioned { s.drop with handles := s.handles ++ [(handle, target)] }
    | _ => .ok { s with handles := s.handles ++ defaultHandles }

/-- Reads the directives before a document. -/
def directives (s : EventSource) : Except Fault EventSource :=
  readDirectives s.queue.size false { s with handles := [] }

/-- Reads past at most `n` document end indicators. -/
def skipDocumentEnds : Nat → EventSource → Except Fault EventSource
  | 0, s => .ok s
  | n + 1, s => do
    let (t, s) ← s.peek
    if t.kind == .documentEnd then skipDocumentEnds n s.drop else return s

/-- Whether a token begins a document that is marked as one, or ends the stream. -/
def startsDocument : TokenKind → Bool
  | .version _ _ => true
  | .tagHandle _ _ => true
  | .documentStart => true
  | .streamEnd => true
  | _ => false

/-- The start of a document or the end of the stream. Only the first document needs no indicator. -/
def readDocumentStart (implicit : Bool) (s : EventSource) : EventStep := do
  let s ← if implicit then .ok s else skipDocumentEnds s.queue.size s
  let (t, s) ← s.peek
  if implicit && !startsDocument t.kind then
    let s ← s.directives
    ((s.later .documentEnd).expect .blockNode).give .documentStart t.start
  else if t.kind == .streamEnd then (s.expect .nothing).drop.give .streamEnd t.start
  else
    let s ← s.directives
    let (indicator, s) ← s.peek
    if indicator.kind == .documentStart then
      ((s.later .documentEnd).expect .documentContent).drop.give .documentStart t.start
    else .error (.bare .missingDocumentStart indicator.start)

/-- The end of a document, with or without an indicator. -/
def readDocumentEnd (s : EventSource) : EventStep := do
  let (t, s) ← s.peek
  let s := if t.kind == .documentEnd then s.drop else s
  (s.expect .document).give .documentEnd t.start

/-! ## Nodes -/

/-- A tag as written in a node: its handle, its suffix, and where it stands. -/
structure WrittenTag where
  handle : Octets
  suffix : Octets
  mark : Mark

/-- Reads an anchor if one follows. -/
def readAnchor (s : EventSource) : Except Fault (Option (List Char) × EventSource) := do
  let (t, s) ← s.peek
  match t.kind with
  | .anchor name => return (some name, s.drop)
  | _ => return (none, s)

/-- Reads a tag if one follows. -/
def readTag (s : EventSource) : Except Fault (Option WrittenTag × EventSource) := do
  let (t, s) ← s.peek
  match t.kind with
  | .tag handle suffix => return (some ⟨handle, suffix, t.start⟩, s.drop)
  | _ => return (none, s)

/-- Reads an anchor and a tag, in either order. -/
def readProperties (s : EventSource) :
    Except Fault (Option (List Char) × Option WrittenTag × EventSource) := do
  let (anchor, s) ← s.readAnchor
  let (tag, s) ← s.readTag
  match anchor, tag with
  | none, some tag =>
    let (anchor, s) ← s.readAnchor
    return (anchor, some tag, s)
  | _, _ => return (anchor, tag, s)

/-- The whole tag that a written one stands for, in a node that starts at a mark. -/
def resolveTag (s : EventSource) (start : Mark) : Option WrittenTag → Except Fault (Option Octets)
  | none => .ok none
  | some t =>
    if t.handle.isEmpty then .ok (some t.suffix)
    else match s.handles.lookup t.handle with
      | some target => .ok (some (target ++ t.suffix))
      | none => .error (.within .node start .undefinedTagHandle t.mark)

/-- Reads a node. Block collections may stand where `block` holds; a list at the indentation of its
key may where `indentless` does. -/
def readNode (block indentless : Bool) (s : EventSource) : EventStep := do
  let (first, s) ← s.peek
  match first.kind with
  | .aliasOf name => s.resume.drop.give (.aliasOf name) first.start
  | _ =>
    let start := first.start
    let (anchor, written, s) ← s.readProperties
    let (t, s) ← s.peek
    let tag ← s.resolveTag start written
    let props : Properties := ⟨anchor, tag⟩
    match t.kind with
    | .blockEntry =>
      if indentless then (s.expect .indentlessEntry).give (.sequenceStart props) start
      else emptyOrFault props start t s
    | .scalar text style =>
      s.resume.drop.give (.scalar props text style) start
    | .flowSequenceStart => (s.expect .flowSequenceFirst).give (.sequenceStart props) start
    | .flowMappingStart => (s.expect .flowMappingFirst).give (.mappingStart props) start
    | .blockSequenceStart =>
      if block then (s.expect .blockSequenceFirst).give (.sequenceStart props) start
      else emptyOrFault props start t s
    | .blockMappingStart =>
      if block then (s.expect .blockMappingFirst).give (.mappingStart props) start
      else emptyOrFault props start t s
    | _ => emptyOrFault props start t s
where
  /-- A node without content is empty if it has an anchor or a tag, and a fault otherwise. -/
  emptyOrFault (props : Properties) (start : Mark) (t : Token) (s : EventSource) : EventStep :=
    if props.anchor.isSome || props.tag.isSome then s.resume.give (.scalar props [] .plain) start
    else .error (.within (if block then .blockNode else .flowNode) start .missingNode t.start)

/-- The content of a document that is marked as one, which may be empty. -/
def readDocumentContent (s : EventSource) : EventStep := do
  let (t, s) ← s.peek
  if startsDocument t.kind || t.kind == .documentEnd then s.resume.giveEmpty t.start
  else s.readNode true false

/-! ## Block collections -/

/-- An item of a block list, or its end. -/
def readBlockSequenceEntry (s : EventSource) : EventStep := do
  let (t, s) ← s.peek
  match t.kind with
  | .blockEntry =>
    let (item, s) ← s.drop.peek
    if item.kind == .blockEntry || item.kind == .blockEnd then
      (s.expect .blockSequenceEntry).giveEmpty t.afterIndicator
    else (s.later .blockSequenceEntry).readNode true false
  | .blockEnd => s.leave.drop.give .sequenceEnd t.start
  | _ => .error (.within .blockCollection s.openMark .missingSequenceEntry t.start)

/-- An item of a list at the indentation of its key, or its end. -/
def readIndentlessEntry (s : EventSource) : EventStep := do
  let (t, s) ← s.peek
  if t.kind == .blockEntry then
    let (item, s) ← s.drop.peek
    if [.blockEntry, .key, .value, .blockEnd].contains item.kind then
      (s.expect .indentlessEntry).giveEmpty t.afterIndicator
    else (s.later .indentlessEntry).readNode true false
  else s.resume.give .sequenceEnd t.start

/-- A key of a block mapping, or its end. -/
def readBlockMappingKey (s : EventSource) : EventStep := do
  let (t, s) ← s.peek
  match t.kind with
  | .key =>
    let (key, s) ← s.drop.peek
    if [.key, .value, .blockEnd].contains key.kind then
      (s.expect .blockMappingValue).giveEmpty t.afterIndicator
    else (s.later .blockMappingValue).readNode true true
  | .blockEnd => s.leave.drop.give .mappingEnd t.start
  | _ => .error (.within .blockMapping s.openMark .missingMappingKey t.start)

/-- A value of a block mapping. -/
def readBlockMappingValue (s : EventSource) : EventStep := do
  let (t, s) ← s.peek
  if t.kind == .value then
    let (value, s) ← s.drop.peek
    if [.key, .value, .blockEnd].contains value.kind then
      (s.expect .blockMappingKey).giveEmpty t.afterIndicator
    else (s.later .blockMappingKey).readNode true true
  else (s.expect .blockMappingKey).giveEmpty t.start

/-! ## Collections in brackets -/

/-- An element of a list in brackets, or its end. A key indicator makes a mapping of one entry. -/
def readFlowSequenceEntry (isFirst : Bool) (s : EventSource) : EventStep := do
  let (t, s) ← s.peek
  let (t, s) ←
    if isFirst || t.kind == .flowSequenceEnd then .ok (t, s)
    else if t.kind == .flowEntry then s.drop.peek
    else .error (.within .flowSequence s.openMark .missingSequenceSeparator t.start)
  match t.kind with
  | .flowSequenceEnd => s.leave.drop.give .sequenceEnd t.start
  | .key => (s.expect .flowPairKey).drop.give (.mappingStart .none) t.start
  | _ => (s.later .flowSequenceEntry).readNode false false

/-- The key of a mapping of one entry in a list. -/
def readFlowPairKey (s : EventSource) : EventStep := do
  let (t, s) ← s.peek
  if [.value, .flowEntry, .flowSequenceEnd].contains t.kind then
    (s.expect .flowPairValue).drop.giveEmpty t.afterIndicator
  else (s.later .flowPairValue).readNode false false

/-- The value of a mapping of one entry in a list. -/
def readFlowPairValue (s : EventSource) : EventStep := do
  let (t, s) ← s.peek
  if t.kind == .value then
    let (value, s) ← s.drop.peek
    if [.flowEntry, .flowSequenceEnd].contains value.kind then
      (s.expect .flowPairEnd).giveEmpty value.start
    else (s.later .flowPairEnd).readNode false false
  else (s.expect .flowPairEnd).giveEmpty t.start

/-- The end of a mapping of one entry in a list. -/
def readFlowPairEnd (s : EventSource) : EventStep := do
  let (t, s) ← s.peek
  (s.expect .flowSequenceEntry).give .mappingEnd t.start

/-- A key of a mapping in brackets, or its end. -/
def readFlowMappingKey (isFirst : Bool) (s : EventSource) : EventStep := do
  let (t, s) ← s.peek
  let (t, s) ←
    if isFirst || t.kind == .flowMappingEnd then .ok (t, s)
    else if t.kind == .flowEntry then s.drop.peek
    else .error (.within .flowMapping s.openMark .missingMappingSeparator t.start)
  match t.kind with
  | .flowMappingEnd => s.leave.drop.give .mappingEnd t.start
  | .key =>
    let (key, s) ← s.drop.peek
    if [.value, .flowEntry, .flowMappingEnd].contains key.kind then
      (s.expect .flowMappingValue).giveEmpty key.start
    else (s.later .flowMappingValue).readNode false false
  | _ => (s.later .flowMappingEmptyValue).readNode false false

/-- A value of a mapping in brackets. -/
def readFlowMappingValue (isEmpty : Bool) (s : EventSource) : EventStep := do
  let (t, s) ← s.peek
  if isEmpty || t.kind != .value then (s.expect .flowMappingKey).giveEmpty t.start
  else
    let (value, s) ← s.drop.peek
    if [.flowEntry, .flowMappingEnd].contains value.kind then
      (s.expect .flowMappingKey).giveEmpty value.start
    else (s.later .flowMappingKey).readNode false false

/-- The source inside the collection that the next token opens. -/
def openCollection (s : EventSource) : Except Fault EventSource := do
  let (t, s) ← s.peek
  return (s.enter t.start).drop

/-- Reads the next event; there is none after the end of the stream. -/
def step (s : EventSource) : Except Fault (Option Event × EventSource) :=
  let some := fun (r : EventStep) => r.map fun (e, s) => (Option.some e, s)
  match s.next with
  | .streamStart => some do
    let (t, s) ← s.peek
    (s.expect .implicitDocument).drop.give .streamStart t.start
  | .implicitDocument => some (s.readDocumentStart true)
  | .document => some (s.readDocumentStart false)
  | .documentContent => some s.readDocumentContent
  | .documentEnd => some s.readDocumentEnd
  | .blockNode => some (s.readNode true false)
  | .blockSequenceFirst => some do readBlockSequenceEntry (← s.openCollection)
  | .blockSequenceEntry => some s.readBlockSequenceEntry
  | .indentlessEntry => some s.readIndentlessEntry
  | .blockMappingFirst => some do readBlockMappingKey (← s.openCollection)
  | .blockMappingKey => some s.readBlockMappingKey
  | .blockMappingValue => some s.readBlockMappingValue
  | .flowSequenceFirst => some do readFlowSequenceEntry true (← s.openCollection)
  | .flowSequenceEntry => some (s.readFlowSequenceEntry false)
  | .flowPairKey => some s.readFlowPairKey
  | .flowPairValue => some s.readFlowPairValue
  | .flowPairEnd => some s.readFlowPairEnd
  | .flowMappingFirst => some do readFlowMappingKey true (← s.openCollection)
  | .flowMappingKey => some (s.readFlowMappingKey false)
  | .flowMappingValue => some (s.readFlowMappingValue false)
  | .flowMappingEmptyValue => some (s.readFlowMappingValue true)
  | .nothing => .ok (none, s)

end EventSource

end ResourceGraph.Yaml

import ResourceGraph.Yaml.Token.Plain
import ResourceGraph.Yaml.Token.Quoted
import ResourceGraph.Yaml.Token.Block
import ResourceGraph.Yaml.Token.Property
import ResourceGraph.Yaml.Intake

/-!
# The token queue

Tokens are read one by one into a queue. A scalar or a collection in brackets may turn out to be a
mapping key only when a colon follows; until then its place in the queue is remembered, and the key
token is put in there later. A key without an indicator must stay on one line and within 1024
bytes.

The queue is filled no further than its first token needs, so that a fault of scanning and a fault
of structure are met in the order of the text. Indentation opens and closes block collections.
-/

set_option autoImplicit false

namespace ResourceGraph.Yaml

/-- A place in the token stream that may turn out to begin a key. -/
structure KeyCandidate where
  /-- Whether nothing but a key may stand here. -/
  required : Bool
  /-- The number of the token, counted from the start of the stream. -/
  number : Nat
  mark : Mark
  deriving Repr

/-- The tokens read and not yet taken, and all that reading the next one depends on. -/
structure TokenQueue where
  cursor : Cursor
  /-- Whether the token that starts the stream was read. -/
  started : Bool
  tokens : List Token
  /-- The number of tokens taken. -/
  taken : Nat
  /-- The column of the innermost block collection, -1 outside of any. -/
  indent : Int
  /-- The columns of the block collections around it. -/
  outerIndents : List Int
  /-- The key candidate of the innermost bracket, or of the block where there is none. -/
  candidate : Option KeyCandidate
  /-- The key candidates around the innermost bracket, one for each bracket that is open. -/
  outerCandidates : List (Option KeyCandidate)
  /-- Whether a key without an indicator may begin here. -/
  keyAllowed : Bool
  /-- The character that spoils the text, if there is one. -/
  refusal : Option Refusal
  deriving Repr

namespace TokenQueue

/-- The queue before the first token of a text. -/
def start (text : List Char) : TokenQueue where
  cursor := Cursor.start text
  started := false
  tokens := []
  taken := 0
  indent := -1
  outerIndents := []
  candidate := none
  outerCandidates := []
  keyAllowed := true
  refusal := Refusal.find? 0 0 text

/-- The place of the next token to read. -/
def mark (q : TokenQueue) : Mark := q.cursor.mark

/-- Whether some bracket is open. -/
def inFlow (q : TokenQueue) : Bool := !q.outerCandidates.isEmpty

/-- Adds a token at the end. -/
def push (q : TokenQueue) (kind : TokenKind) (start : Mark) : TokenQueue :=
  { q with tokens := q.tokens ++ [⟨kind, start⟩] }

/-- Puts a token before the one with a number. -/
def insertAt (q : TokenQueue) (number : Nat) (kind : TokenKind) (start : Mark) : TokenQueue :=
  let i := number - q.taken
  { q with tokens := q.tokens.take i ++ ⟨kind, start⟩ :: q.tokens.drop i }

/-- Moves the cursor. -/
def moveTo (q : TokenQueue) (k : Cursor) : TokenQueue := { q with cursor := k }

/-! ## Key candidates -/

/-- The fault of a required key that has no colon. -/
def missingColon (q : TokenQueue) (c : KeyCandidate) : Fault :=
  .within .simpleKey c.mark .missingColon q.mark

/-- Whether the cursor has moved too far from a candidate. -/
def isStale (q : TokenQueue) (c : KeyCandidate) : Bool :=
  c.mark.line < q.mark.line || c.mark.offset + 1024 < q.mark.offset

/-- A candidate unless it is stale; a required one must not be. -/
def checkStale (q : TokenQueue) : Option KeyCandidate → Except Fault (Option KeyCandidate)
  | none => .ok none
  | some c =>
    if q.isStale c then
      if c.required then .error (q.missingColon c) else .ok none
    else .ok (some c)

/-- Candidates without the stale ones, from the outermost in. -/
def checkOuter (q : TokenQueue) :
    List (Option KeyCandidate) → Except Fault (List (Option KeyCandidate))
  | [] => .ok []
  | c :: outer => do
    let outer ← checkOuter q outer
    let c ← q.checkStale c
    return c :: outer

/-- Gives up all stale candidates. -/
def dropStale (q : TokenQueue) : Except Fault TokenQueue := do
  let outer ← q.checkOuter q.outerCandidates
  let c ← q.checkStale q.candidate
  return { q with candidate := c, outerCandidates := outer }

/-- Gives up the innermost candidate, which must not be required. -/
def dropCandidate (q : TokenQueue) : Except Fault TokenQueue :=
  match q.candidate with
  | some c =>
    if c.required then .error (q.missingColon c) else .ok { q with candidate := none }
  | none => .ok q

/-- Remembers the next token as a candidate, where a key may begin. -/
def saveCandidate (q : TokenQueue) : Except Fault TokenQueue :=
  if q.keyAllowed then do
    let required := !q.inFlow && q.indent == (q.mark.column : Int)
    let q ← q.dropCandidate
    return { q with candidate := some ⟨required, q.taken + q.tokens.length, q.mark⟩ }
  else .ok q

/-- Whether the first token of the queue may still turn out to begin a key. -/
def headIsCandidate (q : TokenQueue) : Bool :=
  (q.candidate :: q.outerCandidates).any fun c => c.any fun c => c.number == q.taken

/-! ## Indentation -/

/-- Opens a block collection at a column right of the current one; its token goes before the one
with the given number, or to the end. -/
def openBlock (q : TokenQueue) (column : Nat) (number : Option Nat) (kind : TokenKind)
    (start : Mark) : TokenQueue :=
  if !q.inFlow && q.indent < (column : Int) then
    let q := { q with indent := column, outerIndents := q.indent :: q.outerIndents }
    match number with
    | none => q.push kind start
    | some n => q.insertAt n kind start
  else q

/-- Closes the block collections right of a column, given the columns around the innermost one. -/
def closeBlocksTo (column : Int) : List Int → TokenQueue → TokenQueue
  | [], q => q
  | outer :: rest, q =>
    if column < q.indent then
      closeBlocksTo column rest
        { q.push .blockEnd q.mark with indent := outer, outerIndents := rest }
    else q

/-- Closes the block collections right of a column. -/
def closeBlocks (q : TokenQueue) (column : Int) : TokenQueue :=
  if q.inFlow then q else closeBlocksTo column q.outerIndents q

/-! ## Reading one token -/

/-- Reads past blanks, comments and line breaks, at most `n` of them. A line may begin with a byte
order mark. Outside brackets a line break lets a key begin, and tabs are passed over only where none
may. -/
def skipToToken : Nat → TokenQueue → TokenQueue
  | 0, q => q
  | n + 1, q =>
    let k := if q.mark.column == 0 && q.cursor.rest.head? == some '\ufeff' then q.cursor.forward 1
      else q.cursor
    let tabs := q.inFlow || !q.keyAllowed
    let k := (k.skipRun fun c => c == ' ' || (tabs && c == '\t')).skipComment
    match k.lineBreak? with
    | some (_, after) =>
      skipToToken n { q with cursor := after, keyAllowed := q.keyAllowed || !q.inFlow }
    | none => q.moveTo k

/-- Reads the end of the stream, on a line of its own. -/
def readStreamEnd (q : TokenQueue) : Except Fault TokenQueue := do
  let m := q.mark
  let m := if m.column == 0 then m else ⟨m.offset, m.line + 1, 0⟩
  let q := (q.moveTo ⟨q.cursor.rest, m⟩).closeBlocks (-1)
  let q ← q.dropCandidate
  return { q.push .streamEnd q.mark with keyAllowed := false }

/-- Reads a directive. -/
def readDirective (q : TokenQueue) : Except Fault TokenQueue := do
  let q ← (q.closeBlocks (-1)).dropCandidate
  let (kind, after) ← Property.directive q.cursor
  return { (q.push kind q.mark).moveTo after with keyAllowed := false }

/-- Reads an indicator of a document's start or end. -/
def readDocumentIndicator (q : TokenQueue) (kind : TokenKind) : Except Fault TokenQueue := do
  let q ← (q.closeBlocks (-1)).dropCandidate
  return { (q.push kind q.mark).moveTo (q.cursor.forward 3) with keyAllowed := false }

/-- Reads an opening bracket. -/
def readFlowStart (q : TokenQueue) (kind : TokenKind) : Except Fault TokenQueue := do
  let q ← q.saveCandidate
  return { (q.push kind q.mark).moveTo (q.cursor.forward 1) with
    candidate := none
    outerCandidates := q.candidate :: q.outerCandidates
    keyAllowed := true }

/-- Reads a closing bracket. -/
def readFlowEnd (q : TokenQueue) (kind : TokenKind) : Except Fault TokenQueue := do
  let q ← q.dropCandidate
  let q := { (q.push kind q.mark).moveTo (q.cursor.forward 1) with keyAllowed := false }
  match q.outerCandidates with
  | [] => return q
  | c :: outer => return { q with candidate := c, outerCandidates := outer }

/-- Reads the comma between entries in brackets. -/
def readFlowEntry (q : TokenQueue) : Except Fault TokenQueue := do
  let q ← q.dropCandidate
  return { (q.push .flowEntry q.mark).moveTo (q.cursor.forward 1) with keyAllowed := true }

/-- Reads the indicator of a list item. -/
def readBlockEntry (q : TokenQueue) : Except Fault TokenQueue :=
  if !q.inFlow && !q.keyAllowed then .error (.bare .misplacedSequenceEntry q.mark)
  else do
    let q ← (q.openBlock q.mark.column none .blockSequenceStart q.mark).dropCandidate
    return { (q.push .blockEntry q.mark).moveTo (q.cursor.forward 1) with keyAllowed := true }

/-- Reads the indicator of a key. -/
def readKey (q : TokenQueue) : Except Fault TokenQueue :=
  if !q.inFlow && !q.keyAllowed then .error (.bare .misplacedKey q.mark)
  else do
    let q ← (q.openBlock q.mark.column none .blockMappingStart q.mark).dropCandidate
    return { (q.push .key q.mark).moveTo (q.cursor.forward 1) with keyAllowed := !q.inFlow }

/-- Reads the indicator of a value, which makes a key of the candidate before it. -/
def readValue (q : TokenQueue) : Except Fault TokenQueue :=
  match q.candidate with
  | some c =>
    let q := (q.insertAt c.number .key c.mark).openBlock c.mark.column (some c.number)
      .blockMappingStart c.mark
    .ok { (q.push .value q.mark).moveTo (q.cursor.forward 1) with
      candidate := none
      keyAllowed := false }
  | none =>
    if !q.inFlow && !q.keyAllowed then .error (.bare .misplacedValue q.mark)
    else
      let q := q.openBlock q.mark.column none .blockMappingStart q.mark
      .ok { (q.push .value q.mark).moveTo (q.cursor.forward 1) with keyAllowed := !q.inFlow }

/-- Reads an anchor, an alias or a tag, which may begin a key. -/
def readProperty (q : TokenQueue) (scan : Cursor → Except Fault (TokenKind × Cursor)) :
    Except Fault TokenQueue := do
  let q ← q.saveCandidate
  let (kind, after) ← scan q.cursor
  return { (q.push kind q.mark).moveTo after with keyAllowed := false }

/-- Reads a block scalar, after which a key may begin. -/
def readBlockScalar (q : TokenQueue) (folded : Bool) : Except Fault TokenQueue := do
  let q ← q.dropCandidate
  let (text, after) ← q.cursor.block folded q.indent
  let kind := .scalar text (if folded then .folded else .literal)
  return { (q.push kind q.mark).moveTo after with keyAllowed := true }

/-- Reads a quoted scalar, which may begin a key. -/
def readQuotedScalar (q : TokenQueue) (single : Bool) : Except Fault TokenQueue :=
  q.readProperty fun k => do
    let (text, after) ← k.quoted single
    return (.scalar text (if single then .singleQuoted else .doubleQuoted), after)

/-- Reads a plain scalar, which may begin a key; a key may also follow it on a later line. -/
def readPlainScalar (q : TokenQueue) : Except Fault TokenQueue := do
  let q ← q.saveCandidate
  let scanned ← q.cursor.plain q.inFlow (q.indent + 1).toNat
  return { (q.push (.scalar scanned.text .plain) q.mark).moveTo scanned.after with
    keyAllowed := scanned.broken }

/-- Whether a plain scalar may begin with a character that the given text follows. -/
def startsPlain (inFlow : Bool) (c : Char) (after : List Char) : Bool :=
  let isIndicator := isSeparation c || isFlowIndicator c ||
    ['-', '?', ':', '#', '&', '*', '!', '|', '>', '\'', '"', '%', '@', '\x60'].contains c
  !isIndicator || (c == '-' && !after.head?.any isSpace) ||
    (!inFlow && (c == '?' || c == ':') && !startsSeparated after)

/-- Reads the token at the cursor. -/
def readToken (q : TokenQueue) : Except Fault TokenQueue :=
  match q.cursor.rest with
  | [] => q.readStreamEnd
  | c :: after =>
    let atLineStart := q.mark.column == 0
    let indicates := q.inFlow || startsSeparated after
    if atLineStart && c == '%' then q.readDirective
    else if q.cursor.atDocumentIndicator then
      q.readDocumentIndicator (if c == '-' then .documentStart else .documentEnd)
    else if c == '[' then q.readFlowStart .flowSequenceStart
    else if c == '\x7b' then q.readFlowStart .flowMappingStart
    else if c == ']' then q.readFlowEnd .flowSequenceEnd
    else if c == '\x7d' then q.readFlowEnd .flowMappingEnd
    else if c == ',' then q.readFlowEntry
    else if c == '-' && startsSeparated after then q.readBlockEntry
    else if c == '?' && indicates then q.readKey
    else if c == ':' && indicates then q.readValue
    else if c == '*' then
      q.readProperty fun k => (Property.name .aliasName k).map fun (n, k) => (.aliasOf n, k)
    else if c == '&' then
      q.readProperty fun k => (Property.name .anchorName k).map fun (n, k) => (.anchor n, k)
    else if c == '!' then q.readProperty (Property.tag q.inFlow)
    else if c == '|' && !q.inFlow then q.readBlockScalar false
    else if c == '>' && !q.inFlow then q.readBlockScalar true
    else if c == '\'' then q.readQuotedScalar true
    else if c == '"' then q.readQuotedScalar false
    else if startsPlain q.inFlow c after then q.readPlainScalar
    else .error (.within .anyToken q.mark .strayCharacter q.mark)

/-- The queue, unless the characters ahead of it, as many as given, reach into a refused block. -/
def guarded (q : TokenQueue) (ahead : Nat) : Except Fault TokenQueue :=
  match q.refusal.filter fun r => r.isReached ahead q.cursor with
  | some r => .error r.fault
  | none => .ok q

/-- Reads the token at the cursor, unless that goes into a refused block. -/
def readGuarded (q : TokenQueue) : Except Fault TokenQueue :=
  match q.readToken with
  | .ok after => after.guarded 0
  | .error fault =>
    match q.refusal.filter fun r => r.block ≤ fault.mark.offset with
    | some r => .error r.fault
    | none => .error fault

/-- Reads one more token. The four characters ahead tell what token it is. -/
def readNext (q : TokenQueue) : Except Fault TokenQueue :=
  if q.started then do
    let q ← (skipToToken (q.cursor.rest.length + 1) q).guarded 1
    let q ← q.dropStale
    let q ← (q.closeBlocks q.mark.column).guarded 4
    q.readGuarded
  else do
    let q ← q.guarded 1
    return { q.push .streamStart q.mark with started := true }

/-! ## Filling and taking -/

/-- Reads at most `n` tokens, until the first one in the queue is settled. -/
def fillUpTo : Nat → TokenQueue → Except Fault TokenQueue
  | 0, q => .ok q
  | n + 1, q =>
    if q.tokens.isEmpty then do fillUpTo n (← q.readNext)
    else do
      let q ← q.dropStale
      if q.headIsCandidate then fillUpTo n (← q.readNext) else return q

/-- The number of characters left, and one for each end of the stream. Every token but the first and
the last takes up characters, so no more tokens are left. -/
def size (q : TokenQueue) : Nat := q.cursor.rest.length + 2

/-- Reads tokens until the first one in the queue is settled. -/
def fill (q : TokenQueue) : Except Fault TokenQueue := do
  if q.tokens.isEmpty then fillUpTo (q.size + 1) q
  else
    let q ← q.dropStale
    if q.headIsCandidate then fillUpTo (q.size + 1) q else return q

/-- Takes the first token away. -/
def drop (q : TokenQueue) : TokenQueue := { q with tokens := q.tokens.tail, taken := q.taken + 1 }

end TokenQueue

end ResourceGraph.Yaml

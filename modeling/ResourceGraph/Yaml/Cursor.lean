import ResourceGraph.Yaml.Fault

/-!
# Cursors

A cursor is what is left of a YAML text and the mark where it begins. The end of the text counts as
a blank and as a break wherever a construct may end.

Proves: taking a run of characters splits the rest of the text.
-/

set_option autoImplicit false

namespace ResourceGraph.Yaml

/-- Whether a character breaks lines. -/
def isBreak (c : Char) : Bool :=
  c == '\n' || c == '\r' || c == '\u0085' || c == '\u2028' || c == '\u2029'

/-- Whether a character is a space or a tab. -/
def isSpace (c : Char) : Bool := c == ' ' || c == '\t'

/-- Whether a character separates: a space, a tab or a line break. -/
def isSeparation (c : Char) : Bool := isSpace c || isBreak c

/-- Whether a character may stand in an anchor's name or a tag's handle. -/
def isWord (c : Char) : Bool := c.isAlphanum || c == '_' || c == '-'

/-- The value of a hexadecimal digit. -/
def hexDigit? (c : Char) : Option Nat :=
  if '0' ≤ c ∧ c ≤ '9' then some (c.toNat - '0'.toNat)
  else if 'a' ≤ c ∧ c ≤ 'f' then some (c.toNat - 'a'.toNat + 10)
  else if 'A' ≤ c ∧ c ≤ 'F' then some (c.toNat - 'A'.toNat + 10)
  else none

/-- Whether a test holds at the start of a text, the end of the text included. -/
def atEndOr (p : Char → Bool) : List Char → Bool
  | [] => true
  | c :: _ => p c

/-- Whether a text begins with a separation or has ended. -/
def startsSeparated (cs : List Char) : Bool := atEndOr isSeparation cs

/-- Whether a text begins with a line break or has ended. -/
def startsBroken (cs : List Char) : Bool := atEndOr isBreak cs

/-- Whether a text begins with one of the indicators `---` and `...`, set apart from what follows.
-/
def startsDocumentIndicator : List Char → Bool
  | '-' :: '-' :: '-' :: rest => startsSeparated rest
  | '.' :: '.' :: '.' :: rest => startsSeparated rest
  | _ => false

/-- What is left of a text, and where it begins. -/
structure Cursor where
  rest : List Char
  mark : Mark
  deriving Repr

namespace Cursor

/-- The start of a text. -/
def start (text : List Char) : Cursor := ⟨text, Mark.origin⟩

/-- The cursor `n` characters of the same line further. -/
def forward (k : Cursor) (n : Nat) : Cursor := ⟨k.rest.drop n, k.mark.past (k.rest.take n)⟩

/-- The run of characters that pass a test, none of which breaks a line, and the cursor after it. -/
def run (k : Cursor) (p : Char → Bool) : List Char × Cursor :=
  let taken := k.rest.takeWhile p
  (taken, k.forward taken.length)

/-- The cursor after a run of characters. -/
def skipRun (k : Cursor) (p : Char → Bool) : Cursor := (k.run p).2

/-- Reads a line break: the text it stands for, and the cursor after it. A carriage return and line
feed are one break, and every break but the two separators stands for a line feed. -/
def lineBreak? (k : Cursor) : Option (List Char × Cursor) :=
  match k.rest with
  | '\r' :: '\n' :: cs => some (['\n'], ⟨cs, k.mark.pastBreak ['\r', '\n']⟩)
  | c :: cs =>
    if c == '\u2028' || c == '\u2029' then some ([c], ⟨cs, k.mark.pastBreak [c]⟩)
    else if isBreak c then some (['\n'], ⟨cs, k.mark.pastBreak [c]⟩)
    else none
  | [] => none

/-- The cursor after a line break, if there is one. -/
def skipBreak (k : Cursor) : Cursor := (k.lineBreak?.map Prod.snd).getD k

/-- The cursor after a comment, if there is one. -/
def skipComment (k : Cursor) : Cursor :=
  match k.rest with
  | '#' :: _ => k.skipRun fun c => !isBreak c
  | _ => k

/-- Whether the cursor stands at the start of a line with a document indicator. -/
def atDocumentIndicator (k : Cursor) : Bool :=
  k.mark.column == 0 && startsDocumentIndicator k.rest

theorem drop_length_takeWhile (p : Char → Bool) (cs : List Char) :
    cs.drop (cs.takeWhile p).length = cs.dropWhile p := by
  induction cs with
  | nil => rfl
  | cons c cs ih => by_cases hc : p c = true <;> simp [List.takeWhile, List.dropWhile, hc, ih]

/-- **A run and the text after it are the text.** -/
theorem run_append (k : Cursor) (p : Char → Bool) :
    (k.run p).1 ++ (k.run p).2.rest = k.rest := by
  simp only [run, forward, drop_length_takeWhile, List.takeWhile_append_dropWhile]

end Cursor

end ResourceGraph.Yaml

import ResourceGraph.Yaml.Token.Folding

/-!
# Quoted scalars

Between single quotes two quotes stand for one. Between double quotes a backslash begins an escape:
of one character, of a code in hexadecimal digits, or of a line break. Lines are folded in both.
-/

set_option autoImplicit false

namespace ResourceGraph.Yaml

namespace Quoted

/-- The character that an escape of one letter stands for. -/
def letterEscape? : Char → Option Char
  | '0' => some '\x00'
  | 'a' => some '\x07'
  | 'b' => some '\x08'
  | 't' => some '\t'
  | '\t' => some '\t'
  | 'n' => some '\n'
  | 'v' => some '\x0b'
  | 'f' => some '\x0c'
  | 'r' => some '\r'
  | 'e' => some '\x1b'
  | ' ' => some ' '
  | '"' => some '"'
  | '/' => some '/'
  | '\\' => some '\\'
  | 'N' => some '\u0085'
  | '_' => some '\u00a0'
  | 'L' => some '\u2028'
  | 'P' => some '\u2029'
  | _ => none

/-- The number of digits of an escape by code. -/
def codeLength? : Char → Option Nat
  | 'x' => some 2
  | 'u' => some 4
  | 'U' => some 8
  | _ => none

/-- The value of exactly `n` hexadecimal digits at the start of a text, after digits of a value. -/
def hexCode? : Nat → Nat → List Char → Option Nat
  | 0, value, _ => some value
  | _ + 1, _, [] => none
  | n + 1, value, c :: cs =>
    match hexDigit? c with
    | none => none
    | some d => hexCode? n (value * 16 + d) cs

/-- Whether a number is the code of a character. -/
def isCharacterCode (n : Nat) : Bool := n < 0xD800 || (0xDFFF < n && n ≤ 0x10FFFF)

/-- Reads an escape after its backslash, at a cursor on the backslash. -/
def escape (start : Mark) (k : Cursor) (c : Char) : Except Fault (Char × Cursor) :=
  match letterEscape? c with
  | some character => .ok (character, k.forward 2)
  | none =>
    match codeLength? c with
    | none => .error (.within .quotedEscape start .unknownEscape k.mark)
    | some n =>
      let digits := k.forward 2
      match hexCode? n 0 digits.rest with
      | none => .error (.within .quotedEscape start .missingHexDigit digits.mark)
      | some code =>
        if isCharacterCode code then .ok (Char.ofNat code, digits.forward n)
        else .error (.within .quotedEscape start .badEscapedCharacter digits.mark)

/-- A word of a quoted scalar: its text, the cursor after it, and whether it ends with an escaped
line break. -/
structure Word where
  text : List Char
  after : Cursor
  escapedBreak : Bool
  deriving Repr

/-- The word with characters put before it. -/
def Word.prepend (w : Word) (cs : List Char) : Word := { w with text := cs ++ w.text }

/-- Reads a word between single quotes, of at most `n` characters. -/
def singleWord : Nat → Cursor → Word
  | 0, k => ⟨[], k, false⟩
  | n + 1, k =>
    match k.rest with
    | [] => ⟨[], k, false⟩
    | '\'' :: '\'' :: _ => (singleWord n (k.forward 2)).prepend ['\'']
    | '\'' :: _ => ⟨[], k, false⟩
    | c :: _ =>
      if isSeparation c then ⟨[], k, false⟩ else (singleWord n (k.forward 1)).prepend [c]

/-- Reads a word between double quotes, of at most `n` characters and escapes. -/
def doubleWord (start : Mark) : Nat → Cursor → Except Fault Word
  | 0, k => .ok ⟨[], k, false⟩
  | n + 1, k =>
    match k.rest with
    | [] => .ok ⟨[], k, false⟩
    | '"' :: _ => .ok ⟨[], k, false⟩
    | ['\\'] => .error (.within .quotedEscape start .unknownEscape k.mark)
    | '\\' :: c :: _ =>
      if isBreak c then .ok ⟨[], (k.forward 1).skipBreak, true⟩
      else match escape start k c with
        | .error fault => .error fault
        | .ok (character, after) =>
          (doubleWord start n after).map fun w => w.prepend [character]
    | c :: _ =>
      if isSeparation c then .ok ⟨[], k, false⟩
      else (doubleWord start n (k.forward 1)).map fun w => w.prepend [c]

/-- Reads a word between quotes of either kind. -/
def word (single : Bool) (start : Mark) (k : Cursor) : Except Fault Word :=
  if single then .ok (singleWord k.rest.length k) else doubleWord start k.rest.length k

/-- Reads at most `n` words and gaps and the closing quote, after a text. -/
def read (single : Bool) (start : Mark) :
    Nat → List Char → Cursor → Except Fault (List Char × Cursor)
  | 0, text, k => .ok (text, k)
  | n + 1, text, k =>
    if k.atDocumentIndicator then
      .error (.within .quotedScalar start .documentIndicator k.mark)
    else if k.rest.isEmpty then
      .error (.within .quotedScalar start .endOfStream k.mark)
    else match word single start k with
      | .error fault => .error fault
      | .ok w =>
        let text := text ++ w.text
        if w.after.rest.head? == some (if single then '\'' else '"') then
          .ok (text, w.after.forward 1)
        else
          let (gap, k) := w.after.gap (if w.escapedBreak then Gap.escaped else Gap.empty)
          read single start n (text ++ gap.fold) k

end Quoted

/-- The quoted scalar at a cursor on its opening quote. -/
def Cursor.quoted (k : Cursor) (single : Bool) : Except Fault (List Char × Cursor) :=
  Quoted.read single k.mark (k.rest.length + 1) [] (k.forward 1)

end ResourceGraph.Yaml

import ResourceGraph.Yaml.Cursor
import ResourceGraph.Yaml.Token.Basic

/-!
# Anchors, aliases, tags and directives

Names of anchors and aliases, tags in their verbatim, shorthand and local forms, and the two
directives. A percent sign in a tag begins octets written in hexadecimal.
-/

set_option autoImplicit false

namespace ResourceGraph.Yaml

namespace Property

/-- Whether a character may follow the name of an anchor or an alias. -/
def endsName (c : Char) : Bool :=
  isSeparation c || c == '?' || c == ':' || c == ',' || c == ']' || c == '\x7d' || c == '%' ||
    c == '@' || c == '\x60'

/-- Reads the name of an anchor or an alias, at a cursor on its indicator. -/
def name (construct : Construct) (k : Cursor) : Except Fault (List Char × Cursor) :=
  let (text, after) := (k.forward 1).run isWord
  if text.isEmpty || !atEndOr endsName after.rest then
    .error (.within construct k.mark .missingAnchorName after.mark)
  else .ok (text, after)

/-! ## Tags -/

/-- Whether a character may stand in a tag; in a verbatim tag or a directive commas and square
brackets may too. -/
def isTagChar (verbatim : Bool) (c : Char) : Bool :=
  isWord c || [';', '/', '?', ':', '@', '&', '=', '+', '$', '.', '%', '!', '~', '*', '\'', '(',
    ')'].contains c || (verbatim && [',', '[', ']'].contains c)

/-- The octet written as a percent sign and two hexadecimal digits. -/
def octet? : List Char → Option Nat
  | '%' :: a :: b :: _ => do
    let high ← hexDigit? a
    let low ← hexDigit? b
    return high * 16 + low
  | _ => none

/-- The number of octets of a character, by its first octet. -/
def sequenceLength? (lead : Nat) : Option Nat :=
  if lead < 0x80 then some 1
  else if lead / 0x20 = 6 then some 2
  else if lead / 0x10 = 14 then some 3
  else if lead / 0x08 = 30 then some 4
  else none

/-- Reads `n` further escaped octets of a character. -/
def trailingOctets (fail : Problem → Mark → Fault) :
    Nat → Octets → Cursor → Except Fault (Octets × Cursor)
  | 0, octets, k => .ok (octets, k)
  | n + 1, octets, k =>
    match octet? k.rest with
    | none => .error (fail .missingUriOctet k.mark)
    | some o =>
      if o / 0x40 = 2 then trailingOctets fail n (octets ++ [o]) (k.forward 3)
      else .error (fail .badUriTrail k.mark)

/-- Reads the escaped octets of one character. -/
def escapedCharacter (fail : Problem → Mark → Fault) (k : Cursor) :
    Except Fault (Octets × Cursor) :=
  match octet? k.rest with
  | none => .error (fail .missingUriOctet k.mark)
  | some lead =>
    match sequenceLength? lead with
    | none => .error (fail .badUriLead k.mark)
    | some n => trailingOctets fail (n - 1) [lead] (k.forward 3)

/-- Reads at most `n` characters of a tag, after the given octets. -/
def tagOctets (fail : Problem → Mark → Fault) (verbatim : Bool) :
    Nat → Octets → Cursor → Except Fault (Octets × Cursor)
  | 0, octets, k => .ok (octets, k)
  | n + 1, octets, k =>
    match k.rest with
    | [] => .ok (octets, k)
    | c :: _ =>
      if !isTagChar verbatim c then .ok (octets, k)
      else if c == '%' then
        match escapedCharacter fail k with
        | .error fault => .error fault
        | .ok (more, after) => tagOctets fail verbatim n (octets ++ more) after
      else tagOctets fail verbatim n (octets ++ [c.toNat]) (k.forward 1)

/-- Reads the octets of a tag. What was read of it before stands in `head`, whose first character is
dropped; a tag without any octet and without a head is a fault. A zero octet ends the tag early. -/
def tagUri (construct : Construct) (start : Mark) (verbatim : Bool) (head : List Char)
    (k : Cursor) : Except Fault (Octets × Cursor) :=
  let fail := Fault.within construct start
  match tagOctets fail verbatim k.rest.length [] k with
  | .error fault => .error fault
  | .ok (octets, after) =>
    if head.isEmpty && octets.isEmpty then .error (fail .missingTagUri after.mark)
    else .ok ((octetsOf (head.drop 1) ++ octets).takeWhile (· != 0), after)

/-- Reads the handle of a tag: an exclamation mark, a word, and a second mark if one follows. -/
def handle (construct : Construct) (start : Mark) (k : Cursor) :
    Except Fault (List Char × Cursor) :=
  match k.rest with
  | '!' :: _ =>
    let (word, after) := (k.forward 1).run isWord
    if after.rest.head? == some '!' then .ok ('!' :: word ++ ['!'], after.forward 1)
    else .ok ('!' :: word, after)
  | _ => .error (.within construct start .missingExclamation k.mark)

/-- Whether a handle ends in a second exclamation mark. -/
def isClosedHandle (h : List Char) : Bool := 1 < h.length && h.getLast? == some '!'

/-- Reads the handle and suffix of a tag that is not verbatim. A tag without a second exclamation
mark has the handle `!`, and the tag `!` alone has no handle. -/
def shorthand (k : Cursor) : Except Fault (TokenKind × Cursor) :=
  match handle .tag k.mark k with
  | .error fault => .error fault
  | .ok (h, after) =>
    if isClosedHandle h then
      (tagUri .tagUri k.mark false [] after).map fun (suffix, after) =>
        (.tag (octetsOf h) suffix, after)
    else
      (tagUri .tagUri k.mark false h after).map fun (suffix, after) =>
        if suffix.isEmpty then (.tag [] (octetsOf ['!']), after)
        else (.tag (octetsOf ['!']) suffix, after)

/-- Reads a tag written between angle brackets. -/
def verbatim (k : Cursor) : Except Fault (TokenKind × Cursor) :=
  match tagUri .tagUri k.mark true [] (k.forward 2) with
  | .error fault => .error fault
  | .ok (suffix, after) =>
    if after.rest.head? == some '>' then .ok (.tag [] suffix, after.forward 1)
    else .error (.within .tag k.mark .missingTagClose after.mark)

/-- Reads a tag, at a cursor on its exclamation mark. -/
def tag (flow : Bool) (k : Cursor) : Except Fault (TokenKind × Cursor) :=
  let scanned := match k.rest with
    | _ :: '<' :: _ => verbatim k
    | _ => shorthand k
  match scanned with
  | .error fault => .error fault
  | .ok (kind, after) =>
    if startsSeparated after.rest || (flow && after.rest.head? == some ',') then .ok (kind, after)
    else .error (.within .tag k.mark .missingSpaceOrBreak after.mark)

/-! ## Directives -/

/-- Reads a number of a version, which has at most nine digits. -/
def versionNumber (start : Mark) (k : Cursor) : Except Fault (Nat × Cursor) :=
  let (digits, after) := k.run Char.isDigit
  if 9 < digits.length then
    .error (.within .versionDirective start .longVersionNumber (k.forward 9).mark)
  else if digits.isEmpty then
    .error (.within .versionDirective start .missingVersionNumber after.mark)
  else .ok (digits.foldl (fun n c => n * 10 + (c.toNat - '0'.toNat)) 0, after)

/-- Reads the version of a version directive. -/
def version (start : Mark) (k : Cursor) : Except Fault (TokenKind × Cursor) := do
  let (major, k) ← versionNumber start (k.skipRun isSpace)
  if k.rest.head? == some '.' then
    let (minor, k) ← versionNumber start (k.forward 1)
    return (.version major minor, k)
  else .error (.within .versionDirective start .missingVersionPoint k.mark)

/-- Reads the handle and target of a tag directive. -/
def tagHandle (start : Mark) (k : Cursor) : Except Fault (TokenKind × Cursor) := do
  let (h, k) ← handle .tagDirectiveHandle start (k.skipRun isSpace)
  if !isClosedHandle h && h != ['!'] then
    .error (.within .tagDirectiveHandleEnd start .missingExclamation k.mark)
  else if !k.rest.head?.any isSpace then
    .error (.within .tagDirectiveParts start .missingSpace k.mark)
  else
    let (target, k) ← tagUri .tagDirectiveUri start true [] (k.skipRun isSpace)
    if startsSeparated k.rest then return (.tagHandle (octetsOf h) target, k)
    else .error (.within .tagDirectiveParts start .missingSpaceOrBreak k.mark)

/-- Reads a directive and its line, at a cursor on its percent sign. -/
def directive (k : Cursor) : Except Fault (TokenKind × Cursor) := do
  let start := k.mark
  let fail := Fault.within .directive start
  let (word, k) := (k.forward 1).run isWord
  if word.isEmpty then .error (fail .missingDirectiveName k.mark)
  else if !startsSeparated k.rest then .error (fail .badDirectiveName k.mark)
  else
    let (kind, k) ←
      if word == ['Y', 'A', 'M', 'L'] then version start k
      else if word == ['T', 'A', 'G'] then tagHandle start k
      else .error (fail .unknownDirective k.mark)
    let k := (k.skipRun isSpace).skipComment
    if startsBroken k.rest then return (kind, k.skipBreak)
    else .error (fail .missingCommentOrBreak k.mark)

end Property

end ResourceGraph.Yaml

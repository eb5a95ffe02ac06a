import ResourceGraph.Yaml.Mark

/-!
# Tokens

The tokens of a YAML text, each with the mark of its start. Tags and their handles are kept
as octets, because escapes may write any octets into them.
-/

set_option autoImplicit false

namespace ResourceGraph.Yaml

/-- How a scalar is written. -/
inductive ScalarStyle where
  | plain
  | singleQuoted
  | doubleQuoted
  | literal
  | folded
  deriving DecidableEq, Repr

/-- The octets of a handle or a tag. -/
abbrev Octets := List Nat

/-- The octets of ASCII characters. -/
def octetsOf (cs : List Char) : Octets := cs.map Char.toNat

/-- What a token is. -/
inductive TokenKind where
  | streamStart
  | streamEnd
  | version (major minor : Nat)
  | tagHandle (handle target : Octets)
  | documentStart
  | documentEnd
  | blockSequenceStart
  | blockMappingStart
  | blockEnd
  | flowSequenceStart
  | flowSequenceEnd
  | flowMappingStart
  | flowMappingEnd
  | blockEntry
  | flowEntry
  | key
  | value
  | aliasOf (name : List Char)
  | anchor (name : List Char)
  | tag (handle suffix : Octets)
  | scalar (text : List Char) (style : ScalarStyle)
  deriving DecidableEq, Repr

/-- A token and where it starts. -/
structure Token where
  kind : TokenKind
  start : Mark
  deriving Repr

/-- The place after a token that is an indicator, one character of one byte. -/
def Token.afterIndicator (t : Token) : Mark :=
  ⟨t.start.offset + 1, t.start.line, t.start.column + 1⟩

end ResourceGraph.Yaml

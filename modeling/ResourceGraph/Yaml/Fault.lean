import ResourceGraph.Yaml.Mark

/-!
# Faults of YAML syntax

A fault names what is wrong, where, and during what. Its message leaves out a place at the very
start of the text, and the place where the construct began when that is where the fault is.
-/

set_option autoImplicit false

namespace ResourceGraph.Yaml

/-- What is wrong with a YAML text. -/
inductive Problem where
  | controlCharacter
  | strayCharacter
  | missingColon
  | misplacedSequenceEntry
  | misplacedKey
  | misplacedValue
  | missingDirectiveName
  | badDirectiveName
  | unknownDirective
  | missingVersionPoint
  | longVersionNumber
  | missingVersionNumber
  | missingSpace
  | missingSpaceOrBreak
  | missingCommentOrBreak
  | missingAnchorName
  | missingExclamation
  | missingTagUri
  | missingTagClose
  | missingUriOctet
  | badUriLead
  | badUriTrail
  | zeroIndentation
  | tabInIndentation
  | tabBreaksIndentation
  | documentIndicator
  | endOfStream
  | unknownEscape
  | missingHexDigit
  | badEscapedCharacter
  | unexpectedColon
  | missingDocumentStart
  | duplicateVersion
  | incompatibleVersion
  | duplicateTagHandle
  | undefinedTagHandle
  | missingNode
  | missingSequenceEntry
  | missingMappingKey
  | missingSequenceSeparator
  | missingMappingSeparator
  deriving DecidableEq, Repr

namespace Problem

/-- The wording of a problem. -/
def message : Problem → String
  | controlCharacter => "control characters are not allowed"
  | strayCharacter => "found character that cannot start any token"
  | missingColon => "could not find expected ':'"
  | misplacedSequenceEntry => "block sequence entries are not allowed in this context"
  | misplacedKey => "mapping keys are not allowed in this context"
  | misplacedValue => "mapping values are not allowed in this context"
  | missingDirectiveName => "could not find expected directive name"
  | badDirectiveName => "found unexpected non-alphabetical character"
  | unknownDirective => "found unknown directive name"
  | missingVersionPoint => "did not find expected digit or '.' character"
  | longVersionNumber => "found extremely long version number"
  | missingVersionNumber => "did not find expected version number"
  | missingSpace => "did not find expected whitespace"
  | missingSpaceOrBreak => "did not find expected whitespace or line break"
  | missingCommentOrBreak => "did not find expected comment or line break"
  | missingAnchorName => "did not find expected alphabetic or numeric character"
  | missingExclamation => "did not find expected '!'"
  | missingTagUri => "did not find expected tag URI"
  | missingTagClose => "did not find the expected '>'"
  | missingUriOctet => "did not find URI escaped octet"
  | badUriLead => "found an incorrect leading UTF-8 octet"
  | badUriTrail => "found an incorrect trailing UTF-8 octet"
  | zeroIndentation => "found an indentation indicator equal to 0"
  | tabInIndentation => "found a tab character where an indentation space is expected"
  | tabBreaksIndentation => "found a tab character that violates indentation"
  | documentIndicator => "found unexpected document indicator"
  | endOfStream => "found unexpected end of stream"
  | unknownEscape => "found unknown escape character"
  | missingHexDigit => "did not find expected hexadecimal number"
  | badEscapedCharacter => "found invalid Unicode character escape code"
  | unexpectedColon => "found unexpected ':'"
  | missingDocumentStart => "did not find expected <document start>"
  | duplicateVersion => "found duplicate %YAML directive"
  | incompatibleVersion => "found incompatible YAML document"
  | duplicateTagHandle => "found duplicate %TAG directive"
  | undefinedTagHandle => "found undefined tag handle"
  | missingNode => "did not find expected node content"
  | missingSequenceEntry => "did not find expected '-' indicator"
  | missingMappingKey => "did not find expected key"
  | missingSequenceSeparator => "did not find expected ',' or ']'"
  | missingMappingSeparator => "did not find expected ',' or '\x7d'"

end Problem

/-- The construct that was being read when a fault was found. -/
inductive Construct where
  | anyToken
  | simpleKey
  | directive
  | tagDirectiveHandle
  | tagDirectiveHandleEnd
  | versionDirective
  | tagDirectiveParts
  | tagDirectiveUri
  | anchorName
  | aliasName
  | tag
  | tagUri
  | blockScalar
  | quotedScalar
  | quotedEscape
  | plainScalar
  | node
  | blockNode
  | flowNode
  | blockCollection
  | blockMapping
  | flowSequence
  | flowMapping
  deriving DecidableEq, Repr

namespace Construct

/-- The wording of a construct being read. -/
def message : Construct → String
  | anyToken => "while scanning for the next token"
  | simpleKey => "while scanning a simple key"
  | directive => "while scanning a directive"
  | tagDirectiveHandle => "while scanning a tag directive"
  | tagDirectiveHandleEnd => "while parsing a tag directive"
  | versionDirective => "while scanning a %YAML directive"
  | tagDirectiveParts => "while scanning a %TAG directive"
  | tagDirectiveUri => "while parsing a %TAG directive"
  | anchorName => "while scanning an anchor"
  | aliasName => "while scanning an alias"
  | tag => "while scanning a tag"
  | tagUri => "while parsing a tag"
  | blockScalar => "while scanning a block scalar"
  | quotedScalar => "while scanning a quoted scalar"
  | quotedEscape => "while parsing a quoted scalar"
  | plainScalar => "while scanning a plain scalar"
  | node => "while parsing a node"
  | blockNode => "while parsing a block node"
  | flowNode => "while parsing a flow node"
  | blockCollection => "while parsing a block collection"
  | blockMapping => "while parsing a block mapping"
  | flowSequence => "while parsing a flow sequence"
  | flowMapping => "while parsing a flow mapping"

end Construct

/-- A fault of syntax: the problem and its place, and the construct with the place where it began.
-/
structure Fault where
  problem : Problem
  mark : Mark
  during : Option (Construct × Mark)
  deriving DecidableEq, Repr

namespace Fault

/-- A fault outside any construct. -/
def bare (problem : Problem) (mark : Mark) : Fault := ⟨problem, mark, none⟩

/-- A fault within a construct that began at a mark. -/
def within (construct : Construct) (start : Mark) (problem : Problem) (mark : Mark) : Fault :=
  ⟨problem, mark, some (construct, start)⟩

/-- A place in a message: nothing at the start of the text, and the offset of a place that has no
line yet. -/
def placeText (m : Mark) : String :=
  if !m.isOrigin then " at " ++ m.render
  else if m.offset = 0 then "" else " at position " ++ toString m.offset

/-- The wording of a fault. -/
def message (f : Fault) : String :=
  f.problem.message ++ placeText f.mark ++
    match f.during with
    | none => ""
    | some (construct, start) =>
      ", " ++ construct.message ++ (if start.samePlace f.mark then "" else placeText start)

end Fault

end ResourceGraph.Yaml

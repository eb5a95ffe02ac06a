import ResourceGraph.Yaml.Cursor

/-!
# Intake

A text is taken in by blocks of whole characters, each of at most 16384 bytes. A character that YAML
does not admit spoils the block it is in: it is a fault as soon as any character of the block is
needed, and no sooner.

Proves: a text of admitted characters is never refused.
-/

set_option autoImplicit false

namespace ResourceGraph.Yaml

/-- Whether YAML admits a character. -/
def isAdmitted (c : Char) : Bool :=
  let n := c.toNat
  n == 0x9 || n == 0xA || n == 0xD || (0x20 ≤ n && n ≤ 0x7E) || n == 0x85 ||
    (0xA0 ≤ n && n ≤ 0xFFFD) || 0x10000 ≤ n

/-- The most bytes that a block has. -/
def blockSize : Nat := 16384

/-- The first character that is not admitted: the byte offsets of its block and of itself. -/
structure Refusal where
  block : Nat
  offset : Nat
  deriving DecidableEq, Repr

namespace Refusal

/-- The first refusal in the rest of a text, given the offsets of the current block and of the
rest. -/
def find? : Nat → Nat → List Char → Option Refusal
  | _, _, [] => none
  | block, offset, c :: cs =>
    let next := offset + Text.charBytes c
    let block := if block + blockSize < next then offset else block
    if isAdmitted c then find? block next cs else some ⟨block, offset⟩

/-- The fault of a refusal. Its mark has an offset but no line yet. -/
def fault (r : Refusal) : Fault := .bare .controlCharacter ⟨r.offset, 0, 0⟩

/-- Whether the characters ahead of a cursor, as many as given, reach into the refused block. -/
def isReached (r : Refusal) (ahead : Nat) (k : Cursor) : Bool :=
  r.block < k.mark.offset + Text.bytes (k.rest.take ahead)

/-- **A text of admitted characters is never refused.** -/
theorem find?_eq_none (block offset : Nat) (cs : List Char) (h : cs.all isAdmitted) :
    find? block offset cs = none := by
  induction cs generalizing block offset with
  | nil => rfl
  | cons c cs ih =>
    simp only [List.all_cons, Bool.and_eq_true] at h
    simp only [find?, h.1, if_true]
    exact ih _ _ h.2

end Refusal

end ResourceGraph.Yaml

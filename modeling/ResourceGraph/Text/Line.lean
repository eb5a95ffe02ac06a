import ResourceGraph.Text.Blank
import ResourceGraph.Text.Split
import ResourceGraph.Text.Width

/-!
# The layout of one line

What indentation-based lookup reads off a line: its indentation, whether it is a blank or a comment,
the body after a list marker, and the mapping key before a separating colon.

Proves: a key line is its head, a colon and its rest.
-/

set_option autoImplicit false

namespace ResourceGraph

/-- A line without its line break. -/
abbrev Line := List Char

namespace Line

open ResourceGraph.Text

/-- The width of the leading spaces and tabs. -/
def indentation (line : Line) : Nat := units (line.takeWhile isIndent)

/-- Blank lines and comments carry no structure. -/
def isIgnorable : Line → Bool
  | [] => true
  | c :: _ => c == '#'

/-- A list item: the text after its marker, and how many columns the marker and its blanks take. -/
structure Item where
  body : List Char
  offset : Nat
  deriving DecidableEq, Repr

/-- Reads a list marker: a `-` that ends the line or is followed by a space or a tab. -/
def item? : Line → Option Item
  | ['-'] => some ⟨[], 1⟩
  | '-' :: c :: cs =>
    if isIndent c then
      some ⟨(c :: cs).dropWhile isIndent, 1 + units ((c :: cs).takeWhile isIndent)⟩
    else none
  | _ => none

/-- A key line: the unquoted key, the text before the separating colon, and the text after it. -/
structure Key where
  key : List Char
  head : List Char
  rest : List Char
  deriving DecidableEq, Repr

/-- The text after a colon at the start that separates a key: one that ends the line or is followed
by white space. -/
def afterSeparator? : List Char → Option (List Char)
  | [':'] => some []
  | ':' :: c :: cs => if isBlank c then some (c :: cs) else none
  | _ => none

/-- A line cut at its first separating colon. -/
def splitAtSeparator? : List Char → Option (List Char × List Char)
  | [] => none
  | c :: cs =>
    match afterSeparator? (c :: cs) with
    | some rest => some ([], rest)
    | none => (splitAtSeparator? cs).map fun (head, rest) => (c :: head, rest)

/-- The key of a line whose first character is the quote `q`, read after that quote: white space may
stand between the closing quote and the colon. -/
def quotedKey? (q : Char) (cs : List Char) : Option Key :=
  match cutAt? q cs with
  | none => none
  | some (inner, after) =>
    (afterSeparator? (after.dropWhile isBlank)).map fun rest =>
      ⟨inner, q :: inner ++ q :: after.takeWhile isBlank, rest⟩

/-- The key of a line that does not begin with a quote: what stands before its first separating
colon, without white space at the end and not empty. -/
def plainKey? (cs : List Char) : Option Key :=
  match splitAtSeparator? cs with
  | none => none
  | some (head, rest) =>
    if (trimEnd head).isEmpty then none else some ⟨trimEnd head, head, rest⟩

/-- Whether a character opens a quoted key. -/
def isQuote (c : Char) : Bool := c == '"' || c == '\''

/-- The mapping key written at the start of a line. -/
def key? : Line → Option Key
  | [] => none
  | c :: cs => if isQuote c then quotedKey? c cs else plainKey? (c :: cs)

/-- The width of the key, its quotes and its colon. -/
def Key.width (k : Key) : Nat := units k.head + 1

theorem afterSeparator?_eq_some {cs rest : List Char} (h : afterSeparator? cs = some rest) :
    cs = ':' :: rest := by
  unfold afterSeparator? at h
  split at h
  · simp_all
  · split at h <;> simp_all
  · simp at h

theorem splitAtSeparator?_eq_some {cs head rest : List Char}
    (h : splitAtSeparator? cs = some (head, rest)) : cs = head ++ ':' :: rest := by
  induction cs generalizing head with
  | nil => simp [splitAtSeparator?] at h
  | cons c cs ih =>
    unfold splitAtSeparator? at h
    split at h
    · rename_i after hafter
      simp only [Option.some.injEq, Prod.mk.injEq] at h
      obtain ⟨rfl, rfl⟩ := h
      exact afterSeparator?_eq_some hafter
    · obtain ⟨⟨head', rest'⟩, hsplit, heq⟩ := Option.map_eq_some_iff.1 h
      simp only [Prod.mk.injEq] at heq
      obtain ⟨rfl, rfl⟩ := heq
      simp [ih hsplit]

theorem quotedKey?_eq_some {q : Char} {cs : List Char} {k : Key}
    (h : quotedKey? q cs = some k) : q :: cs = k.head ++ ':' :: k.rest := by
  unfold quotedKey? at h
  split at h
  · simp at h
  · rename_i inner after hchar
    obtain ⟨rest, hsep, rfl⟩ := Option.map_eq_some_iff.1 h
    have hcut : after = after.takeWhile isBlank ++ ':' :: rest := by
      rw [← afterSeparator?_eq_some hsep, List.takeWhile_append_dropWhile]
    simp only [List.cons_append, List.append_assoc, List.cons.injEq, true_and]
    rw [cutAt?_eq_some hchar, ← hcut]

theorem plainKey?_eq_some {cs : List Char} {k : Key} (h : plainKey? cs = some k) :
    cs = k.head ++ ':' :: k.rest := by
  unfold plainKey? at h
  split at h
  · simp at h
  · rename_i head rest hsplit
    split at h
    · simp at h
    · simp only [Option.some.injEq] at h
      subst h
      exact splitAtSeparator?_eq_some hsplit

/-- **A key line is its head, a colon and its rest.** -/
theorem key?_eq_some {line : Line} {k : Key} (h : key? line = some k) :
    line = k.head ++ ':' :: k.rest := by
  cases line with
  | nil => simp [key?] at h
  | cons c cs =>
    by_cases hq : isQuote c = true
    · rw [key?, if_pos hq] at h
      exact quotedKey?_eq_some h
    · rw [key?, if_neg hq] at h
      exact plainKey?_eq_some h

end Line

end ResourceGraph

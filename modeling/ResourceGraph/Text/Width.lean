/-!
# Widths of text

An editor counts columns in UTF-16 code units and a file counts offsets in UTF-8 bytes. This module
measures characters and lists of characters in both, and cuts a line at a column or at an offset.

Proves: both measures add up over concatenation.
-/

set_option autoImplicit false

namespace ResourceGraph.Text

/-- The number of UTF-16 code units of a character. -/
def charUnits (c : Char) : Nat := if c.toNat < 0x10000 then 1 else 2

/-- The number of UTF-8 bytes of a character. -/
def charBytes (c : Char) : Nat :=
  if c.toNat < 0x80 then 1 else if c.toNat < 0x800 then 2 else if c.toNat < 0x10000 then 3 else 4

/-- The width of a text in UTF-16 code units. -/
def units : List Char → Nat
  | [] => 0
  | c :: cs => charUnits c + units cs

/-- The length of a text in UTF-8 bytes. -/
def bytes : List Char → Nat
  | [] => 0
  | c :: cs => charBytes c + bytes cs

/-- The part of a line from a UTF-16 column on. A column inside a surrogate pair counts as the end
of the pair, and one past the line's end as the end. -/
def fromColumn : Nat → List Char → List Char
  | _, [] => []
  | n, c :: cs => if n = 0 then c :: cs else fromColumn (n - charUnits c) cs

/-- The byte offset in a line of a UTF-16 column, clamped as in `fromColumn`. -/
def columnOffset : Nat → List Char → Nat
  | _, [] => 0
  | n, c :: cs => if n = 0 then 0 else charBytes c + columnOffset (n - charUnits c) cs

/-- The characters before a byte offset. -/
def takeBytes : Nat → List Char → List Char
  | _, [] => []
  | n, c :: cs => if n = 0 then [] else c :: takeBytes (n - charBytes c) cs

/-- The characters from a byte offset on. -/
def dropBytes : Nat → List Char → List Char
  | _, [] => []
  | n, c :: cs => if n = 0 then c :: cs else dropBytes (n - charBytes c) cs

/-- Whether a byte offset is at most the length of a text and between its characters. -/
def isBoundary (n : Nat) (cs : List Char) : Bool := bytes (takeBytes n cs) == n

theorem charUnits_pos (c : Char) : 0 < charUnits c := by
  unfold charUnits
  split <;> omega

theorem units_append (as bs : List Char) : units (as ++ bs) = units as + units bs := by
  induction as with
  | nil => simp [units]
  | cons a as ih => simp [units, ih, Nat.add_assoc]

theorem bytes_append (as bs : List Char) : bytes (as ++ bs) = bytes as + bytes bs := by
  induction as with
  | nil => simp [bytes]
  | cons a as ih => simp [bytes, ih, Nat.add_assoc]

/-- A column cuts a line into the bytes before it and the part from it on. -/
theorem columnOffset_add_bytes_fromColumn (n : Nat) (cs : List Char) :
    columnOffset n cs + bytes (fromColumn n cs) = bytes cs := by
  induction cs generalizing n with
  | nil => simp [columnOffset, fromColumn]
  | cons c cs ih =>
    by_cases hn : n = 0
    · simp [columnOffset, fromColumn, hn]
    · have := ih (n - charUnits c)
      simp only [columnOffset, fromColumn, hn, if_false, bytes]
      omega

end ResourceGraph.Text

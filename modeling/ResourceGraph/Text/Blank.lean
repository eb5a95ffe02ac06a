/-!
# Blank characters

The blank characters of a document are the code points with the Unicode property `White_Space`.
Lines of text are lists of characters; this module trims blanks from either end of one.

Proves: trimming at the end drops a blank tail and nothing else.
-/

set_option autoImplicit false

namespace ResourceGraph.Text

/-- Inclusive ranges of code points with the property `White_Space`. -/
def blankRanges : List (Nat × Nat) :=
  [(0x9, 0xD), (0x20, 0x20), (0x85, 0x85), (0xA0, 0xA0), (0x1680, 0x1680), (0x2000, 0x200A),
    (0x2028, 0x2029), (0x202F, 0x202F), (0x205F, 0x205F), (0x3000, 0x3000)]

/-- Whether a code point lies in one of the given inclusive ranges. -/
def inRanges (ranges : List (Nat × Nat)) (c : Char) : Bool :=
  ranges.any fun r => r.1 ≤ c.toNat && c.toNat ≤ r.2

/-- Whether a character is white space. -/
def isBlank (c : Char) : Bool := inRanges blankRanges c

/-- Whether a character indents: a space or a tab. -/
def isIndent (c : Char) : Bool := c == ' ' || c == '\t'

/-- A list without its longest tail of elements that pass the test. -/
def dropTail {α : Type} (p : α → Bool) : List α → List α
  | [] => []
  | a :: as =>
    match dropTail p as with
    | [] => if p a then [] else [a]
    | b :: bs => a :: b :: bs

/-- A line without its leading white space. -/
def trimStart (cs : List Char) : List Char := cs.dropWhile isBlank

/-- A line without its trailing white space. -/
def trimEnd (cs : List Char) : List Char := dropTail isBlank cs

/-- A line without white space at either end. -/
def trim (cs : List Char) : List Char := trimEnd (trimStart cs)

/-- What is dropped at the end passes the test, and nothing else is dropped. -/
theorem dropTail_append {α : Type} (p : α → Bool) (as : List α) :
    ∃ tail, as = dropTail p as ++ tail ∧ ∀ a ∈ tail, p a = true := by
  induction as with
  | nil => exact ⟨[], rfl, by simp⟩
  | cons a as ih =>
    obtain ⟨tail, hsplit, htail⟩ := ih
    cases hrest : dropTail p as with
    | nil =>
      by_cases ha : p a = true
      · refine ⟨a :: as, by simp [dropTail, hrest, ha], ?_⟩
        rw [hrest, List.nil_append] at hsplit
        subst hsplit
        simpa [ha] using htail
      · refine ⟨tail, ?_, htail⟩
        rw [hrest, List.nil_append] at hsplit
        simp [dropTail, hrest, ha, ← hsplit]
    | cons b bs =>
      refine ⟨tail, ?_, htail⟩
      rw [hrest] at hsplit
      have hkeep : dropTail p (a :: as) = a :: b :: bs := by simp [dropTail, hrest]
      rw [hkeep, hsplit]
      simp

end ResourceGraph.Text

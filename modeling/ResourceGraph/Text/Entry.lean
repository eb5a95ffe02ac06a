import ResourceGraph.Text.Line

/-!
# Entries

Blank lines and comments carry no structure. Every other line is an entry: its number, its
indentation, and its text without white space at the ends.

Proves: what the entries of a list of lines are follows from the lines one by one.
-/

set_option autoImplicit false

namespace ResourceGraph

/-- A line that carries structure. -/
structure Entry where
  line : Nat
  indent : Nat
  content : Line
  deriving DecidableEq, Repr

namespace Entry

/-- The entry of a line with a number. -/
def ofLine? (n : Nat) (line : Line) : Option Entry :=
  let content := Text.trim line
  if Line.isIgnorable content then none else some ⟨n, Line.indentation line, content⟩

/-- The entries of some lines, numbered from `n` on. -/
def ofLines : Nat → List Line → List Entry
  | _, [] => []
  | n, line :: rest =>
    match ofLine? n line with
    | none => ofLines (n + 1) rest
    | some e => e :: ofLines (n + 1) rest

theorem line_of_ofLine? {n : Nat} {line : Line} {e : Entry} (h : ofLine? n line = some e) :
    e.line = n := by
  simp only [ofLine?] at h
  split at h
  · simp at h
  · simp only [Option.some.injEq] at h
    rw [← h]

theorem content_of_ofLine? {n : Nat} {line : Line} {e : Entry} (h : ofLine? n line = some e) :
    e.content = Text.trim line := by
  simp only [ofLine?] at h
  split at h
  · simp at h
  · simp only [Option.some.injEq] at h
    rw [← h]

theorem ofLine?_eq_none_iff {n : Nat} {line : Line} :
    ofLine? n line = none ↔ Line.isIgnorable (Text.trim line) = true := by
  simp [ofLine?]

theorem mem_ofLines {n : Nat} {lines : List Line} {e : Entry} (h : e ∈ ofLines n lines) :
    ∃ (i : Nat) (line : Line), lines[i]? = some line ∧ ofLine? (n + i) line = some e := by
  induction lines generalizing n with
  | nil => simp [ofLines] at h
  | cons x xs ih =>
    cases hx : ofLine? n x with
    | none =>
      rw [ofLines, hx] at h
      obtain ⟨i, line, hi, he⟩ := ih h
      exact ⟨i + 1, line, by simpa using hi, by rw [← he]; congr 1; omega⟩
    | some e' =>
      rw [ofLines, hx] at h
      rcases List.mem_cons.1 h with rfl | h
      · exact ⟨0, x, by simp, hx⟩
      · obtain ⟨i, line, hi, he⟩ := ih h
        exact ⟨i + 1, line, by simpa using hi, by rw [← he]; congr 1; omega⟩

end Entry

end ResourceGraph

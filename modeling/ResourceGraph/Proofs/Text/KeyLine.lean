import ResourceGraph.Proofs.Text.FirstLine
import ResourceGraph.Proofs.Text.Written

/-!
# Keys and the colons after them

A line is looked up by its key, and what is found is placed by the colon after the key, which is
told by the number of bytes before it (`Line.keyAt?`). White space may stand between a key and its
colon and counts for the place of the colon, but not for the key. A colon within a key is a part of
it if quotes are around the key, and otherwise if neither white space nor nothing follows the colon.

Proves: a key is read as it was written, with the place of its colon, and what is read as a key is
written before a colon at that place (`Line.keyAt?_written`).
-/

set_option autoImplicit false

namespace ResourceGraph

open Text

namespace Line

/-- The key of a line, and the byte at which the colon after it stands. -/
def keyAt? (content : Line) : Option (List Char × Nat) :=
  (key? content).map fun k => (k.key, bytes k.head)

theorem keyAt?_eq_some_iff {content : Line} {key : List Char} {i : Nat} :
    keyAt? content = some (key, i) ↔
      ∃ k, key? content = some k ∧ k.key = key ∧ bytes k.head = i := by
  rw [keyAt?, Option.map_eq_some_iff]
  simp only [Prod.mk.injEq]

theorem trimEnd_of_trim {cs : List Char} (h : trim cs = cs) : trimEnd cs = cs := by
  have htrim : trimEnd (trim cs) = trim cs := dropTail_dropTail isBlank (trimStart cs)
  rwa [h] at htrim

/-- **Keys are read as they are written.** A key between quotes that it does not hold is read back,
and so is a key without quotes that is not empty, has no white space at its ends, does not begin
with a quote and holds no separator, also not together with the white space after it. The byte that
comes with the key is the place of the colon. And whatever is read as a key, plain or quoted, is
followed by optional white space and then, at the byte that comes with it, by a colon with white
space or nothing after it. -/
theorem keyAt?_written :
    (∀ q key gap rest, isQuote q = true → q ∉ key → (∀ c ∈ gap, isBlank c = true) →
      StartsBlank rest →
      keyAt? (q :: key ++ q :: gap ++ ':' :: rest) = some (key, bytes (q :: key ++ q :: gap))) ∧
    (∀ key gap rest, key ≠ [] → trim key = key → (∀ c ∈ key.head?, isQuote c = false) →
      (∀ c ∈ gap, isBlank c = true) → ¬HoldsSeparator (key ++ gap) → StartsBlank rest →
      keyAt? (key ++ gap ++ ':' :: rest) = some (key, bytes (key ++ gap))) ∧
    ∀ content key i, keyAt? content = some (key, i) →
      ∃ written gap rest, content = written ++ gap ++ ':' :: rest ∧ i = bytes (written ++ gap) ∧
        IsWritten key written ∧ (∀ c ∈ gap, isBlank c = true) ∧ StartsBlank rest := by
  refine ⟨?_, ?_, ?_⟩
  · -- the quotes set the key off, so colons and white space within it do no harm
    intro q key gap rest hq hkey hgap hrest
    exact keyAt?_eq_some_iff.2 ⟨_, key?_quoted hq hkey hgap hrest, rfl, rfl⟩
  · intro key gap rest hne htrim hquote hgap hhead hrest
    have hread := key?_plain hne hquote (trimEnd_of_trim htrim) hgap hhead hrest
    exact keyAt?_eq_some_iff.2 ⟨_, hread, rfl, rfl⟩
  · intro content key i h
    obtain ⟨k, hread, rfl, rfl⟩ := keyAt?_eq_some_iff.1 h
    obtain ⟨written, gap, hhead, hwritten, hgap, hrest⟩ := of_key? hread
    refine ⟨written, gap, k.rest, ?_, congrArg bytes hhead, hwritten, hgap, hrest⟩
    rw [← hhead]
    exact key?_eq_some hread

theorem keyAt?_written_innerColons :
    keyAt? "\"größe: \" : 3".toList = some ("größe: ".toList, 12) ∧
      keyAt? "größe:breite\u2003: 3".toList = some ("größe:breite".toList, 17) ∧
      ∃ written gap rest, "größe:breite\u2003: 3".toList = written ++ gap ++ ':' :: rest ∧
        17 = bytes (written ++ gap) ∧ IsWritten "größe:breite".toList written ∧
        (∀ c ∈ gap, isBlank c = true) ∧ StartsBlank rest := by
  obtain ⟨hquoted, hplain, hback⟩ := keyAt?_written
  have hrest : StartsBlank " 3".toList := by
    rintro c hc
    obtain rfl := Option.some.inj hc
    decide
  have hquote : ∀ c ∈ "größe:breite".toList.head?, isQuote c = false := by
    rintro c hc
    obtain rfl := Option.some.inj hc
    decide
  have hwide : ∀ c ∈ "\u2003".toList, isBlank c = true := List.all_eq_true.1 (by decide)
  have hspace : ∀ c ∈ " ".toList, isBlank c = true := List.all_eq_true.1 (by decide)
  have hread : keyAt? "größe:breite\u2003: 3".toList = some ("größe:breite".toList, 17) := by
    apply hplain "größe:breite".toList "\u2003".toList " 3".toList
    · decide
    · decide
    · exact hquote
    · exact hwide
    · decide
    · exact hrest
  refine ⟨?_, hread, hback _ _ _ hread⟩
  apply hquoted '"' "größe: ".toList " ".toList " 3".toList
  · decide
  · decide
  · exact hspace
  · exact hrest

end Line

end ResourceGraph

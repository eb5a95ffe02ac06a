import ResourceGraph.Proofs.Layout.Block
import ResourceGraph.Proofs.Text.Written

/-!
# Words as keys

A word before a colon that ends the line or is followed by white space is the key of its line
(`key?_word`). A line that begins with a list marker has no word as its key (`key?_marked`).
-/

set_option autoImplicit false

namespace ResourceGraph

open Text

namespace FieldType

theorem isWordChar_iff {c : Char} : isWordChar c = true ↔
    65 ≤ c.toNat ∧ c.toNat ≤ 90 ∨ 97 ≤ c.toNat ∧ c.toNat ≤ 122 ∨ 48 ≤ c.toNat ∧ c.toNat ≤ 57 ∨
      c.toNat = 95 := by
  have hunderscore : c = '_' ↔ c.toNat = 95 := by
    constructor
    · rintro rfl
      rfl
    · intro h
      apply Char.toNat_inj.1
      rw [h]
      rfl
  show (((decide (65 ≤ c.val ∧ c.val ≤ 90) || (decide (97 ≤ c.val) && decide (c.val ≤ 122))) ||
    (decide (48 ≤ c.val) && decide (c.val ≤ 57))) || c == '_') = true ↔ _
  simp only [Bool.or_eq_true, Bool.and_eq_true, decide_eq_true_eq, beq_iff_eq,
    UInt32.le_iff_toNat_le, hunderscore, or_assoc]
  rfl

/-- A character of a word is not white space and has no meaning in the layout of a line. -/
theorem of_isWordChar {c : Char} (h : isWordChar c = true) :
    isBlank c = false ∧ c ∉ ['"', '\'', ':', '-', '#', '\n'] := by
  have hc := isWordChar_iff.1 h
  constructor
  · simp only [isBlank, inRanges, blankRanges, List.any_cons, List.any_nil, Bool.or_false,
      Bool.or_eq_false_iff, Bool.and_eq_false_iff, decide_eq_false_iff_not]
    omega
  · intro hmem
    simp only [List.mem_cons, List.not_mem_nil, or_false] at hmem
    rcases hmem with rfl | rfl | rfl | rfl | rfl | rfl <;> revert h <;> decide

end FieldType

namespace Block

theorem isWord_iff {cs : List Char} : isWord cs = true ↔
    cs ≠ [] ∧ ∀ c ∈ cs, FieldType.isWordChar c = true := by
  simp [isWord]

theorem exists_cons_of_isWord {cs : List Char} (h : isWord cs = true) :
    ∃ c rest, cs = c :: rest ∧ isBlank c = false ∧ c ∉ ['"', '\'', ':', '-', '#', '\n'] := by
  obtain ⟨hne, hall⟩ := isWord_iff.1 h
  obtain ⟨c, rest, rfl⟩ := List.exists_cons_of_ne_nil hne
  exact ⟨c, rest, rfl, FieldType.of_isWordChar (hall c (by simp))⟩

theorem exists_append_of_isWord {cs : List Char} (h : isWord cs = true) :
    ∃ before c, cs = before ++ [c] ∧ isBlank c = false := by
  obtain ⟨hne, hall⟩ := isWord_iff.1 h
  refine ⟨cs.dropLast, cs.getLast hne, (List.dropLast_concat_getLast hne).symm, ?_⟩
  exact (FieldType.of_isWordChar (hall _ (List.getLast_mem hne))).1

/-- A word does not begin as a list marker does. -/
theorem head?_ne_of_isWord {cs : List Char} (h : isWord cs = true) : cs.head? ≠ some '-' := by
  obtain ⟨c, rest, rfl, -, hc⟩ := exists_cons_of_isWord h
  simp only [List.mem_cons, not_or] at hc
  rw [List.head?_cons, Ne, Option.some.injEq]
  exact hc.2.2.2.1

theorem isSolid_of_isWord {cs : Line} (h : isWord cs = true) : cs.isSolid = true := by
  obtain ⟨c, rest, hcons, hblank, hc⟩ := exists_cons_of_isWord h
  simp only [List.mem_cons, not_or] at hc
  exact Line.isSolid_iff.2 ⟨⟨c, rest, hcons, hblank, hc.2.2.2.2.1⟩, exists_append_of_isWord h⟩

end Block

namespace Line

/-- A word before a separating colon is the key of its line. -/
theorem key?_word {word rest : List Char} (hword : Block.isWord word = true)
    (hrest : afterSeparator? (':' :: rest) = some rest) :
    key? (word ++ ':' :: rest) = some ⟨word, word, rest⟩ := by
  obtain ⟨c, tail, hcons, -, hc⟩ := Block.exists_cons_of_isWord hword
  obtain ⟨before, d, happend, hd⟩ := Block.exists_append_of_isWord hword
  have hquote : ∀ c ∈ word.head?, isQuote c = false := by
    rw [hcons]
    rintro c' hc'
    obtain rfl := Option.some.inj hc'
    simp only [List.mem_cons, not_or] at hc
    simp [isQuote, hc.1, hc.2.1]
  have hcolon : ':' ∉ word := by
    intro h
    exact (FieldType.of_isWordChar ((Block.isWord_iff.1 hword).2 _ h)).2 (by simp)
  have htrim : trimEnd word = word := by
    rw [happend]
    exact dropTail_append_singleton before hd
  -- nothing stands between a word and its colon
  have hkey := key?_plain (by simp [hcons]) hquote htrim (fun c hc => absurd hc List.not_mem_nil)
    (by rw [List.append_nil]; exact not_holdsSeparator_of_not_mem hcolon)
    (startsBlank_of_afterSeparator? hrest)
  rwa [List.append_nil] at hkey

/-- A key without quotes begins as its line does. -/
theorem head?_of_plainKey? {c : Char} {cs : List Char} {k : Key}
    (h : plainKey? (c :: cs) = some k) : k.key.head? = some c := by
  have hline := plainKey?_eq_some h
  unfold plainKey? at h
  split at h
  · simp at h
  · rename_i head rest _
    split at h
    · simp at h
    · rename_i hne
      simp only [Option.some.injEq] at h
      subst h
      -- the key is what stands before the colon, so it begins as the line does
      obtain ⟨tail, hhead, -⟩ := dropTail_append isBlank head
      obtain ⟨d, ds, hkey⟩ : ∃ d ds, trimEnd head = d :: ds :=
        List.exists_cons_of_ne_nil (by simpa using hne)
      simp only [trimEnd] at hkey hline ⊢
      rw [hhead, hkey] at hline
      simp only [List.cons_append, List.cons.injEq] at hline
      rw [hkey, List.head?_cons, ← hline.1]

/-- The key of a line that begins with a list marker begins with that marker. -/
theorem key?_marked {content : List Char} {k : Key} (h : key? ('-' :: ' ' :: content) = some k) :
    k.key.head? = some '-' :=
  head?_of_plainKey? h

/-- The key of a comment begins as the comment does. -/
theorem key?_comment {content : List Char} {k : Key} (h : key? ('#' :: content) = some k) :
    k.key.head? = some '#' :=
  head?_of_plainKey? h

theorem key_ne_of_marked {content name : List Char} (hname : name.head? ≠ some '-') {k : Key}
    (hk : key? ('-' :: ' ' :: content) = some k) : k.key ≠ name := by
  rintro rfl
  exact hname (key?_marked hk)

theorem item?_marked {content : Line} (h : content.isSolid = true) :
    item? ('-' :: ' ' :: content) = some ⟨content, 2⟩ := by
  obtain ⟨c, rest, rfl, hc, -⟩ := (isSolid_iff.1 h).1
  have hindent := isIndent_of_not_isBlank hc
  have hspace : charUnits ' ' = 1 := by decide
  simp [item?, hindent, units, hspace, show isIndent ' ' = true by decide]

end Line

end ResourceGraph

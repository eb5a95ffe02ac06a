import Mathlib.Data.List.TakeWhile
import ResourceGraph.Proofs.Text.Solid
import ResourceGraph.Text.Entry

/-!
# What is written on a line

How keys and list markers stand in the text they are read from. A key is written as it is or between
quotes, white space may follow it, and then comes a colon with nothing or white space after it
(`Line.of_key?`). What is written so is read back: between quotes any key that does not hold them
(`Line.key?_quoted`), without quotes one in which no colon would end it before (`Line.key?_plain`).
A marker is a dash with nothing or a space or tab after it (`Line.of_item?`). The
content of an entry is what stands between the indentation of its line and the white space at its
end, if the text of the line begins right after its indentation (`Entry.of_ofLine?`).
-/

set_option autoImplicit false

namespace ResourceGraph

open Text

namespace Text

/-- A text that is empty or begins with white space. -/
def StartsBlank (cs : List Char) : Prop := ∀ c ∈ cs.head?, isBlank c = true

theorem head?_dropWhile_eq_false {α : Type} {p : α → Bool} {as : List α} {a : α}
    (h : a ∈ (as.dropWhile p).head?) : p a = false := by
  have hnot := List.head?_dropWhile_not p as
  rw [Option.mem_def.1 h] at hnot
  exact hnot

theorem startsBlank_of_forall {cs : List Char} (h : ∀ c ∈ cs, isBlank c = true) :
    StartsBlank cs := by
  intro c hc
  exact h c (List.mem_of_mem_head? hc)

theorem StartsBlank.append {as bs : List Char} (has : StartsBlank as) (hbs : StartsBlank bs) :
    StartsBlank (as ++ bs) := by
  cases as with
  | nil => exact hbs
  | cons a as => exact has

end Text

namespace Line

variable {content : Line}

/-! ## Keys -/

/-- How a key is written: as it is, or between two quotes of a kind that it does not hold. -/
inductive IsWritten (key : List Char) : List Char → Prop
  | plain : key ≠ [] → IsWritten key key
  | quoted {q : Char} : isQuote q = true → q ∉ key → IsWritten key (q :: key ++ [q])

/-- Whether a key is what is written before its colon, up to white space, and nothing or white space
stands after the colon. -/
def Key.IsWellWritten (k : Key) : Prop :=
  ∃ written gap, k.head = written ++ gap ∧ IsWritten k.key written ∧
    (∀ c ∈ gap, isBlank c = true) ∧ StartsBlank k.rest

theorem startsBlank_of_afterSeparator? {cs rest : List Char}
    (h : afterSeparator? cs = some rest) : StartsBlank rest := by
  unfold afterSeparator? at h
  split at h
  · obtain rfl := Option.some.inj h
    exact startsBlank_of_forall (by simp)
  · split at h
    · rename_i hblank
      obtain rfl := Option.some.inj h
      intro d hd
      obtain rfl := Option.some.inj hd
      exact hblank
    · exact absurd h.symm (Option.some_ne_none rest)
  · exact absurd h.symm (Option.some_ne_none rest)

theorem startsBlank_of_splitAtSeparator? {cs head rest : List Char}
    (h : splitAtSeparator? cs = some (head, rest)) : StartsBlank rest := by
  induction cs generalizing head with
  | nil => simp [splitAtSeparator?] at h
  | cons c cs ih =>
    unfold splitAtSeparator? at h
    split at h
    · rename_i after hafter
      simp only [Option.some.injEq, Prod.mk.injEq] at h
      obtain ⟨-, rfl⟩ := h
      exact startsBlank_of_afterSeparator? hafter
    · obtain ⟨⟨head', rest'⟩, hsplit, heq⟩ := Option.map_eq_some_iff.1 h
      simp only [Prod.mk.injEq] at heq
      obtain ⟨-, rfl⟩ := heq
      exact ih hsplit

theorem afterSeparator?_eq_some_iff {cs rest : List Char} :
    afterSeparator? cs = some rest ↔ cs = ':' :: rest ∧ StartsBlank rest := by
  constructor
  · intro h
    exact ⟨afterSeparator?_eq_some h, startsBlank_of_afterSeparator? h⟩
  · rintro ⟨rfl, hrest⟩
    cases rest with
    | nil => rfl
    | cons c cs => exact if_pos (hrest c rfl)

/-- Whether a text holds a colon that would separate a key in it: one that ends the text or is
followed by white space. -/
def HoldsSeparator (cs : List Char) : Prop :=
  ∃ before after, cs = before ++ ':' :: after ∧ StartsBlank after

theorem not_holdsSeparator_of_not_mem {cs : List Char} (h : ':' ∉ cs) : ¬HoldsSeparator cs := by
  rintro ⟨before, after, rfl, -⟩
  exact h (List.mem_append_right before List.mem_cons_self)

/-- A line is cut exactly if there is a separator to cut it at. -/
theorem holdsSeparator_iff {cs : List Char} :
    HoldsSeparator cs ↔ (splitAtSeparator? cs).isSome = true := by
  induction cs with
  | nil => simp [HoldsSeparator, splitAtSeparator?]
  | cons c cs ih =>
    rw [splitAtSeparator?]
    cases hfirst : afterSeparator? (c :: cs) with
    | some rest =>
      obtain ⟨hcons, hblank⟩ := afterSeparator?_eq_some_iff.1 hfirst
      exact iff_of_true ⟨[], rest, hcons, hblank⟩ rfl
    | none =>
      rw [Option.isSome_map, ← ih]
      constructor
      · rintro ⟨before, after, hcs, hblank⟩
        cases before with
        | nil =>
          rw [afterSeparator?_eq_some_iff.2 ⟨hcs, hblank⟩] at hfirst
          exact absurd hfirst (Option.some_ne_none after)
        | cons d before =>
          obtain ⟨rfl, rfl⟩ := List.cons.inj hcs
          exact ⟨before, after, rfl, hblank⟩
      · rintro ⟨before, after, rfl, hblank⟩
        exact ⟨c :: before, after, rfl, hblank⟩

instance (cs : List Char) : Decidable (HoldsSeparator cs) :=
  decidable_of_iff _ holdsSeparator_iff.symm

/-- A text without separators is what stands before the first separator after it. -/
theorem splitAtSeparator?_append {head rest : List Char} (hhead : ¬HoldsSeparator head)
    (hrest : StartsBlank rest) :
    splitAtSeparator? (head ++ ':' :: rest) = some (head, rest) := by
  induction head with
  | nil =>
    rw [List.nil_append, splitAtSeparator?, afterSeparator?_eq_some_iff.2 ⟨rfl, hrest⟩]
  | cons c head ih =>
    -- a separator at the front of the whole text is one of the head as well
    have hnone : afterSeparator? (c :: (head ++ ':' :: rest)) = none := by
      rw [Option.eq_none_iff_forall_ne_some]
      intro found hfound
      obtain ⟨hcons, hblank⟩ := afterSeparator?_eq_some_iff.1 hfound
      obtain ⟨rfl, rfl⟩ := List.cons.inj hcons
      cases head with
      | nil => exact hhead ⟨[], [], rfl, startsBlank_of_forall (by simp)⟩
      | cons d head => exact hhead ⟨[], d :: head, rfl, hblank⟩
    have htail : ¬HoldsSeparator head := by
      rintro ⟨before, after, rfl, hblank⟩
      exact hhead ⟨c :: before, after, rfl, hblank⟩
    rw [List.cons_append, splitAtSeparator?, hnone, ih htail]
    rfl

/-- A key between quotes that it does not hold is read back. -/
theorem key?_quoted {q : Char} {key gap rest : List Char} (hq : isQuote q = true) (hkey : q ∉ key)
    (hgap : ∀ c ∈ gap, isBlank c = true) (hrest : StartsBlank rest) :
    key? (q :: key ++ q :: gap ++ ':' :: rest) = some ⟨key, q :: key ++ q :: gap, rest⟩ := by
  have hline : q :: key ++ q :: gap ++ ':' :: rest = q :: (key ++ q :: (gap ++ ':' :: rest)) := by
    simp
  have hcolon : isBlank ':' = false := by decide
  have htake : (gap ++ ':' :: rest).takeWhile isBlank = gap := by
    rw [List.takeWhile_append_of_pos hgap, List.takeWhile_cons_of_neg (by simp [hcolon]),
      List.append_nil]
  have hdrop : (gap ++ ':' :: rest).dropWhile isBlank = ':' :: rest := by
    rw [List.dropWhile_append_of_pos hgap, List.dropWhile_cons_of_neg (by simp [hcolon])]
  rw [hline, key?, if_pos hq, quotedKey?, cutAt?_append hkey]
  simp only [htake, hdrop, afterSeparator?_eq_some_iff.2 ⟨rfl, hrest⟩, Option.map_some]

/-- A key without quotes is read back if there is no separator before the colon that is written
after it. -/
theorem key?_plain {key gap rest : List Char} (hne : key ≠ [])
    (hquote : ∀ c ∈ key.head?, isQuote c = false) (htrim : trimEnd key = key)
    (hgap : ∀ c ∈ gap, isBlank c = true) (hhead : ¬HoldsSeparator (key ++ gap))
    (hrest : StartsBlank rest) :
    key? (key ++ gap ++ ':' :: rest) = some ⟨key, key ++ gap, rest⟩ := by
  have hplain : plainKey? (key ++ gap ++ ':' :: rest) = some ⟨key, key ++ gap, rest⟩ := by
    have hkey : trimEnd (key ++ gap) = key := by rw [trimEnd_append_blank key hgap, htrim]
    rw [plainKey?, splitAtSeparator?_append hhead hrest]
    simp only [hkey, List.isEmpty_iff, if_neg hne]
  obtain ⟨c, cs, rfl⟩ := List.exists_cons_of_ne_nil hne
  have hc : isQuote c = false := hquote c rfl
  rw [← hplain]
  show (if isQuote c then _ else _) = _
  rw [hc]
  rfl

theorem of_quotedKey? {q : Char} {cs : List Char} {k : Key} (hq : isQuote q = true)
    (h : quotedKey? q cs = some k) : k.IsWellWritten := by
  unfold quotedKey? at h
  split at h
  · exact absurd h.symm (Option.some_ne_none k)
  · rename_i inner after hcut
    obtain ⟨rest, hseparator, rfl⟩ := Option.map_eq_some_iff.1 h
    refine ⟨q :: inner ++ [q], after.takeWhile isBlank, ?_, ?_, ?_, ?_⟩
    · simp
    · exact .quoted hq (not_mem_of_cutAt? hcut)
    · intro c hc
      exact List.mem_takeWhile_imp hc
    · exact startsBlank_of_afterSeparator? hseparator

theorem of_plainKey? {cs : List Char} {k : Key} (h : plainKey? cs = some k) :
    k.IsWellWritten := by
  unfold plainKey? at h
  split at h
  · exact absurd h.symm (Option.some_ne_none k)
  · rename_i head rest hsplit
    split at h
    · exact absurd h.symm (Option.some_ne_none k)
    · rename_i hne
      obtain rfl := Option.some.inj h
      obtain ⟨gap, hhead, hgap⟩ := dropTail_append isBlank head
      refine ⟨trimEnd head, gap, hhead, .plain ?_, hgap, startsBlank_of_splitAtSeparator? hsplit⟩
      rwa [List.isEmpty_iff] at hne

theorem of_key? {k : Key} (h : key? content = some k) : k.IsWellWritten := by
  cases content with
  | nil => simp [key?] at h
  | cons c cs =>
    rw [key?] at h
    split at h
    · rename_i hquote
      exact of_quotedKey? hquote h
    · exact of_plainKey? h

/-! ## Markers -/

/-- A marker is a dash with its blanks, and no blank follows these. Without blanks there is no body.
-/
theorem of_item? {item : Item} (h : item? content = some item) :
    ∃ blanks, content = '-' :: blanks ++ item.body ∧ item.offset = 1 + units blanks ∧
      (∀ c ∈ blanks, isIndent c = true) ∧ (∀ c ∈ item.body.head?, isIndent c = false) ∧
      (blanks = [] → item.body = []) := by
  unfold item? at h
  split at h
  · obtain rfl := Option.some.inj h
    exact ⟨[], rfl, rfl, by simp, by simp, fun _ => rfl⟩
  · rename_i c cs
    split at h
    · rename_i hindent
      obtain rfl := Option.some.inj h
      refine ⟨(c :: cs).takeWhile isIndent, ?_, rfl, ?_, ?_, ?_⟩
      · rw [List.cons_append, List.takeWhile_append_dropWhile]
      · intro d hd
        exact List.mem_takeWhile_imp hd
      · intro d hd
        exact head?_dropWhile_eq_false hd
      · intro hnil
        simp [hindent] at hnil
    · exact absurd h.symm (Option.some_ne_none item)
  · exact absurd h.symm (Option.some_ne_none item)

/-! ## Entries -/

/-- A line whose text begins right after its indentation: no white space other than spaces and tabs
stands there, unless the line holds nothing else. -/
def IsFlush (line : Line) : Prop :=
  (∀ c ∈ line, isBlank c = true) ∨ ∀ c ∈ (line.dropWhile isIndent).head?, isBlank c = false

theorem isFlush_iff {line : Line} : line.IsFlush ↔ line.all isBlank = true ∨
    ((line.dropWhile isIndent).head?.all fun c => !isBlank c) = true := by
  apply or_congr List.all_eq_true.symm
  cases (line.dropWhile isIndent).head? with
  | none => simp
  | some c => simp

instance (line : Line) : Decidable line.IsFlush := decidable_of_iff _ isFlush_iff.symm

/-- Trimming the start of a line whose text begins right after its indentation takes the indentation
off and nothing else. -/
theorem trimStart_of_isFlush {line : Line} (hflush : line.IsFlush) (hne : trimStart line ≠ []) :
    trimStart line = line.dropWhile isIndent := by
  have hfirst : ∀ c ∈ (line.dropWhile isIndent).head?, isBlank c = false := by
    rcases hflush with hblank | hfirst
    · -- of a blank line nothing is left
      have hnil : trimStart line = [] := List.dropWhile_eq_nil_iff.2 hblank
      exact absurd hnil hne
    · exact hfirst
  have hindent : ∀ c ∈ line.takeWhile isIndent, isBlank c = true := by
    intro c hc
    exact isBlank_of_isIndent (List.mem_takeWhile_imp hc)
  calc trimStart line
      = (line.takeWhile isIndent ++ line.dropWhile isIndent).dropWhile isBlank := by
        rw [List.takeWhile_append_dropWhile, trimStart]
    _ = (line.dropWhile isIndent).dropWhile isBlank := List.dropWhile_append_of_pos hindent
    _ = line.dropWhile isIndent := by
        cases hrest : line.dropWhile isIndent with
        | nil => rfl
        | cons c cs =>
          rw [hrest] at hfirst
          exact List.dropWhile_cons_of_neg (Bool.not_eq_true _ ▸ hfirst c rfl)

end Line

/-- The content of an entry stands on its line between the indentation and the white space at the
end. -/
theorem Entry.of_ofLine? {n : Nat} {line : Line} {e : Entry} (hflush : line.IsFlush)
    (h : Entry.ofLine? n line = some e) :
    Line.isIgnorable (trim line) = false ∧ ∃ indent tail, line = indent ++ e.content ++ tail ∧
      e.indent = units indent ∧ (∀ c ∈ indent, isIndent c = true) ∧
      (∀ c ∈ e.content.head?, isIndent c = false) ∧ ∀ c ∈ tail, isBlank c = true := by
  rw [Entry.ofLine?] at h
  split at h
  · exact absurd h.symm (Option.some_ne_none e)
  · rename_i hkeep
    obtain rfl := Option.some.inj h
    rw [Bool.not_eq_true] at hkeep
    have hne : trimStart line ≠ [] := by
      intro hnil
      rw [trim, hnil] at hkeep
      exact absurd hkeep (by decide)
    have hstart := Line.trimStart_of_isFlush hflush hne
    obtain ⟨tail, hsplit, htail⟩ := dropTail_append isBlank (trimStart line)
    refine ⟨hkeep, line.takeWhile isIndent, tail, ?_, rfl, ?_, ?_, htail⟩
    · show line = line.takeWhile isIndent ++ dropTail isBlank (trimStart line) ++ tail
      rw [List.append_assoc, ← hsplit, hstart, List.takeWhile_append_dropWhile]
    · intro c hc
      exact List.mem_takeWhile_imp hc
    · -- the content begins as the text after the indentation does
      intro c hc
      have hc' : c ∈ (trimStart line).head? := by
        rw [hsplit, List.head?_append]
        exact Option.or_eq_some_iff.2 (Or.inl hc)
      rw [hstart] at hc'
      exact head?_dropWhile_eq_false hc'

end ResourceGraph

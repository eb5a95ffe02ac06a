import ResourceGraph.Proofs.Text.Displacement

/-!
# Values on a line

After the colon of a key a line may hold a scalar, plain or in quotes, and a comment apart from it
(`Line.Value`). Reading a value drops the blanks before it first, then cuts the text at its first
space with a number sign after it, and then drops white space at the end.

Proves: a scalar is read whole and without its comment exactly if no space in it has a number sign
after it, it does not end in white space, and a comment follows it only if there is a scalar and the
comment is behind a space. In all other cases it is told what is read instead, a cut scalar or the
comment itself (`Source.valueAt?_written`).
-/

set_option autoImplicit false

namespace ResourceGraph

open Text

/-! ## Cutting comments -/

namespace Text

/-- What is taken for the beginning of a comment. -/
def commentMark : List Char := [' ', '#']

theorem fromColumn_units (left right : List Char) :
    fromColumn (units left) (left ++ right) = right := by
  induction left with
  | nil => cases right <;> simp [units, fromColumn]
  | cons c left ih =>
    have hpos := charUnits_pos c
    have hne : ¬ charUnits c + units left = 0 := by omega
    -- a character takes at least one column, so the cut lies behind it
    rw [List.cons_append, units, fromColumn, if_neg hne, Nat.add_sub_cancel_left, ih]

theorem not_marked_of_not_mem {cs : List Char} (h : '#' ∉ cs) : ¬ commentMark <:+: cs := by
  intro hmark
  exact h (hmark.subset (by simp [commentMark]))

/-- A text without a comment mark stays before what the rest is cut to, unless the mark is half in
the one and half in the other. -/
theorem cutComment_append {kept rest : List Char} (hkept : ¬ commentMark <:+: kept)
    (hrest : kept.getLast? = some ' ' → rest.head? ≠ some '#') :
    cutComment (kept ++ rest) = kept ++ cutComment rest := by
  induction kept with
  | nil => rfl
  | cons c kept ih =>
    have hcut : c = ' ' → (kept ++ rest).head? ≠ some '#' := by
      rintro rfl hhead
      cases kept with
      | nil => exact hrest rfl hhead
      | cons d kept =>
        obtain rfl : d = '#' := Option.some.inj hhead
        exact hkept ⟨[], kept, rfl⟩
    have hlast : kept.getLast? = some ' ' → rest.head? ≠ some '#' := by
      intro hkeptLast
      apply hrest
      cases kept with
      | nil => simp at hkeptLast
      | cons d kept => rwa [List.getLast?_cons_cons]
    rw [List.cons_append, cutComment_cons hcut, ih (fun h => hkept (List.infix_cons h)) hlast,
      List.cons_append]

theorem cutComment_of_unmarked {cs : List Char} (h : ¬ commentMark <:+: cs) :
    cutComment cs = cs := by
  have hcut : cutComment (cs ++ []) = cs ++ cutComment [] := cutComment_append h (by simp)
  rwa [List.append_nil, cutComment, List.append_nil] at hcut

theorem cutComment_of_not_mem {cs : List Char} (h : '#' ∉ cs) : cutComment cs = cs :=
  cutComment_of_unmarked (not_marked_of_not_mem h)

/-- A text is cut at its first comment mark. -/
theorem cutComment_append_mark {kept : List Char} (h : ¬ commentMark <:+: kept)
    (lost : List Char) : cutComment (kept ++ ' ' :: '#' :: lost) = kept := by
  rw [cutComment_append h (by simp), cutComment, List.append_nil]

theorem cutComment_hash (cs : List Char) : cutComment ('#' :: cs) = '#' :: cutComment cs :=
  cutComment_cons (by simp)

/-- Before a number sign no white space is at the end of the line. -/
theorem trimEnd_append_hash (before after : List Char) :
    trimEnd (before ++ '#' :: after) = before ++ '#' :: trimEnd after :=
  dropTail_append_cons (by decide) before after

/-- A text with a comment mark has a first one. -/
theorem exists_first_mark {cs : List Char} (h : commentMark <:+: cs) :
    ∃ kept lost, cs = kept ++ ' ' :: '#' :: lost ∧ ¬ commentMark <:+: kept := by
  induction cs using cutComment.induct with
  | case1 => simp [commentMark] at h
  | case2 rest => exact ⟨[], rest, rfl, by simp [commentMark]⟩
  | case3 c cs hother ih =>
    have hcs : commentMark <:+: cs := by
      refine (List.infix_cons_iff.1 h).resolve_left ?_
      rintro ⟨rest, hrest⟩
      obtain ⟨rfl, rfl⟩ := List.cons.inj hrest
      exact hother rest rfl rfl
    obtain ⟨kept, lost, rfl, hkept⟩ := ih hcs
    refine ⟨c :: kept, lost, rfl, ?_⟩
    intro hmark
    refine hkept ((List.infix_cons_iff.1 hmark).resolve_left ?_)
    -- a mark at the front would be one at the front of the whole text
    rintro ⟨rest, hrest⟩
    obtain ⟨rfl, rfl⟩ := List.cons.inj hrest
    exact hother (rest ++ ' ' :: '#' :: lost) rfl rfl

theorem trimEnd_eq_self_iff {cs : List Char} :
    trimEnd cs = cs ↔ ∀ c ∈ cs.getLast?, isBlank c = false := by
  rcases List.eq_nil_or_concat cs with rfl | ⟨before, c, rfl⟩
  · simp [trimEnd, dropTail]
  · rw [List.concat_eq_append, List.getLast?_concat]
    constructor
    · intro htrim d hd
      obtain rfl := Option.some.inj hd
      rw [← Bool.not_eq_true]
      intro hblank
      -- white space at the end would be dropped, and the text would be shorter
      have hgap : ∀ d ∈ [c], isBlank d = true := by simpa using hblank
      rw [trimEnd_append_blank before hgap] at htrim
      have hle := (dropTail_sublist isBlank before).length_le
      have hlen := congrArg List.length htrim
      rw [List.length_append, List.length_singleton, trimEnd] at hlen
      omega
    · intro hlast
      exact dropTail_append_singleton before (hlast c rfl)

end Text

/-! ## Scalars with comments -/

namespace Line

/-- What may be written as a scalar on one line: nothing, plain text, or any text in quotes. -/
inductive IsScalar : List Char → Prop
  | nothing : IsScalar []
  | plain {c : Char} {cs : List Char} : isIndent c = false → isQuote c = false → c ≠ '#' →
    (∀ d ∈ (c :: cs).getLast?, isIndent d = false) →
    (∀ d, isIndent d = true → ¬ [d, '#'] <:+: c :: cs) → IsScalar (c :: cs)
  | quoted {q : Char} (inner : List Char) : isQuote q = true → IsScalar (q :: (inner ++ [q]))

/-- A comment: the blanks before it, of which there is one at least, and the text after its number
sign. -/
structure Comment where
  gap : List Char
  text : List Char
  gap_ne_nil : gap ≠ []
  gap_indent : ∀ c ∈ gap, isIndent c = true

/-- What stands after the colon of a key: blanks, a scalar, and perhaps a comment. -/
structure Value where
  gap : List Char
  scalar : List Char
  comment : Option Comment
  gap_indent : ∀ c ∈ gap, isIndent c = true
  isScalar : IsScalar scalar

/-- How a comment is written. -/
def Comment.written (c : Comment) : List Char := c.gap ++ '#' :: c.text

namespace Value

/-- How a value is written. -/
def written (v : Value) : List Char :=
  v.gap ++ (v.scalar ++ (v.comment.map Comment.written).getD [])

/-- The blanks before the scalar; where there is none, all blanks before the comment. -/
def blanks (v : Value) : List Char :=
  if v.scalar = [] then v.gap ++ (v.comment.map Comment.gap).getD [] else v.gap

/-- Whether nothing makes the scalar come out cut or with the comment: no comment mark is in it, no
white space ends it, and a comment after it begins with a comment mark. A comment where the scalar
would be does not, since the blanks before it are those before the value. -/
structure IsReadWhole (v : Value) : Prop where
  unmarked : ¬ commentMark <:+: v.scalar
  solid : ∀ c ∈ v.scalar.getLast?, isBlank c = false
  spaced : ∀ c ∈ v.comment, v.scalar ≠ [] ∧ c.gap.getLast? = some ' '

end Value

variable {v : Value}

/-- A scalar does not begin with a blank. -/
theorem IsScalar.takeWhile_append {scalar : List Char} (h : IsScalar scalar) (hne : scalar ≠ [])
    (rest : List Char) : (scalar ++ rest).takeWhile isIndent = [] := by
  cases h with
  | nothing => exact absurd rfl hne
  | plain hc => simp [hc]
  | @quoted q inner hq =>
    have hindent : isIndent q = false := by
      simp only [isQuote, Bool.or_eq_true, beq_iff_eq] at hq
      rcases hq with rfl | rfl <;> decide
    simp [hindent]

/-- What is read of a value before it is cut: the comment if there is no scalar. -/
def Value.body (v : Value) : List Char :=
  if v.scalar = [] then (v.comment.map fun c => '#' :: c.text).getD []
  else v.scalar ++ (v.comment.map Comment.written).getD []

theorem Value.blanks_append_body (v : Value) : v.written = v.blanks ++ v.body := by
  rw [written, blanks, body]
  split
  · rename_i hnone
    rw [hnone]
    cases v.comment with
    | none => simp
    | some c => simp [Comment.written]
  · rfl

theorem Value.isIndent_of_mem_blanks (v : Value) : ∀ c ∈ v.blanks, isIndent c = true := by
  rw [blanks]
  split
  · cases hcomment : v.comment with
    | none => simpa using v.gap_indent
    | some c => exact List.forall_mem_append.2 ⟨v.gap_indent, c.gap_indent⟩
  · exact v.gap_indent

theorem Value.takeWhile_body (v : Value) : v.body.takeWhile isIndent = [] := by
  rw [body]
  split
  · cases v.comment with
    | none => rfl
    | some c => rfl
  · rename_i hne
    exact v.isScalar.takeWhile_append hne _

/-! ## What is read -/

namespace Value

/-- What is read of a value. -/
def read (v : Value) : List Char := trimEnd (cutComment v.body)

theorem body_of_ne_nil (h : v.scalar ≠ []) :
    v.body = v.scalar ++ (v.comment.map Comment.written).getD [] := if_neg h

/-- A comment mark in the scalar cuts it. -/
theorem read_of_marked {kept lost : List Char} (hscalar : v.scalar = kept ++ ' ' :: '#' :: lost)
    (hkept : ¬ commentMark <:+: kept) : v.read = trimEnd kept := by
  have hne : v.scalar ≠ [] := by simp [hscalar]
  rw [read, body_of_ne_nil hne, hscalar, List.append_assoc, List.cons_append, List.cons_append,
    cutComment_append_mark hkept]

/-- A comment in the place of the scalar is read as the value. -/
theorem read_of_nil {c : Comment} (h : v.comment = some c) (hscalar : v.scalar = []) :
    v.read = '#' :: trimEnd (cutComment c.text) := by
  have hbody : v.body = '#' :: c.text := by rw [body, if_pos hscalar, h]; rfl
  rw [read, hbody, cutComment_hash]
  exact trimEnd_append_hash [] _

/-- A comment behind a space is left out. -/
theorem read_of_spaced (hscalar : ¬ commentMark <:+: v.scalar)
    (h : ∀ c ∈ v.comment, v.scalar ≠ [] ∧ c.gap.getLast? = some ' ') :
    v.read = trimEnd v.scalar := by
  cases hcomment : v.comment with
  | none =>
    have hbody : v.body = v.scalar := by
      rw [body, hcomment]
      split <;> simp_all
    rw [read, hbody, cutComment_of_unmarked hscalar]
  | some c =>
    obtain ⟨hne, hgap⟩ := h c hcomment
    obtain ⟨blanks, hblanks⟩ := List.getLast?_eq_some_iff.1 hgap
    have hindent : ∀ d ∈ blanks, isIndent d = true := by
      intro d hd
      exact c.gap_indent d (by simp [hblanks, hd])
    have hhash : '#' ∉ blanks := fun hmem => absurd (hindent '#' hmem) (by decide)
    -- the blanks before the last space stay behind the scalar, and are dropped at the end
    have hcut : cutComment v.body = v.scalar ++ blanks := by
      rw [body_of_ne_nil hne, hcomment, Option.map_some, Option.getD_some, Comment.written,
        hblanks, List.append_assoc, List.singleton_append, cutComment_append hscalar,
        cutComment_append_mark (not_marked_of_not_mem hhash)]
      intro _ hhead
      cases blanks with
      | nil => simp at hhead
      | cons d blanks => exact hhash (by simpa using Or.inl hhead.symm)
    rw [read, hcut, trimEnd_append_blank _ fun d hd => isBlank_of_isIndent (hindent d hd)]

/-- A comment behind a tab is read with the scalar. -/
theorem read_of_tabbed {c : Comment} (hscalar : ¬ commentMark <:+: v.scalar)
    (h : v.comment = some c) (hne : v.scalar ≠ []) (hgap : c.gap.getLast? ≠ some ' ') :
    v.read = v.scalar ++ c.gap ++ '#' :: trimEnd (cutComment c.text) := by
  have hhash : '#' ∉ c.gap := fun hmem => absurd (c.gap_indent '#' hmem) (by decide)
  have hcut : cutComment v.body = v.scalar ++ c.gap ++ '#' :: cutComment c.text := by
    rw [body_of_ne_nil hne, h, Option.map_some, Option.getD_some, Comment.written,
      cutComment_append hscalar, cutComment_append (not_marked_of_not_mem hhash) (by simp [hgap]),
      cutComment_hash, List.append_assoc]
    intro _ hhead
    obtain ⟨d, gap, hcons⟩ := List.exists_cons_of_ne_nil c.gap_ne_nil
    exact hhash (by simp_all)
  rw [read, hcut, trimEnd_append_hash]

theorem read_eq_scalar_iff : v.read = v.scalar ↔ v.IsReadWhole := by
  constructor
  · intro hread
    have hunmarked : ¬ commentMark <:+: v.scalar := by
      intro hmark
      -- a cut scalar is shorter
      obtain ⟨kept, lost, hscalar, hkept⟩ := exists_first_mark hmark
      rw [read_of_marked hscalar hkept] at hread
      have hle := (dropTail_sublist isBlank kept).length_le
      have hlen := congrArg List.length (hread.trans hscalar)
      simp only [trimEnd, List.length_append, List.length_cons] at hlen
      omega
    have hspaced : ∀ c ∈ v.comment, v.scalar ≠ [] ∧ c.gap.getLast? = some ' ' := by
      intro c hc
      have hne : v.scalar ≠ [] := by
        intro hnil
        rw [read_of_nil hc hnil, hnil] at hread
        simp at hread
      refine ⟨hne, ?_⟩
      apply Decidable.byContradiction
      intro hgap
      -- a scalar with a comment is longer
      rw [read_of_tabbed hunmarked hc hne hgap] at hread
      have hlen := congrArg List.length hread
      simp only [List.length_append, List.length_cons] at hlen
      omega
    rw [read_of_spaced hunmarked hspaced] at hread
    exact ⟨hunmarked, trimEnd_eq_self_iff.1 hread, hspaced⟩
  · rintro ⟨hunmarked, hsolid, hspaced⟩
    rw [read_of_spaced hunmarked hspaced, trimEnd_eq_self_iff.2 hsolid]

/-- Past the colon the line holds the blanks and what is read. -/
theorem scalar_written (before : List Char) (v : Value) :
    Line.scalar (units before + 1) (before ++ ':' :: v.written) = (units v.blanks, v.read) := by
  have hcolumn : units before + 1 = units (before ++ [':']) := by
    rw [units_append]
    rfl
  have hcut := fromColumn_units (before ++ [':']) v.written
  rw [← hcolumn, ← List.append_cons, blanks_append_body] at hcut
  have hdrop : v.body.dropWhile isIndent = v.body := by
    have hsplit := List.takeWhile_append_dropWhile (p := isIndent) (l := v.body)
    rwa [takeWhile_body, List.nil_append] at hsplit
  simp only [Line.scalar, blanks_append_body, hcut,
    List.takeWhile_append_of_pos v.isIndent_of_mem_blanks,
    List.dropWhile_append_of_pos v.isIndent_of_mem_blanks, takeWhile_body, hdrop, List.append_nil,
    read]

end Value

end Line

/-- **A written value is read whole and without its comment exactly if nothing in it or after it is
mistaken.** It is told from its first character on, and where there is none from the end of the
blanks on. A comment mark in a scalar, which only one in quotes holds, cuts it there. A comment
without a scalar is read as the value, one behind a tab is read with the scalar, and otherwise what
is read is the scalar without the white space at its end. -/
theorem Source.valueAt?_written {s : Source} {n : Nat} {before : List Char} {v : Line.Value}
    (hline : s.line? n = some (before ++ ':' :: v.written)) :
    ∃ value, s.valueAt? ⟨n, units before + 1⟩ =
        some (⟨n, units before + 1 + units v.blanks⟩, value) ∧
      (value = v.scalar ↔ v.IsReadWhole) ∧
      (∀ kept lost, v.scalar = kept ++ ' ' :: '#' :: lost → ¬ commentMark <:+: kept →
        value = trimEnd kept) ∧
      (∀ c ∈ v.comment, v.scalar = [] → value = '#' :: trimEnd (cutComment c.text)) ∧
      (¬ commentMark <:+: v.scalar →
        (∀ c ∈ v.comment, v.scalar ≠ [] → c.gap.getLast? ≠ some ' ' →
          value = v.scalar ++ c.gap ++ '#' :: trimEnd (cutComment c.text)) ∧
        ((∀ c ∈ v.comment, v.scalar ≠ [] ∧ c.gap.getLast? = some ' ') →
          value = trimEnd v.scalar)) := by
  refine ⟨v.read, ?_, Line.Value.read_eq_scalar_iff, fun kept lost => Line.Value.read_of_marked,
    fun c hc => Line.Value.read_of_nil hc, fun hunmarked =>
    ⟨fun c hc => Line.Value.read_of_tabbed hunmarked hc, Line.Value.read_of_spaced hunmarked⟩⟩
  rw [valueAt?_eq, hline, Option.map_some, Line.Value.scalar_written]
  rfl

namespace Line.Value

/-- A quoted scalar that holds a comment mark. -/
def marked : Value where
  gap := [' ']
  scalar := '"' :: ("x #1".toList ++ ['"'])
  comment := none
  gap_indent := List.all_eq_true.1 (by decide)
  isScalar := .quoted "x #1".toList (by decide)

/-- A comment without a scalar. -/
def commentAlone : Value where
  gap := [' ']
  scalar := []
  comment := some ⟨[' '], " main".toList, by decide, List.all_eq_true.1 (by decide)⟩
  gap_indent := List.all_eq_true.1 (by decide)
  isScalar := .nothing

/-- A quoted scalar with a comment behind a tab. -/
def tabbed : Value where
  gap := [' ', '\t']
  scalar := '\'' :: ("é".toList ++ ['\''])
  comment := some ⟨[' ', '\t'], " main # db".toList, by decide, List.all_eq_true.1 (by decide)⟩
  gap_indent := List.all_eq_true.1 (by decide)
  isScalar := .quoted "é".toList (by decide)

end Line.Value

theorem Source.valueAt?_written_mistaken :
    let s := Source.ofString "a: \"x #1\"\n  b:  # main\n😀: \t'é' \t# main # db\n"
    (s.line? 0 = some ("a".toList ++ ':' :: Line.Value.marked.written) ∧
      s.valueAt? ⟨0, 2⟩ = some (⟨0, 3⟩, "\"x".toList)) ∧
    (s.line? 1 = some ("  b".toList ++ ':' :: Line.Value.commentAlone.written) ∧
      s.valueAt? ⟨1, 4⟩ = some (⟨1, 6⟩, "# main".toList)) ∧
    s.line? 2 = some ("😀".toList ++ ':' :: Line.Value.tabbed.written) ∧
      s.valueAt? ⟨2, 3⟩ = some (⟨2, 5⟩, "'é' \t# main".toList) := by
  intro s
  have hmarked : s.line? 0 = some ("a".toList ++ ':' :: Line.Value.marked.written) := by decide
  have halone : s.line? 1 = some ("  b".toList ++ ':' :: Line.Value.commentAlone.written) := by
    decide
  have htabbed : s.line? 2 = some ("😀".toList ++ ':' :: Line.Value.tabbed.written) := by decide
  refine ⟨⟨hmarked, ?_⟩, ⟨halone, ?_⟩, htabbed, ?_⟩
  · obtain ⟨value, hvalue, -, hcut, -⟩ := valueAt?_written hmarked
    rw [hcut "\"x".toList "1\"".toList (by decide) (by decide)] at hvalue
    exact hvalue
  · obtain ⟨value, hvalue, -, -, hcomment, -⟩ := valueAt?_written halone
    rw [hcomment _ rfl rfl] at hvalue
    exact hvalue
  · obtain ⟨value, hvalue, -, -, -, hrest⟩ := valueAt?_written htabbed
    rw [(hrest (by decide)).1 _ rfl (by decide) (by decide)] at hvalue
    exact hvalue

end ResourceGraph

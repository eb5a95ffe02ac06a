import ResourceGraph.Proofs.Expression.Token
import ResourceGraph.Proofs.Resolver.Order
import ResourceGraph.Proofs.Text.Edit
import ResourceGraph.Reference

/-!
# Links and the reference at a position

The links of a document stand on its text one after another, each on a whole expression
(`Source.pairwise_links`, `Source.exists_slice_of_mem_expressions`). So at most one of them is at a
position, and the reference there is its target: an expression that points nowhere makes no link, and
no other expression is at the same position (`Source.referenceAt_eq_some_iff`,
`Source.links_agree`).
-/

set_option autoImplicit false

namespace ResourceGraph

open Text

/-- Whether a position is in a range: not before its start, and before its end. -/
def Range.Contains (r : Range) (p : Position) : Prop := ¬ p.IsBefore r.start ∧ p.IsBefore r.stop

/-- Whether some text is what a range of a source covers, cut at the offsets of its two ends. -/
def Source.Slices (s : Source) (r : Range) (inside : List Char) : Prop :=
  ∃ before after, s.text.toList = before ++ inside ++ after ∧
    s.offsetAt r.start = bytes before ∧ s.offsetAt r.stop = bytes (before ++ inside)

namespace Expression

variable {e e' : Expression} {p : Position}

theorem covers_iff : e.covers p = true ↔ e.range.Contains p := by
  show (e.line == p.line && decide (e.startColumn ≤ p.character) &&
    decide (p.character < e.endColumn)) = true ↔
    ¬ (p.line < e.line ∨ p.line = e.line ∧ p.character < e.startColumn) ∧
      (p.line < e.line ∨ p.line = e.line ∧ p.character < e.endColumn)
  simp only [Bool.and_eq_true, beq_iff_eq, decide_eq_true_eq]
  omega

/-- A position in an expression is not in one after it. -/
theorem not_contains_of_endsBefore (h : e.EndsBefore e') (hp : e.range.Contains p) :
    ¬ e'.range.Contains p := by
  rintro ⟨hstart, -⟩
  obtain ⟨-, hstop⟩ := hp
  apply hstart
  rcases hstop with hline | ⟨hline, hcolumn⟩
  · rcases h with hafter | ⟨hsame, -⟩
    · exact Or.inl (Nat.lt_trans hline hafter)
    · exact Or.inl (Nat.lt_of_lt_of_eq hline hsame)
  · rcases h with hafter | ⟨hsame, hcolumns⟩
    · exact Or.inl (hline.trans_lt hafter)
    · exact Or.inr ⟨hline.trans hsame, Nat.lt_of_lt_of_le hcolumn hcolumns⟩

end Expression

/-! ## The text of an expression -/

theorem Text.columnOffset_append (as bs : List Char) :
    columnOffset (units as) (as ++ bs) = bytes as := by
  induction as with
  | nil => exact columnOffset_zero bs
  | cons a as ih =>
    have hpos := charUnits_pos a
    rw [List.cons_append, columnOffset, units, if_neg (by omega), Nat.add_sub_cancel_left, ih, bytes]

namespace Source

variable {text : String} {e e' : Expression} {l l' : DocumentLink} {p t : Position}

/-- An expression of a line is on it up to the carriage returns at the end of the line. -/
theorem onLine_of_written {n : Nat} {left body right : List Char}
    (h : (ofString text).lines[n]? = some (left ++ Expression.written body ++ right)) :
    onLine text.toList n = left ++ Expression.written body ++ dropTail isLineEnd right := by
  replace h : ((rawLines text.toList).map stripBreak)[n]? = _ := h
  rw [List.getElem?_map] at h
  obtain ⟨raw, hraw, hline⟩ := Option.map_eq_some_iff.1 h
  -- the closing brace ends no line
  have hclose : left ++ Expression.written body ++ right =
      (left ++ '$' :: '{' :: body) ++ '}' :: right := by
    simp [Expression.written]
  rw [onLine, hraw, Option.getD_some, ← dropTail_stripBreak, hline, hclose,
    dropTail_append_cons (by decide)]
  simp [Expression.written]

/-- The range of an expression covers its dollar sign, its braces and what stands between them. -/
theorem exists_slice_of_mem_expressions (h : e ∈ (ofString text).expressions) :
    ∃ body, body ≠ [] ∧ '}' ∉ body ∧ e.path = String.ofList body ∧
      (ofString text).Slices e.range (Expression.written body) := by
  obtain ⟨n, line, hline, left, body, right, hrest, hne, hbrace, rfl⟩ :=
    Expression.exists_occurs_of_mem_inLines h
  obtain rfl : line = left ++ Expression.written body ++ right := hrest
  have honLine := onLine_of_written hline
  have htext := above_append_onLine_append_below text.toList n
  rw [honLine] at htext
  have hoffset : ∀ as bs, left ++ Expression.written body ++ dropTail isLineEnd right = as ++ bs →
      (ofString text).offsetAt ⟨n, units as⟩ = bytes (above text.toList n ++ as) := by
    intro as bs hsplit
    show Text.offsetAt text.toList ⟨n, units as⟩ = _
    rw [offsetAt_eq, honLine, hsplit, columnOffset_append, bytes_append]
  refine ⟨body, hne, hbrace, rfl, above text.toList n ++ left,
    dropTail isLineEnd right ++ below text.toList n, ?_, ?_, ?_⟩
  · refine htext.symm.trans ?_
    simp only [List.append_assoc]
  · show (ofString text).offsetAt ⟨0 + n, 0 + units left⟩ = _
    rw [Nat.zero_add, Nat.zero_add]
    exact hoffset left _ (List.append_assoc _ _ _)
  · show (ofString text).offsetAt ⟨0 + n, 0 + units left + units (Expression.written body)⟩ = _
    rw [Nat.zero_add, Nat.zero_add, ← units_append, hoffset _ _ rfl, List.append_assoc]

/-! ## Links -/

theorem mem_links_iff {s : Source} : l ∈ s.links ↔
    ∃ e ∈ s.expressions, s.targetOf e = some l.target ∧ l.range = e.range := by
  rw [links, List.mem_filterMap]
  refine exists_congr fun e => and_congr_right fun _ => ?_
  rw [Option.map_eq_some_iff]
  constructor
  · rintro ⟨target, htarget, rfl⟩
    exact ⟨htarget, rfl⟩
  · rintro ⟨htarget, hrange⟩
    exact ⟨l.target, htarget, by rw [← hrange]⟩

/-- At most one expression is at a position. -/
theorem eq_of_contains {s : Source} (he : e ∈ s.expressions) (he' : e' ∈ s.expressions)
    (hp : e.range.Contains p) (hp' : e'.range.Contains p) : e = e' := by
  -- of two that differ one ends before the other
  have hbefore : s.expressions.Pairwise fun e e' : Expression =>
      e.range.Contains p → e'.range.Contains p → e = e' := by
    refine s.pairwise_expressions.imp ?_
    intro e e' hends hp hp'
    exact absurd hp' (Expression.not_contains_of_endsBefore hends hp)
  have hafter : s.expressions.Pairwise (flip fun e e' : Expression =>
      e.range.Contains p → e'.range.Contains p → e = e') :=
    hbefore.imp fun h hp hp' => (h hp' hp).symm
  exact hbefore.forall_of_forall_of_flip (fun _ _ _ _ => rfl) hafter he he' hp hp'

/-- The reference at a position is the target of the expression there. -/
theorem referenceAt_eq_some_iff {s : Source} : s.referenceAt p = some t ↔
    ∃ e ∈ s.expressions, e.range.Contains p ∧ s.targetOf e = some t := by
  have hcovers : ∀ {e : Expression}, (s.expressions.find? fun e => e.covers p) = some e →
      e.range.Contains p := by
    intro e hfind
    have hcovered := List.find?_some (p := fun e : Expression => e.covers p) hfind
    exact Expression.covers_iff.1 hcovered
  rw [referenceAt, Option.bind_eq_some_iff]
  constructor
  · rintro ⟨e, hfind, htarget⟩
    exact ⟨e, List.mem_of_find?_eq_some hfind, hcovers hfind, htarget⟩
  · rintro ⟨e, he, hp, htarget⟩
    have hsome : (s.expressions.find? fun e => e.covers p).isSome = true :=
      List.find?_isSome.2 ⟨e, he, Expression.covers_iff.2 hp⟩
    obtain ⟨first, hfirst⟩ := Option.isSome_iff_exists.1 hsome
    -- the first expression at the position is the only one
    obtain rfl : e = first :=
      eq_of_contains he (List.mem_of_find?_eq_some hfirst) hp (hcovers hfirst)
    exact ⟨e, hfirst, htarget⟩

/-- The links of a document begin one after another, and each ends before the next begins. -/
theorem pairwise_links (s : Source) : s.links.Pairwise fun l l' =>
    l.range.start.IsBefore l'.range.start ∧ ¬ l'.range.start.IsBefore l.range.stop := by
  rw [links, List.pairwise_filterMap]
  refine s.pairwise_expressions.imp_of_mem ?_
  intro e e' he _ hbefore l hl l' hl'
  obtain ⟨_, -, rfl⟩ := Option.map_eq_some_iff.1 hl
  obtain ⟨_, -, rfl⟩ := Option.map_eq_some_iff.1 hl'
  have hlength := length_of_mem_expressions he
  show (e.line < e'.line ∨ e.line = e'.line ∧ e.startColumn < e'.startColumn) ∧
    ¬ (e'.line < e.line ∨ e'.line = e.line ∧ e'.startColumn < e.endColumn)
  rw [Expression.EndsBefore, Expression.endColumn] at hbefore
  rw [Expression.endColumn]
  omega

/-- **Links and references agree.** Every link of a document is on a single line, is not empty and
covers exactly the text of an expression, for which the target of the link is found. The links
begin one after another and none begins before the one before it ends. There is a reference at a
position exactly if the position is in the range of a link, and it is the target of that link, which
is the only one there. -/
theorem links_agree (text : String) :
    (∀ l ∈ (ofString text).links, l.range.start.line = l.range.stop.line ∧
      l.range.start.character < l.range.stop.character ∧
      ∃ body, body ≠ [] ∧ '}' ∉ body ∧ (ofString text).Slices l.range (Expression.written body) ∧
        Reference.find (ofString text) body = some l.target) ∧
    ((ofString text).links.Pairwise fun l l' =>
      l.range.start.IsBefore l'.range.start ∧ ¬ l'.range.start.IsBefore l.range.stop) ∧
    ∀ p : Position,
      (∀ t, (ofString text).referenceAt p = some t ↔
        ∃ l ∈ (ofString text).links, l.range.Contains p ∧ l.target = t) ∧
      ∀ l ∈ (ofString text).links, ∀ l' ∈ (ofString text).links,
        l.range.Contains p → l'.range.Contains p → l = l' := by
  refine ⟨?_, pairwise_links _, fun p => ⟨fun t => ?_, ?_⟩⟩
  · intro l hl
    obtain ⟨e, he, htarget, hrange⟩ := mem_links_iff.1 hl
    obtain ⟨body, hne, hbrace, hpath, hslices⟩ := exists_slice_of_mem_expressions he
    have hlength := length_of_mem_expressions he
    rw [hrange]
    refine ⟨rfl, ?_, body, hne, hbrace, hslices, ?_⟩
    · show e.startColumn < e.startColumn + e.length
      omega
    · rw [targetOf, hpath, String.toList_ofList] at htarget
      exact htarget
  · rw [referenceAt_eq_some_iff]
    constructor
    · rintro ⟨e, he, hp, htarget⟩
      exact ⟨⟨e.range, t⟩, mem_links_iff.2 ⟨e, he, htarget, rfl⟩, hp, rfl⟩
    · rintro ⟨l, hl, hp, rfl⟩
      obtain ⟨e, he, htarget, hrange⟩ := mem_links_iff.1 hl
      exact ⟨e, he, hrange ▸ hp, htarget⟩
  · intro l hl l' hl' hp hp'
    obtain ⟨e, he, htarget, hrange⟩ := mem_links_iff.1 hl
    obtain ⟨e', he', htarget', hrange'⟩ := mem_links_iff.1 hl'
    obtain rfl := eq_of_contains he he' (hrange ▸ hp) (hrange' ▸ hp')
    obtain ⟨range, target⟩ := l
    obtain ⟨range', target'⟩ := l'
    obtain rfl : range = range' := hrange.trans hrange'.symm
    obtain rfl : target = target' := Option.some.inj (htarget.symm.trans htarget')
    rfl

/-- Three expressions side by side, of which the one in the middle points nowhere. -/
def adjacentText : String :=
  "spec:\n  schema:\n    name: x\n  y: é$\x7bschema.name\x7d$\x7bid\x7d$\x7bschema.name\x7d\n"

theorem links_agree_adjacentText :
    (⟨⟨⟨3, 6⟩, ⟨3, 20⟩⟩, ⟨2, 9⟩⟩ : DocumentLink) ∈ (ofString adjacentText).links ∧
    (⟨⟨3, 6⟩, ⟨3, 20⟩⟩ : Range).Contains ⟨3, 19⟩ ∧
    (ofString adjacentText).referenceAt ⟨3, 19⟩ = some ⟨2, 9⟩ ∧
    (∀ l ∈ (ofString adjacentText).links, l.range.Contains ⟨3, 19⟩ →
      l = ⟨⟨⟨3, 6⟩, ⟨3, 20⟩⟩, ⟨2, 9⟩⟩) ∧
    (ofString adjacentText).referenceAt ⟨3, 20⟩ = none := by
  obtain ⟨-, -, hagree⟩ := links_agree adjacentText
  have hlinks : (ofString adjacentText).links =
      [⟨⟨⟨3, 6⟩, ⟨3, 20⟩⟩, ⟨2, 9⟩⟩, ⟨⟨⟨3, 25⟩, ⟨3, 39⟩⟩, ⟨2, 9⟩⟩] := by
    decide +kernel
  have hmem : (⟨⟨⟨3, 6⟩, ⟨3, 20⟩⟩, ⟨2, 9⟩⟩ : DocumentLink) ∈ (ofString adjacentText).links := by
    rw [hlinks]
    exact List.mem_cons_self
  have hcontains : (⟨⟨3, 6⟩, ⟨3, 20⟩⟩ : Range).Contains ⟨3, 19⟩ := by
    simp [Range.Contains, Position.IsBefore]
  refine ⟨hmem, hcontains, ((hagree ⟨3, 19⟩).1 _).2 ⟨_, hmem, hcontains, rfl⟩, ?_, ?_⟩
  · intro l hl hp
    exact (hagree ⟨3, 19⟩).2 l hl _ hmem hp hcontains
  · -- the first link ends where the expression in the middle begins
    by_contra hsome
    obtain ⟨t, ht⟩ := Option.ne_none_iff_exists'.1 hsome
    obtain ⟨l, hl, hp, -⟩ := ((hagree ⟨3, 20⟩).1 t).1 ht
    rw [hlinks] at hl
    simp only [List.mem_cons, List.not_mem_nil, or_false] at hl
    rcases hl with rfl | rfl
    · simp [Range.Contains, Position.IsBefore] at hp
    · simp [Range.Contains, Position.IsBefore] at hp

end Source

end ResourceGraph

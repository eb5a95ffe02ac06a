import ResourceGraph.Expression.Token
import ResourceGraph.Proofs.Expression.Scan

/-!
# The order of expression tokens

The tokens of an expression stand one after another inside it (`pairwise_ofExpression`), and the
expressions of a document one after another on its lines (`pairwise_expressions`). So the tokens of
a document are strictly ordered by line and column, and the differences of their relative form are
differences of natural numbers.

Proves: tokens in that order, those of a document among them, are the ones that decoding their
relative form gives (`decode?_encode_ordered`).
-/

set_option autoImplicit false

namespace ResourceGraph

open Text

/-- Whether an expression ends before another one begins. -/
def Expression.EndsBefore (e e' : Expression) : Prop :=
  e.line < e'.line ∨ e.line = e'.line ∧ e.endColumn ≤ e'.startColumn

namespace ExpressionToken

/-- Whether a token begins before another one: on an earlier line, or further left on its line. -/
def Precedes (t t' : ExpressionToken) : Prop :=
  t.line < t'.line ∨ t.line = t'.line ∧ t.startColumn < t'.startColumn

/-- Whether a token is not empty and stands between two columns of a line. -/
def IsWithin (line start stop : Nat) (t : ExpressionToken) : Prop :=
  t.line = line ∧ start ≤ t.startColumn ∧ 0 < t.length ∧ t.endColumn ≤ stop

/-- Whether the relative form of some tokens, after one at the given line and column, subtracts only
smaller numbers: no token stands on an earlier line than the one before it, nor, if the lines do not
differ, further left. -/
def Advances : Nat → Nat → List ExpressionToken → Prop
  | _, _, [] => True
  | line, column, t :: rest =>
    line ≤ t.line ∧ (t.line - line = 0 → column ≤ t.startColumn) ∧
      Advances t.line t.startColumn rest

variable {line start stop column : Nat} {t t' : ExpressionToken} {e : Expression}

theorem IsWithin.mono {start' stop' : Nat} (h : t.IsWithin line start stop)
    (hstart : start' ≤ start) (hstop : stop ≤ stop') : t.IsWithin line start' stop' := by
  obtain ⟨hline, hleft, hlength, hright⟩ := h
  exact ⟨hline, Nat.le_trans hstart hleft, hlength, Nat.le_trans hright hstop⟩

/-- A token that ends where another one may begin precedes it. -/
theorem IsWithin.precedes (h : t.IsWithin line start column) (h' : t'.IsWithin line column stop) :
    t.Precedes t' := by
  obtain ⟨hline, -, hlength, hright⟩ := h
  obtain ⟨hline', hleft, -, -⟩ := h'
  right
  rw [endColumn] at hright
  exact ⟨hline.trans hline'.symm, by omega⟩

/-! ## The tokens of an expression -/

theorem units_joinWith_cons (column : Nat) (part : List Char) (parts : List (List Char)) :
    column + units part ≤ column + units (joinWith ['.'] (part :: parts)) ∧
      (parts ≠ [] → column + units part + 1 + units (joinWith ['.'] parts) =
        column + units (joinWith ['.'] (part :: parts))) := by
  cases parts with
  | nil => exact ⟨Nat.le_refl _, fun h => absurd rfl h⟩
  | cons next parts =>
    have hdot : units ['.'] = 1 := by decide
    have hunits : units (joinWith ['.'] (part :: next :: parts)) =
        units part + 1 + units (joinWith ['.'] (next :: parts)) := by
      rw [joinWith, units_append, units_append, hdot]
      simp
    rw [hunits]
    exact ⟨by omega, fun _ => by omega⟩

/-- The tokens of segments stand one after another on the columns that the segments and the dots
between them take. -/
theorem ofSegments_ordered (line column : Nat) (role : TokenRole) (parts : List (List Char)) :
    (∀ t ∈ ofSegments line column role parts,
      t.IsWithin line column (column + units (joinWith ['.'] parts))) ∧
      (ofSegments line column role parts).Pairwise Precedes := by
  induction parts generalizing column role with
  | nil => exact ⟨by simp [ofSegments], List.Pairwise.nil⟩
  | cons part parts ih =>
    obtain ⟨hpart, hparts⟩ := units_joinWith_cons column part parts
    obtain ⟨hwithin, hordered⟩ := ih (column + units part + 1)
      (if parts.length = 1 then .leafSegment else .middleSegment)
    -- the tokens of the further segments stand right of the first one and its dot
    have hafter : ∀ t ∈ ofSegments line (column + units part + 1)
        (if parts.length = 1 then .leafSegment else .middleSegment) parts,
        t.IsWithin line (column + units part)
          (column + units (joinWith ['.'] (part :: parts))) := by
      intro t ht
      have hne : parts ≠ [] := by
        rintro rfl
        simp [ofSegments] at ht
      refine (hwithin t ht).mono (Nat.le_succ _) ?_
      exact Nat.le_of_eq (hparts hne)
    have hrest : ∀ t ∈ ofSegments line (column + units part + 1)
        (if parts.length = 1 then .leafSegment else .middleSegment) parts,
        t.IsWithin line column (column + units (joinWith ['.'] (part :: parts))) := by
      intro t ht
      exact (hafter t ht).mono (Nat.le_add_right _ _) (Nat.le_refl _)
    rw [ofSegments]
    by_cases hwidth : units part = 0
    · simp only [hwidth, if_true] at hrest hordered ⊢
      exact ⟨hrest, hordered⟩
    · simp only [hwidth, if_false]
      have hfirst : IsWithin line column (column + units part) ⟨line, column, units part, role⟩ :=
        ⟨rfl, Nat.le_refl _, Nat.pos_of_ne_zero hwidth, Nat.le_refl _⟩
      constructor
      · intro t ht
        rcases List.mem_cons.1 ht with rfl | ht
        · exact hfirst.mono (Nat.le_refl _) hpart
        · exact hrest t ht
      · refine List.Pairwise.cons ?_ hordered
        intro t ht
        exact hfirst.precedes (hafter t ht)

/-- The tokens of an expression stand one after another inside it. -/
theorem ofExpression_ordered (he : e.length = units e.path.toList + 3) :
    (∀ t ∈ ofExpression e, t.IsWithin e.line e.startColumn e.endColumn) ∧
      (ofExpression e).Pairwise Precedes := by
  obtain ⟨hwithin, hordered⟩ :=
    ofSegments_ordered e.line (e.startColumn + 2) .rootSegment e.segments
  rw [Expression.segments, joinWith_splitOn] at hwithin
  have hend : e.endColumn = e.startColumn + 2 + units e.path.toList + 1 := by
    rw [Expression.endColumn, he]
    omega
  have hsigil : IsWithin e.line e.startColumn (e.startColumn + 1)
      ⟨e.line, e.startColumn, 1, .sigil⟩ := ⟨rfl, Nat.le_refl _, Nat.one_pos, Nat.le_refl _⟩
  have hopen : IsWithin e.line (e.startColumn + 1) (e.startColumn + 2)
      ⟨e.line, e.startColumn + 1, 1, .brace⟩ := ⟨rfl, Nat.le_refl _, Nat.one_pos, Nat.le_refl _⟩
  have hclose : IsWithin e.line (e.startColumn + 2 + units e.path.toList) e.endColumn
      ⟨e.line, e.endColumn - 1, 1, .brace⟩ := by
    refine ⟨rfl, ?_, Nat.one_pos, ?_⟩
    · show e.startColumn + 2 + units e.path.toList ≤ e.endColumn - 1
      omega
    · show e.endColumn - 1 + 1 ≤ e.endColumn
      omega
  -- the closing brace comes after the segments, and these after the sigil and the opening brace
  have hsegments : ∀ t ∈ ofSegments e.line (e.startColumn + 2) .rootSegment e.segments ++
      [⟨e.line, e.endColumn - 1, 1, .brace⟩],
      t.IsWithin e.line (e.startColumn + 2) e.endColumn := by
    intro t ht
    rcases List.mem_append.1 ht with ht | ht
    · exact (hwithin t ht).mono (Nat.le_refl _) (by omega)
    · rw [List.mem_singleton.1 ht]
      exact hclose.mono (Nat.le_add_right _ _) (Nat.le_refl _)
  have hsegmentsOrdered : List.Pairwise Precedes
      (ofSegments e.line (e.startColumn + 2) .rootSegment e.segments ++
        [⟨e.line, e.endColumn - 1, 1, .brace⟩]) := by
    rw [List.pairwise_append]
    refine ⟨hordered, List.pairwise_singleton _ _, ?_⟩
    intro t ht t' ht'
    rw [List.mem_singleton.1 ht']
    exact (hwithin t ht).precedes hclose
  rw [ofExpression, List.cons_append, List.cons_append]
  constructor
  · intro t ht
    rcases List.mem_cons.1 ht with rfl | ht
    · exact hsigil.mono (Nat.le_refl _) (by omega)
    · rcases List.mem_cons.1 ht with rfl | ht
      · exact hopen.mono (Nat.le_add_right _ _) (by omega)
      · exact (hsegments t ht).mono (Nat.le_add_right _ _) (Nat.le_refl _)
  · refine List.Pairwise.cons ?_ (List.Pairwise.cons ?_ hsegmentsOrdered)
    · intro t ht
      rcases List.mem_cons.1 ht with rfl | ht
      · exact hsigil.precedes hopen
      · exact hsigil.precedes ((hsegments t ht).mono (Nat.le_succ _) (Nat.le_refl _))
    · intro t ht
      exact hopen.precedes (hsegments t ht)

end ExpressionToken

/-! ## The tokens of a document -/

namespace Expression

variable {n : Nat} {lines : List Line} {e e' : Expression} {k : Cursor}

theorem line_of_occurs (h : k.Occurs e) : e.line = k.line := by
  obtain ⟨left, body, right, -, -, -, rfl⟩ := h
  rfl

theorem length_of_occurs (h : k.Occurs e) : e.length = units e.path.toList + 3 := by
  obtain ⟨left, body, right, -, -, -, rfl⟩ := h
  rw [units_written, String.toList_ofList]

/-- An expression of a document is written on one of its lines. -/
theorem exists_occurs_of_mem_inLines (h : e ∈ inLines n lines) :
    ∃ i line, lines[i]? = some line ∧ (Cursor.start (n + i) line).Occurs e := by
  induction lines generalizing n with
  | nil => simp [inLines] at h
  | cons line lines ih =>
    rcases List.mem_append.1 h with h | h
    · exact ⟨0, line, rfl, (Cursor.isScan_all _).occurs e h⟩
    · obtain ⟨i, line', hline, hoccurs⟩ := ih h
      refine ⟨i + 1, line', hline, ?_⟩
      rwa [show n + (i + 1) = n + 1 + i by omega]

theorem pairwise_inLines (n : Nat) (lines : List Line) : (inLines n lines).Pairwise EndsBefore := by
  induction lines generalizing n with
  | nil => exact List.Pairwise.nil
  | cons line lines ih =>
    have hscan := Cursor.isScan_all (Cursor.start n line)
    rw [inLines, List.pairwise_append]
    refine ⟨?_, ih (n + 1), ?_⟩
    · -- on one line the scan goes from left to right
      refine hscan.ordered.imp_of_mem ?_
      intro e e' he he' hcolumns
      right
      rw [line_of_occurs (hscan.occurs e he), line_of_occurs (hscan.occurs e' he')]
      exact ⟨rfl, hcolumns⟩
    · intro e he e' he'
      obtain ⟨i, line', -, hoccurs⟩ := exists_occurs_of_mem_inLines he'
      left
      rw [line_of_occurs (hscan.occurs e he), line_of_occurs hoccurs]
      show n < n + 1 + i
      omega

end Expression

namespace Source

variable {e : Expression}

/-- The expressions of a document stand one after another. -/
theorem pairwise_expressions (s : Source) : s.expressions.Pairwise Expression.EndsBefore :=
  Expression.pairwise_inLines 0 s.lines

theorem length_of_mem_expressions {s : Source} (h : e ∈ s.expressions) :
    e.length = units e.path.toList + 3 := by
  obtain ⟨i, line, -, hoccurs⟩ := Expression.exists_occurs_of_mem_inLines h
  exact Expression.length_of_occurs hoccurs

/-- **The tokens of a document are strictly ordered by line and column.** -/
theorem pairwise_tokens (s : Source) : s.tokens.Pairwise ExpressionToken.Precedes := by
  rw [tokens, List.pairwise_flatMap]
  constructor
  · intro e he
    exact (ExpressionToken.ofExpression_ordered (length_of_mem_expressions he)).2
  · refine s.pairwise_expressions.imp_of_mem ?_
    intro e e' he he' hbefore t ht t' ht'
    have hwithin := (ExpressionToken.ofExpression_ordered (length_of_mem_expressions he)).1 t ht
    have hwithin' := (ExpressionToken.ofExpression_ordered (length_of_mem_expressions he')).1 t' ht'
    rcases hbefore with hline | ⟨hline, hcolumn⟩
    · left
      rw [hwithin.1, hwithin'.1]
      exact hline
    · rw [← hline] at hwithin'
      exact hwithin.precedes (hwithin'.mono hcolumn (Nat.le_refl _))

end Source

/-! ## The relative form -/

namespace ExpressionToken

variable {line column : Nat} {tokens : List ExpressionToken}

/-- Tokens in order advance from any place that is not after the first of them. -/
theorem advances_of_pairwise (hordered : tokens.Pairwise Precedes)
    (hfirst : ∀ t ∈ tokens.head?, line < t.line ∨ line = t.line ∧ column ≤ t.startColumn) :
    Advances line column tokens := by
  induction tokens generalizing line column with
  | nil => trivial
  | cons t tokens ih =>
    obtain ⟨hafter, hordered⟩ := List.pairwise_cons.1 hordered
    have hplace := hfirst t rfl
    refine ⟨by omega, by omega, ih hordered ?_⟩
    intro t' ht'
    rcases hafter t' (List.mem_of_mem_head? ht') with hline | ⟨hline, hcolumn⟩
    · exact Or.inl hline
    · exact Or.inr ⟨hline, Nat.le_of_lt hcolumn⟩

/-- What advances is decoded to what was encoded. -/
theorem decodeFrom?_encodeFrom (h : Advances line column tokens) :
    decodeFrom? line column (encodeFrom line column tokens) = some tokens := by
  induction tokens generalizing line column with
  | nil => rfl
  | cons t tokens ih =>
    obtain ⟨hline, hcolumn, hrest⟩ := h
    have hline' : line + (t.line - line) = t.line := Nat.add_sub_cancel' hline
    -- the column is given from the token before exactly if the line is
    have hcolumn' : (if t.line - line = 0 then
        column + (if t.line - line = 0 then t.startColumn - column else t.startColumn)
        else (if t.line - line = 0 then t.startColumn - column else t.startColumn)) =
        t.startColumn := by
      split
      · rename_i hsame
        exact Nat.add_sub_cancel' (hcolumn hsame)
      · rfl
    simp only [encodeFrom, List.cons_append, List.nil_append, decodeFrom?,
      TokenRole.ofLegendIndex?_legendIndex, hline', hcolumn', ih hrest]
    rfl

/-- **Tokens in order are read back from their relative form.** The tokens of every document are
strictly ordered by line and column. For all tokens in that order the relative form subtracts only
smaller numbers, and decoding it gives the tokens themselves. -/
theorem decode?_encode_ordered :
    (∀ text : String, (Source.ofString text).tokens.Pairwise Precedes ∧
      Advances 0 0 (Source.ofString text).tokens ∧
      decode? (encode (Source.ofString text).tokens) = some (Source.ofString text).tokens) ∧
    ∀ tokens : List ExpressionToken, tokens.Pairwise Precedes →
      Advances 0 0 tokens ∧ decode? (encode tokens) = some tokens := by
  have hordered : ∀ tokens : List ExpressionToken, tokens.Pairwise Precedes →
      Advances 0 0 tokens ∧ decode? (encode tokens) = some tokens := by
    intro tokens htokens
    have hadvances : Advances 0 0 tokens := by
      refine advances_of_pairwise htokens ?_
      intro t _
      omega
    exact ⟨hadvances, decodeFrom?_encodeFrom hadvances⟩
  refine ⟨?_, hordered⟩
  intro text
  have htokens := (Source.ofString text).pairwise_tokens
  exact ⟨htokens, hordered _ htokens⟩

theorem decode?_encode_ordered_twoLines :
    [(⟨2, 4, 1, .sigil⟩ : ExpressionToken), ⟨2, 5, 3, .rootSegment⟩, ⟨5, 1, 1, .sigil⟩].Pairwise
      Precedes ∧
    Advances 0 0 [⟨2, 4, 1, .sigil⟩, ⟨2, 5, 3, .rootSegment⟩, ⟨5, 1, 1, .sigil⟩] ∧
    decode? (encode [⟨2, 4, 1, .sigil⟩, ⟨2, 5, 3, .rootSegment⟩, ⟨5, 1, 1, .sigil⟩]) =
      some [⟨2, 4, 1, .sigil⟩, ⟨2, 5, 3, .rootSegment⟩, ⟨5, 1, 1, .sigil⟩] := by
  have htokens : [(⟨2, 4, 1, .sigil⟩ : ExpressionToken), ⟨2, 5, 3, .rootSegment⟩,
      ⟨5, 1, 1, .sigil⟩].Pairwise Precedes := by simp [Precedes]
  exact ⟨htokens, decode?_encode_ordered.2 _ htokens⟩

end ExpressionToken

end ResourceGraph

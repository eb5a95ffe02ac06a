import Mathlib.Data.List.Forall2
import ResourceGraph.Proofs.Expression.Token

/-!
# What the tokens of an expression cover

The tokens of an expression and the dots between its segments fill its columns without a gap or an
overlap (`ExpressionToken.Tiles`). Each token stands on the text that it is about: the dollar sign, a
brace or a segment that is not empty, with the role that its place in the path gives it
(`Expression.pieces`).

From the one relation all the rest follows: the tokens of a line are apart and in order, what they
leave uncovered of an expression are its dots, and widths add up (`tokenize_tiles`).
-/

set_option autoImplicit false

namespace ResourceGraph

open Text

/-- Whether some text stands on a line at a column. -/
def Line.ShowsAt (line : Line) (column : Nat) (text : List Char) : Prop :=
  ∃ left right, line = left ++ text ++ right ∧ units left = column

/-- Whether a token covers exactly some text of a line. -/
def ExpressionToken.Shows (line : Line) (t : ExpressionToken) (text : List Char) : Prop :=
  line.ShowsAt t.startColumn text ∧ t.length = units text

/-- The role of the segment with an index among a number of segments. -/
def TokenRole.ofIndex (count i : Nat) : TokenRole :=
  if i = 0 then .rootSegment else if i + 1 = count then .leafSegment else .middleSegment

/-- The segments that are not empty, numbered from an index on, each with its role. -/
def ExpressionToken.segmentPieces (count i : Nat) (parts : List (List Char)) :
    List (TokenRole × List Char) :=
  (parts.zipIdx i).filterMap fun (part, j) =>
    if part.isEmpty then none else some (.ofIndex count j, part)

/-- What is highlighted of an expression, in reading order: the dollar sign, the opening brace, the
segments that are not empty, and the closing brace, each with its role. -/
def Expression.pieces (e : Expression) : List (TokenRole × List Char) :=
  (.sigil, ['$']) :: (.brace, ['{']) ::
    ExpressionToken.segmentPieces e.segments.length 0 e.segments ++ [(.brace, ['}'])]

/-- The number of columns that tokens cover together. -/
def ExpressionToken.totalLength : List ExpressionToken → Nat
  | [] => 0
  | t :: rest => t.length + totalLength rest

/-- Whether tokens are those of an expression on a line: they are not empty and within its columns,
one for each of its pieces in order, on the text of the piece and with its role; the columns of the
expression that no token covers are those of dots, which make up the width together with the tokens.
-/
structure Expression.IsTiledBy (e : Expression) (line : Line) (tokens : List ExpressionToken) :
    Prop where
  within : ∀ t ∈ tokens, t.IsWithin e.line e.startColumn e.endColumn
  pieces : List.Forall₂ (fun piece t => t.role = piece.1 ∧ t.Shows line piece.2) e.pieces tokens
  uncovered : ∀ column, e.startColumn ≤ column → column < e.endColumn →
    ((∀ t ∈ tokens, ¬ (t.startColumn ≤ column ∧ column < t.endColumn)) ↔
      line.ShowsAt column ['.'])
  widths : ExpressionToken.totalLength tokens + e.path.toList.count '.' = e.length

/-! ## Texts on a line -/

namespace Text

theorem units_pos {cs : List Char} (h : cs ≠ []) : 0 < units cs := by
  cases cs with
  | nil => exact absurd rfl h
  | cons c cs =>
    have hpos := charUnits_pos c
    rw [units]
    omega

/-- Of two ways to cut a text the one that is further left cuts the part before the other. -/
theorem exists_of_append_eq {as bs cs ds : List Char} (h : as ++ bs = cs ++ ds)
    (hle : units as ≤ units cs) : ∃ es, cs = as ++ es ∧ bs = es ++ ds := by
  rcases List.append_eq_append_iff.1 h with hafter | ⟨es, rfl, rfl⟩
  · exact hafter
  · rw [units_append] at hle
    obtain rfl : es = [] := by
      by_contra hne
      have hpos := units_pos hne
      omega
    exact ⟨[], by simp, rfl⟩

/-- There is one more part than separators. -/
theorem length_splitOn (sep : Char) (cs : List Char) :
    (splitOn sep cs).length = cs.count sep + 1 := by
  induction cs with
  | nil => rfl
  | cons c cs ih =>
    rw [splitOn]
    split
    · rename_i hc
      rw [List.length_cons, ih, hc, List.count_cons_self]
    · rename_i hc
      rw [List.count_cons_of_ne hc, ← ih]
      cases hparts : splitOn sep cs with
      | nil => exact absurd hparts (splitOn_ne_nil sep cs)
      | cons part parts => rfl

end Text

/-- A character at a column inside some text is one of that text. -/
theorem Line.mem_of_showsAt {line : Line} {start column : Nat} {text : List Char} {c : Char}
    (htext : line.ShowsAt start text) (hc : line.ShowsAt column [c]) (hstart : start ≤ column)
    (hstop : column < start + units text) : c ∈ text := by
  obtain ⟨left, right, hline, rfl⟩ := htext
  obtain ⟨before, after, hline', rfl⟩ := hc
  rw [hline, List.append_assoc, List.append_assoc] at hline'
  obtain ⟨es, rfl, hrest⟩ := exists_of_append_eq hline' hstart
  rw [units_append] at hstop
  obtain ⟨fs, rfl, hc⟩ := exists_of_append_eq hrest.symm (by omega)
  -- the text goes on where the character stands
  cases fs with
  | nil =>
    rw [List.append_nil] at hstop
    omega
  | cons d fs =>
    obtain ⟨rfl, -⟩ := List.cons.inj hc
    exact List.mem_append_right es List.mem_cons_self

namespace ExpressionToken

variable {n start stop column dots : Nat} {line : Line} {pieces : List (TokenRole × List Char)}
  {tokens : List ExpressionToken}

/-- Whether tokens and dots fill the columns of a line from one column to another: tokens of the line
with a number in reading order, on the texts of the given pieces, none of which holds a dot; and the
given number of dots. -/
inductive Tiles (n : Nat) (line : Line) :
    Nat → Nat → List (TokenRole × List Char) → List ExpressionToken → Nat → Prop
  | nil (column : Nat) : Tiles n line column column [] [] 0
  | token {start stop : Nat} {role : TokenRole} {text : List Char}
    {pieces : List (TokenRole × List Char)} {tokens : List ExpressionToken} {dots : Nat} :
    line.ShowsAt start text → text ≠ [] → '.' ∉ text →
    Tiles n line (start + units text) stop pieces tokens dots →
    Tiles n line start stop ((role, text) :: pieces) (⟨n, start, units text, role⟩ :: tokens) dots
  | dot {start stop : Nat} {pieces : List (TokenRole × List Char)}
    {tokens : List ExpressionToken} {dots : Nat} : line.ShowsAt start ['.'] →
    Tiles n line (start + 1) stop pieces tokens dots →
    Tiles n line start stop pieces tokens (dots + 1)

namespace Tiles

theorem start_le (h : Tiles n line start stop pieces tokens dots) : start ≤ stop := by
  induction h with
  | nil => exact Nat.le_refl _
  | token _ _ _ _ ih => omega
  | dot _ _ ih => omega

theorem append {mid dots' : Nat} {pieces' : List (TokenRole × List Char)}
    {tokens' : List ExpressionToken} (h : Tiles n line start mid pieces tokens dots)
    (h' : Tiles n line mid stop pieces' tokens' dots') :
    Tiles n line start stop (pieces ++ pieces') (tokens ++ tokens') (dots + dots') := by
  induction h with
  | nil => simpa using h'
  | token hshows hne hdot _ ih => exact .token hshows hne hdot (ih h')
  | dot hshows _ ih =>
    rw [Nat.add_right_comm]
    exact .dot hshows (ih h')

/-- The tokens are not empty and stand between the two columns. -/
theorem isWithin (h : Tiles n line start stop pieces tokens dots) :
    ∀ t ∈ tokens, t.IsWithin n start stop := by
  induction h with
  | nil => simp
  | @token start stop role text pieces tokens dots hshows hne hdot hrest ih =>
    intro t ht
    rcases List.mem_cons.1 ht with rfl | ht
    · exact ⟨rfl, Nat.le_refl _, units_pos hne, hrest.start_le⟩
    · exact (ih t ht).mono (Nat.le_add_right _ _) (Nat.le_refl _)
  | dot hshows hrest ih =>
    intro t ht
    exact (ih t ht).mono (Nat.le_succ _) (Nat.le_refl _)

/-- Each token ends before the next begins. -/
theorem pairwise (h : Tiles n line start stop pieces tokens dots) :
    tokens.Pairwise fun t t' => t.endColumn ≤ t'.startColumn := by
  induction h with
  | nil => exact List.Pairwise.nil
  | token hshows hne hdot hrest ih =>
    refine List.Pairwise.cons ?_ ih
    intro t ht
    exact (hrest.isWithin t ht).2.1
  | dot hshows hrest ih => exact ih

/-- The tokens stand on the pieces. -/
theorem forall₂ (h : Tiles n line start stop pieces tokens dots) :
    List.Forall₂ (fun piece t => t.role = piece.1 ∧ t.Shows line piece.2) pieces tokens := by
  induction h with
  | nil => exact .nil
  | token hshows hne hdot hrest ih => exact .cons ⟨rfl, hshows, rfl⟩ ih
  | dot hshows hrest ih => exact ih

/-- Every column is covered by a token or that of a dot. -/
theorem covered_or_dot (h : Tiles n line start stop pieces tokens dots) (hstart : start ≤ column)
    (hstop : column < stop) :
    (∃ t ∈ tokens, t.startColumn ≤ column ∧ column < t.endColumn) ∨
      line.ShowsAt column ['.'] := by
  induction h with
  | nil => omega
  | @token start stop role text pieces tokens dots hshows hne hdot hrest ih =>
    rcases Nat.lt_or_ge column (start + units text) with hin | hafter
    · exact Or.inl ⟨_, List.mem_cons_self, hstart, hin⟩
    · refine (ih hafter hstop).imp_left ?_
      rintro ⟨t, ht, hcovers⟩
      exact ⟨t, List.mem_cons_of_mem _ ht, hcovers⟩
  | dot hshows hrest ih =>
    rcases Nat.lt_or_eq_of_le hstart with hafter | rfl
    · exact ih hafter hstop
    · exact Or.inr hshows

/-- No token covers a dot. -/
theorem not_covered_of_dot (h : Tiles n line start stop pieces tokens dots)
    (hdot : line.ShowsAt column ['.']) :
    ∀ t ∈ tokens, ¬ (t.startColumn ≤ column ∧ column < t.endColumn) := by
  induction h with
  | nil => simp
  | token hshows hne hnot hrest ih =>
    intro t ht
    rcases List.mem_cons.1 ht with rfl | ht
    · rintro ⟨hle, hlt⟩
      exact hnot (Line.mem_of_showsAt hshows hdot hle hlt)
    · exact ih t ht
  | dot hshows hrest ih => exact ih

/-- The widths of the tokens and the dots add up. -/
theorem add_totalLength (h : Tiles n line start stop pieces tokens dots) :
    start + totalLength tokens + dots = stop := by
  induction h with
  | nil => rfl
  | @token start stop role text pieces tokens dots hshows hne hdot hrest ih =>
    show start + (units text + totalLength tokens) + dots = stop
    omega
  | dot hshows hrest ih => omega

end Tiles

/-! ## The tokens of an expression -/

theorem segmentPieces_cons (count i : Nat) (part : List Char) (parts : List (List Char)) :
    segmentPieces count i (part :: parts) =
      if part = [] then segmentPieces count (i + 1) parts
      else (.ofIndex count i, part) :: segmentPieces count (i + 1) parts := by
  rw [segmentPieces, List.zipIdx_cons, List.filterMap_cons]
  by_cases hpart : part = []
  · simp [hpart, segmentPieces]
  · simp [hpart, segmentPieces]

theorem ofIndex_succ {count i m : Nat} (hcount : i + m + 1 = count) :
    TokenRole.ofIndex count (i + 1) = if m = 1 then .leafSegment else .middleSegment := by
  have hlast : i + 1 + 1 = count ↔ m = 1 := by omega
  simp only [TokenRole.ofIndex, Nat.succ_ne_zero, if_false, hlast]

/-- The first of the remaining segments has a token, if it is not empty. -/
theorem tiles_part {role : TokenRole} {part : List Char} (hshows : line.ShowsAt column part)
    (hdot : '.' ∉ part) (h : Tiles n line (column + units part) stop pieces tokens dots) :
    Tiles n line column stop (if part = [] then pieces else (role, part) :: pieces)
      (if units part = 0 then tokens else ⟨n, column, units part, role⟩ :: tokens) dots := by
  by_cases hpart : part = []
  · subst hpart
    exact h
  · have hpos := units_pos hpart
    rw [if_neg hpart, if_neg (by omega)]
    exact .token hshows hpart hdot h

/-- The tokens of segments and the dots between them fill the columns that the segments take with
their dots. -/
theorem tiles_ofSegments {count i : Nat} {part left right : List Char} {parts : List (List Char)}
    (hline : line = left ++ joinWith ['.'] (part :: parts) ++ right)
    (hcount : i + parts.length + 1 = count) (hdot : ∀ p ∈ part :: parts, '.' ∉ p) :
    Tiles n line (units left) (units left + units (joinWith ['.'] (part :: parts)))
      (segmentPieces count i (part :: parts))
      (ofSegments n (units left) (.ofIndex count i) (part :: parts)) parts.length := by
  induction parts generalizing i part left with
  | nil =>
    rw [segmentPieces_cons, ofSegments]
    exact tiles_part ⟨left, right, hline, rfl⟩ (hdot part List.mem_cons_self) (.nil _)
  | cons next parts ih =>
    have hjoin : joinWith ['.'] (part :: next :: parts) =
        part ++ ['.'] ++ joinWith ['.'] (next :: parts) := rfl
    have hsplit : line = (left ++ part ++ ['.']) ++ joinWith ['.'] (next :: parts) ++ right := by
      rw [hline, hjoin]
      simp only [List.append_assoc]
    have hdotUnits : units ['.'] = 1 := by decide
    have hcolumn : units (left ++ part ++ ['.']) = units left + units part + 1 := by
      rw [units_append, units_append, hdotUnits]
    have hrest := ih hsplit (i := i + 1) (by rw [List.length_cons] at hcount; omega)
      fun p hp => hdot p (List.mem_cons_of_mem part hp)
    rw [hcolumn, ofIndex_succ (m := (next :: parts).length) hcount] at hrest
    -- the dot after the segment, and the segment before it
    have hafter := Tiles.dot ⟨left ++ part, _, by rw [hsplit, List.append_assoc], by
      rw [units_append]⟩ hrest
    have hshows : line.ShowsAt (units left) part :=
      ⟨left, _, by rw [hsplit, List.append_assoc, List.append_assoc], rfl⟩
    have hstop : units left + units (joinWith ['.'] (part :: next :: parts)) =
        units left + units part + 1 + units (joinWith ['.'] (next :: parts)) := by
      rw [hjoin, units_append, units_append, hdotUnits]
      omega
    rw [segmentPieces_cons, ofSegments, hstop]
    exact tiles_part hshows (hdot part List.mem_cons_self) hafter

/-- The tokens of an expression and its dots fill its columns. -/
theorem tiles_ofExpression {body left right : List Char}
    (hline : line = left ++ Expression.written body ++ right) :
    let e : Expression := ⟨n, units left, units (Expression.written body), String.ofList body⟩
    Tiles n line e.startColumn e.endColumn e.pieces (ofExpression e) (body.count '.') := by
  intro e
  obtain ⟨part, parts, hparts⟩ := List.exists_cons_of_ne_nil (splitOn_ne_nil '.' body)
  have hsegments : e.segments = part :: parts := by
    rw [Expression.segments, String.toList_ofList, hparts]
  have hcount : parts.length = body.count '.' := by
    have hlength := length_splitOn '.' body
    rw [hparts, List.length_cons] at hlength
    omega
  have hjoin : joinWith ['.'] (part :: parts) = body := by
    rw [← hparts, joinWith_splitOn]
  have hopened : units (left ++ ['$', '{']) = units left + 2 := units_append left ['$', '{']
  have hend : e.endColumn = units left + 2 + units body + 1 := by
    show units left + units (Expression.written body) = _
    rw [Expression.units_written]
    omega
  have hinner : Tiles n line (units left + 2) (units left + 2 + units body)
      (segmentPieces e.segments.length 0 e.segments)
      (ofSegments n (units left + 2) .rootSegment e.segments) (body.count '.') := by
    have hsplit : line = (left ++ ['$', '{']) ++ joinWith ['.'] (part :: parts) ++ ('}' :: right) := by
      rw [hline, hjoin]
      simp [Expression.written]
    have htiles := tiles_ofSegments (n := n) (i := 0) hsplit rfl fun p hp =>
      not_mem_of_mem_splitOn (hparts ▸ hp)
    rw [hopened, hjoin, hcount, Nat.zero_add] at htiles
    rw [hsegments, List.length_cons, hcount]
    exact htiles
  have hclose : Tiles n line (units left + 2 + units body) e.endColumn [(.brace, ['}'])]
      [⟨n, e.endColumn - 1, 1, .brace⟩] 0 := by
    rw [hend]
    refine .token ⟨left ++ ['$', '{'] ++ body, right, ?_, ?_⟩ (by decide) (by decide) (.nil _)
    · rw [hline]
      simp [Expression.written]
    · rw [units_append, hopened]
  refine .token ⟨left, '{' :: body ++ ['}'] ++ right, ?_, rfl⟩ (by decide) (by decide)
    (.token ⟨left ++ ['$'], body ++ ['}'] ++ right, ?_, units_append left ['$']⟩ (by decide)
      (by decide) (hinner.append hclose))
  · rw [hline]
    simp [Expression.written]
  · rw [hline]
    simp [Expression.written]

/-! ## The tokens of a line -/

/-- The tokens of an expression are those of its pieces and leave only its dots uncovered. -/
theorem isTiledBy_ofExpression {e : Expression} (h : (Expression.Cursor.start n line).Occurs e) :
    e.IsTiledBy line (ofExpression e) ∧ e.endColumn ≤ units line ∧
      (ofExpression e).Pairwise fun t t' => t.endColumn ≤ t'.startColumn := by
  obtain ⟨left, body, right, hline, -, -, rfl⟩ := h
  replace hline : line = left ++ Expression.written body ++ right := hline
  have htiles := tiles_ofExpression (n := n) hline
  have hstart : (Expression.Cursor.start n line).column + units left = units left :=
    Nat.zero_add (units left)
  rw [hstart]
  refine ⟨⟨htiles.isWithin, htiles.forall₂, ?_, ?_⟩, ?_, htiles.pairwise⟩
  · intro column hle hlt
    constructor
    · intro huncovered
      refine (htiles.covered_or_dot hle hlt).resolve_left ?_
      rintro ⟨t, ht, hcovers⟩
      exact huncovered t ht hcovers
    · exact htiles.not_covered_of_dot
  · have hsum := htiles.add_totalLength
    rw [Expression.endColumn, Nat.add_assoc] at hsum
    rw [String.toList_ofList]
    exact Nat.add_left_cancel hsum
  · show units left + units (Expression.written body) ≤ units line
    rw [hline, units_append, units_append]
    exact Nat.le_add_right _ _

end ExpressionToken

/-- **The tokens of a line tile its expressions.** They are not empty, lie within the line and end
before the next one begins. They are the tokens of the expressions of the line, one after the other:
for each of these, one for every piece that is highlighted, on exactly its text and with its role.
What they leave uncovered of an expression are its dots, and their widths and the number of the dots
add up to its width. -/
theorem tokenize_tiles (line : Line) :
    ((tokenize line).Pairwise fun t t' => t.endColumn ≤ t'.startColumn) ∧
    (∀ t ∈ tokenize line, 0 < t.length ∧ t.endColumn ≤ units line) ∧
    tokenize line =
      (Expression.Cursor.start 0 line).all.flatMap ExpressionToken.ofExpression ∧
    ∀ e ∈ (Expression.Cursor.start 0 line).all,
      e.IsTiledBy line (ExpressionToken.ofExpression e) := by
  have hscan := Expression.Cursor.isScan_all (Expression.Cursor.start 0 line)
  have hexpression : ∀ e ∈ (Expression.Cursor.start 0 line).all,
      e.IsTiledBy line (ExpressionToken.ofExpression e) ∧ e.endColumn ≤ units line ∧
        (ExpressionToken.ofExpression e).Pairwise fun t t' => t.endColumn ≤ t'.startColumn :=
    fun e he => ExpressionToken.isTiledBy_ofExpression (hscan.occurs e he)
  have hwithin : ∀ e ∈ (Expression.Cursor.start 0 line).all,
      ∀ t ∈ ExpressionToken.ofExpression e, t.IsWithin e.line e.startColumn e.endColumn :=
    fun e he => (hexpression e he).1.within
  refine ⟨?_, ?_, rfl, fun e he => (hexpression e he).1⟩
  · rw [tokenize, List.pairwise_flatMap]
    refine ⟨fun e he => (hexpression e he).2.2, hscan.ordered.imp_of_mem ?_⟩
    intro e e' he he' hcolumns t ht t' ht'
    exact Nat.le_trans (hwithin e he t ht).2.2.2
      (Nat.le_trans hcolumns (hwithin e' he' t' ht').2.1)
  · intro t ht
    obtain ⟨e, he, ht⟩ := List.mem_flatMap.1 ht
    obtain ⟨-, -, hlength, hstop⟩ := hwithin e he t ht
    exact ⟨hlength, Nat.le_trans hstop (hexpression e he).2.1⟩

/-- Two expressions after a letter that is not ASCII, the first with an empty segment and one whose
letter takes two columns. -/
def wideLine : Line := "é$\x7ba..𝄞.b\x7dx$\x7bc\x7d".toList

theorem tokenize_tiles_wideLine :
    ((⟨0, 6, 2, .middleSegment⟩ : ExpressionToken) ∈ tokenize wideLine ∧ 8 ≤ units wideLine) ∧
    (⟨0, 1, 10, "a..𝄞.b"⟩ : Expression) ∈ (Expression.Cursor.start 0 wideLine).all ∧
    wideLine.ShowsAt 5 ['.'] ∧ ¬ wideLine.ShowsAt 7 ['.'] := by
  obtain ⟨-, hwithin, -, htiled⟩ := tokenize_tiles wideLine
  have htoken : (⟨0, 6, 2, .middleSegment⟩ : ExpressionToken) ∈ tokenize wideLine := by
    decide +kernel
  have hexpression : (⟨0, 1, 10, "a..𝄞.b"⟩ : Expression) ∈
      (Expression.Cursor.start 0 wideLine).all := by
    decide +kernel
  have huncovered := (htiled _ hexpression).uncovered
  refine ⟨⟨htoken, (hwithin _ htoken).2⟩, hexpression, ?_, ?_⟩
  · exact (huncovered 5 (by decide) (by decide)).1 (by decide +kernel)
  · intro hdot
    have hnone := (huncovered 7 (by decide) (by decide)).2 hdot
    have hcovered : ¬ ∀ t ∈ ExpressionToken.ofExpression ⟨0, 1, 10, "a..𝄞.b"⟩,
        ¬ (t.startColumn ≤ 7 ∧ 7 < t.endColumn) := by
      decide +kernel
    exact hcovered hnone

end ResourceGraph

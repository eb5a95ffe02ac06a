import ResourceGraph.Analysis
import ResourceGraph.Proofs.Text.SharedStart

/-!
# Labels of reading faults

A fault tells where reading stopped by a line and a column in characters (`Yaml.Mark.after`). The
label of its report is put where an editor has that line and column, and there a column counts
UTF-16 code units. The two agree up to the first character that takes two units. After it the label
stands at the first character whose column is not before the one told.

Proves: on a text whose only line breaks are line feeds, the label is at the character where reading
stopped, and as wide as it, exactly if each character before it on its line takes one unit, the one
right before it aside. In all cases it is told which character is labelled, and a label always
begins between characters of the text and holds at most one (`Yaml.ReadFault.labels_report`).
-/

set_option autoImplicit false

namespace ResourceGraph

open Text

namespace Text

/-! ## Whole lines at the start of a text -/

/-- Whether a text is made of lines that all end in a line feed. -/
def AreLines (cs : List Char) : Prop := cs = [] ∨ ∃ start, cs = start ++ ['\n']

theorem rawLines_ended_append (start rest : List Char) :
    rawLines (start ++ '\n' :: rest) = rawLines (start ++ ['\n']) ++ rawLines rest := by
  induction start with
  | nil => simp [rawLines]
  | cons c start ih =>
    rw [List.cons_append, List.cons_append, rawLines, rawLines, ih]
    split
    · rfl
    · cases hraw : rawLines (start ++ ['\n']) with
      | nil =>
        -- the line feed is in some line
        have hnone := flatten_rawLines (start ++ ['\n'])
        rw [hraw] at hnone
        simp at hnone
      | cons l ls => rfl

theorem AreLines.rawLines_append {cs : List Char} (h : AreLines cs) (rest : List Char) :
    rawLines (cs ++ rest) = rawLines cs ++ rawLines rest := by
  rcases h with rfl | ⟨start, rfl⟩
  · rfl
  · rw [List.append_assoc, List.singleton_append, rawLines_ended_append]

theorem AreLines.above_append {cs : List Char} (h : AreLines cs) (rest : List Char) :
    above (cs ++ rest) (rawLines cs).length = cs := by
  rw [above, h.rawLines_append, List.take_left, flatten_rawLines]

theorem AreLines.onLine_append {cs : List Char} (h : AreLines cs) (rest : List Char) :
    onLine (cs ++ rest) (rawLines cs).length = onLine rest 0 := by
  rw [onLine, onLine, h.rawLines_append, List.getElem?_append_right (Nat.le_refl _), Nat.sub_self]

/-- What stands on the first line of a text begins the line, unless it runs into line ends. -/
theorem exists_onLine_append {lead : List Char} (h : ∀ c ∈ lead, isLineEnd c = false)
    (rest : List Char) : ∃ more, onLine (lead ++ rest) 0 = lead ++ more := by
  rcases List.eq_nil_or_concat' lead with rfl | ⟨start, c, rfl⟩
  · exact ⟨onLine rest 0, rfl⟩
  · have hfeed : '\n' ∉ start ++ [c] := by
      intro hmem
      exact absurd (h _ hmem) (by decide)
    obtain ⟨more, lines, hraw⟩ := rawLines_append hfeed (by simp) rest
    have hc : isLineEnd c = false := h c (by simp)
    refine ⟨dropTail isLineEnd more, ?_⟩
    rw [onLine, hraw, List.getElem?_cons_zero, Option.getD_some, List.append_assoc,
      List.singleton_append, dropTail_append_cons hc, List.append_assoc, List.singleton_append]

/-! ## Characters and units -/

theorem length_le_units (cs : List Char) : cs.length ≤ units cs := by
  induction cs with
  | nil => exact Nat.le_refl 0
  | cons c cs ih =>
    have hpos := charUnits_pos c
    rw [List.length_cons, units]
    omega

theorem units_le_length_iff {cs : List Char} :
    units cs ≤ cs.length ↔ ∀ c ∈ cs, charUnits c = 1 := by
  induction cs with
  | nil => simp [units]
  | cons c cs ih =>
    have hpos := charUnits_pos c
    have hlength := length_le_units cs
    rw [List.forall_mem_cons, ← ih, List.length_cons, units]
    omega

/-- The shortest beginning of a line that reaches to a column. -/
structure ReachesTo (column : Nat) (shown : List Char) : Prop where
  reaches : column ≤ units shown
  shortest : ∀ start c, shown = start ++ [c] → units start < column

/-- A column that is not past some beginning of a line is at a character of it or at its end. -/
theorem exists_reachesTo {column : Nat} {lead : List Char} (h : column ≤ units lead)
    (more : List Char) : ∃ shown skipped, lead = shown ++ skipped ∧ ReachesTo column shown ∧
      columnOffset column (lead ++ more) = bytes shown := by
  induction lead generalizing column with
  | nil =>
    obtain rfl : column = 0 := Nat.le_zero.1 h
    exact ⟨[], [], rfl, ⟨Nat.le_refl 0, by simp⟩, columnOffset_zero more⟩
  | cons c lead ih =>
    by_cases hzero : column = 0
    · subst hzero
      exact ⟨[], c :: lead, rfl, ⟨Nat.le_refl 0, by simp⟩, columnOffset_zero _⟩
    · rw [units] at h
      obtain ⟨shown, skipped, rfl, hshown, hoffset⟩ :=
        ih (show column - charUnits c ≤ units lead by omega)
      have hreaches := hshown.reaches
      refine ⟨c :: shown, skipped, rfl, ⟨?_, ?_⟩, ?_⟩
      · rw [units]
        omega
      · intro start d hstart
        cases start with
        | nil =>
          rw [units]
          omega
        | cons b start =>
          obtain ⟨rfl, hrest⟩ := List.cons.inj hstart
          have hshortest := hshown.shortest start d hrest
          rw [units]
          omega
      · rw [List.cons_append, columnOffset, if_neg hzero, hoffset, bytes]

/-- As many units as there are characters reach over all of them exactly if no character but the
last takes two. -/
theorem ReachesTo.eq_nil_iff {shown skipped : List Char}
    (h : ReachesTo (shown ++ skipped).length shown) :
    skipped = [] ↔ ∀ c ∈ (shown ++ skipped).dropLast, charUnits c = 1 := by
  constructor
  · rintro rfl
    rw [List.append_nil] at h ⊢
    rcases List.eq_nil_or_concat' shown with rfl | ⟨start, c, rfl⟩
    · simp
    · have hshortest := h.shortest start c rfl
      rw [List.length_append, List.length_singleton] at hshortest
      rw [List.dropLast_concat]
      exact units_le_length_iff.1 (Nat.le_of_lt_succ hshortest)
  · intro hunits
    rcases List.eq_nil_or_concat' skipped with rfl | ⟨start, c, rfl⟩
    · rfl
    · -- what reaches far enough would have to be wider than it is long
      rw [← List.append_assoc, List.dropLast_concat] at hunits
      have hwidth : units shown ≤ shown.length :=
        units_le_length_iff.2 fun d hd => hunits d (List.mem_append_left _ hd)
      have hreaches := h.reaches
      rw [List.length_append, List.length_append, List.length_singleton] at hreaches
      omega

end Text

/-! ## Marks -/

namespace Yaml

/-- A text of YAML with line feeds as its only line breaks. -/
def BreaksAreFeeds (cs : List Char) : Prop := ∀ c ∈ cs, isBreak c = true → c = '\n'

instance (cs : List Char) : Decidable (BreaksAreFeeds cs) :=
  decidable_of_iff (cs.all (fun c => !isBreak c || c == '\n') = true) (by
    simp [BreaksAreFeeds, List.all_eq_true, ← Bool.not_eq_true, Decidable.imp_iff_not_or])

theorem isBreak_of_isLineEnd {c : Char} (h : isLineEnd c = true) : isBreak c = true := by
  rw [isLineEnd, Bool.or_eq_true, beq_iff_eq, beq_iff_eq] at h
  rcases h with rfl | rfl <;> decide

namespace Mark

/-- The place after one more character. -/
def beyond (m : Mark) (c : Char) : Mark := if isBreak c then m.pastBreak [c] else m.past [c]

/-- The place after a text. -/
def after (cs : List Char) : Mark := cs.foldl beyond origin

/-- Whether a mark tells the place after some lines and the beginning of a further one. -/
structure StandsAfter (m : Mark) (upto lead : List Char) : Prop where
  areLines : AreLines upto
  noFeed : '\n' ∉ lead
  line_eq : m.line = (rawLines upto).length
  column_eq : m.column = lead.length

theorem standsAfter_origin : origin.StandsAfter [] [] :=
  ⟨Or.inl rfl, List.not_mem_nil, rfl, rfl⟩

theorem StandsAfter.beyond {m : Mark} {upto lead : List Char} (h : m.StandsAfter upto lead)
    {c : Char} (hc : isBreak c = true → c = '\n') :
    ∃ upto' lead', upto ++ lead ++ [c] = upto' ++ lead' ∧ (m.beyond c).StandsAfter upto' lead' := by
  by_cases hbreak : isBreak c = true
  · obtain rfl := hc hbreak
    have hraw : rawLines (upto ++ lead ++ ['\n']) = rawLines upto ++ [lead ++ ['\n']] := by
      rw [List.append_assoc, h.areLines.rawLines_append, rawLines_append_feed h.noFeed]
      rfl
    refine ⟨upto ++ lead ++ ['\n'], [], (List.append_nil _).symm, Or.inr ⟨_, rfl⟩,
      List.not_mem_nil, ?_, ?_⟩
    · rw [hraw, List.length_append, ← h.line_eq, Mark.beyond, if_pos hbreak]
      rfl
    · rw [Mark.beyond, if_pos hbreak]
      rfl
  · have hfeed : '\n' ∉ lead ++ [c] := by
      rw [List.mem_append, List.mem_singleton, not_or]
      refine ⟨h.noFeed, ?_⟩
      rintro rfl
      exact hbreak (by decide)
    refine ⟨upto, lead ++ [c], List.append_assoc _ _ _, h.areLines, hfeed, ?_, ?_⟩
    · rw [Mark.beyond, if_neg hbreak]
      exact h.line_eq
    · rw [Mark.beyond, if_neg hbreak, List.length_append, ← h.column_eq]
      rfl

theorem StandsAfter.foldl_beyond {m : Mark} {upto lead cs : List Char} (h : m.StandsAfter upto lead)
    (hcs : BreaksAreFeeds cs) : ∃ upto' lead', upto ++ lead ++ cs = upto' ++ lead' ∧
      (cs.foldl Mark.beyond m).StandsAfter upto' lead' := by
  induction cs generalizing m upto lead with
  | nil => exact ⟨upto, lead, List.append_nil _, h⟩
  | cons c cs ih =>
    obtain ⟨hc, hcs⟩ := List.forall_mem_cons.1 hcs
    obtain ⟨upto₁, lead₁, hfirst, hbeyond⟩ := h.beyond hc
    obtain ⟨upto₂, lead₂, hrest, hstands⟩ := ih hbeyond hcs
    refine ⟨upto₂, lead₂, ?_, hstands⟩
    rw [← hrest, ← hfirst, List.append_assoc _ [c] cs, List.singleton_append]

/-- After a text that breaks lines by line feeds alone, the line counts its lines that have ended,
and the column the characters since. -/
theorem exists_standsAfter {cs : List Char} (h : BreaksAreFeeds cs) :
    ∃ upto lead, cs = upto ++ lead ∧ (after cs).StandsAfter upto lead :=
  standsAfter_origin.foldl_beyond h

theorem StandsAfter.isLineEnd_eq_false {m : Mark} {upto lead : List Char}
    (h : m.StandsAfter upto lead) (hbreaks : BreaksAreFeeds (upto ++ lead)) :
    ∀ c ∈ lead, isLineEnd c = false := by
  intro c hc
  apply Bool.eq_false_iff.2
  intro hend
  have hfeed := hbreaks c (List.mem_append_right _ hc) (isBreak_of_isLineEnd hend)
  rw [hfeed] at hc
  exact h.noFeed hc

/-- The offset of the editor's position with the line and the column of a mark. -/
theorem StandsAfter.exists_offset {m : Mark} {upto lead : List Char}
    (h : m.StandsAfter upto lead) (hlead : ∀ c ∈ lead, isLineEnd c = false) (rest : List Char) :
    ∃ shown skipped, lead = shown ++ skipped ∧ ReachesTo m.column shown ∧
      offsetAt (upto ++ (lead ++ rest)) ⟨m.line, m.column⟩ = bytes (upto ++ shown) := by
  have hcolumn : m.column ≤ units lead := by
    rw [h.column_eq]
    exact length_le_units lead
  obtain ⟨more, hline⟩ := exists_onLine_append hlead rest
  obtain ⟨shown, skipped, hsplit, hshown, hoffset⟩ := exists_reachesTo hcolumn more
  refine ⟨shown, skipped, hsplit, hshown, ?_⟩
  rw [offsetAt_eq, h.line_eq, h.areLines.above_append, h.areLines.onLine_append, hline, hoffset,
    bytes_append]

end Mark

end Yaml

/-! ## Stretches of one character -/

namespace Source

/-- The width of the first character of a text in bytes, nothing for the empty text. -/
def headWidth (cs : List Char) : Nat := (cs.head?.map charBytes).getD 0

theorem characterSpan_of_cut {text : String} {p : Option Position} {before rest : List Char}
    (htext : text.toList = before ++ rest)
    (hoffset : (p.map (ofString text).offsetAt).getD 0 = bytes before) :
    (ofString text).characterSpan p = ⟨bytes before, headWidth rest⟩ := by
  have hdrop : dropBytes ((p.map (ofString text).offsetAt).getD 0) (ofString text).text.toList =
      rest := by
    rw [hoffset]
    show dropBytes (bytes before) text.toList = rest
    rw [htext, dropBytes_append]
  rw [characterSpan, hdrop, hoffset, headWidth]
  cases rest <;> rfl

/-- The stretch of the character at a position never begins or ends inside a character. -/
theorem cuts_characterSpan (text : String) (p : Option Position) :
    ((ofString text).characterSpan p).Cuts text.toList := by
  obtain ⟨before, rest, htext, hoffset⟩ : ∃ before rest, text.toList = before ++ rest ∧
      (p.map (ofString text).offsetAt).getD 0 = bytes before := by
    cases p with
    | none => exact ⟨[], text.toList, rfl, rfl⟩
    | some p => exact exists_cut_at_offset text.toList p
  rw [characterSpan_of_cut htext hoffset]
  cases rest with
  | nil => exact ⟨before, [], [], htext, rfl, rfl⟩
  | cons c rest => exact ⟨before, [c], rest, htext, rfl, rfl⟩

end Source

open Source

/-! ## Labels -/

namespace Yaml.ReadFault

theorem labels_of_cut {f : ReadFault} {text : String} {before rest : List Char}
    (htext : text.toList = before ++ rest)
    (hoffset : (f.position?.map (ofString text).offsetAt).getD 0 = bytes before) :
    (f.report (ofString text)).labels = [⟨f.message, ⟨bytes before, headWidth rest⟩⟩] := by
  rw [← characterSpan_of_cut htext hoffset]
  rfl

/-- Two labels with one text are at one place only if nothing is between the places. -/
theorem eq_nil_of_labels_eq {message : String} {before between : List Char} {m n : Nat}
    (h : [(⟨message, ⟨bytes before, m⟩⟩ : Label)] = [⟨message, ⟨bytes (before ++ between), n⟩⟩]) :
    between = [] := by
  have hbytes : bytes before = bytes (before ++ between) := by
    injection h with h
    injection h with _ hspan
    exact congrArg Span.offset hspan
  rw [bytes_append] at hbytes
  exact eq_nil_of_bytes_eq_zero (by omega)

/-- **A fault is labelled where its line and its column in characters lead as an editor's
position.** This is the character where reading stopped, or the end of the text, exactly if each
character before it on its line takes one UTF-16 code unit, the one right before it aside. Otherwise
it is the first character after so many units of the line as there are characters before the fault.
No label begins or ends inside a character. -/
theorem labels_report {f : ReadFault} {m : Mark} (hmark : f.mark? = some m) {text : String}
    {before rest : List Char} (htext : text.toList = before ++ rest)
    (hbreaks : BreaksAreFeeds text.toList) (hplace : m.samePlace (Mark.after before) = true) :
    (∃ upto shown skipped, before = upto ++ (shown ++ skipped) ∧
      (shown ++ skipped).length = m.column ∧ ReachesTo m.column shown ∧
      (f.report (ofString text)).labels =
        [⟨f.message, ⟨bytes (upto ++ shown), headWidth (skipped ++ rest)⟩⟩] ∧
      ((f.report (ofString text)).labels = [⟨f.message, ⟨bytes before, headWidth rest⟩⟩] ↔
        ∀ c ∈ (shown ++ skipped).dropLast, charUnits c = 1)) ∧
      ∀ label ∈ (f.report (ofString text)).labels, label.span.Cuts text.toList := by
  have hcuts : ∀ label ∈ (f.report (ofString text)).labels, label.span.Cuts text.toList := by
    intro label hlabel
    rw [List.mem_singleton.1 hlabel]
    exact cuts_characterSpan text f.position?
  rw [Mark.samePlace, Bool.and_eq_true, beq_iff_eq, beq_iff_eq] at hplace
  have hbefore : BreaksAreFeeds before := by
    intro c hc
    rw [htext] at hbreaks
    exact hbreaks c (List.mem_append_left _ hc)
  obtain ⟨upto, lead, rfl, hstands⟩ := Mark.exists_standsAfter hbefore
  obtain ⟨shown, skipped, rfl, hshown, hoffset⟩ :=
    hstands.exists_offset (hstands.isLineEnd_eq_false hbefore) rest
  rw [← hplace.2] at hshown
  have hlength : (shown ++ skipped).length = m.column := by
    rw [hplace.2, hstands.column_eq]
  -- the label is at the first character that the column does not reach over
  have hcut : text.toList = (upto ++ shown) ++ (skipped ++ rest) := by
    rw [htext]
    simp only [List.append_assoc]
  have hposition : (f.position?.map (ofString text).offsetAt).getD 0 = bytes (upto ++ shown) := by
    rw [position?, hmark, ← hoffset, ← hplace.1, ← hplace.2, ← List.append_assoc upto, ← htext]
    rfl
  have hlabels := labels_of_cut hcut hposition
  refine ⟨⟨upto, shown, skipped, rfl, hlength, hshown, hlabels, ?_⟩, hcuts⟩
  rw [← hlength] at hshown
  rw [← hshown.eq_nil_iff, hlabels, ← List.append_assoc upto]
  constructor
  · exact eq_nil_of_labels_eq
  · rintro rfl
    rw [List.append_nil, List.nil_append]

/-- A character of two units moves the label of an unknown alias to the space before it. The end of
a text right after such a character is labelled where it is. -/
theorem labels_report_aliasAfterPair :
    (("x: é\n😀 b: *c\n".toList = "x: é\n😀 b: ".toList ++ "*c\n".toList ∧
        BreaksAreFeeds "x: é\n😀 b: *c\n".toList ∧
        Mark.samePlace ⟨14, 1, 5⟩ (Mark.after "x: é\n😀 b: ".toList) = true) ∧
      ((load (.unknownAnchor ⟨14, 1, 5⟩)).report (ofString "x: é\n😀 b: *c\n")).labels ≠
        [⟨(load (.unknownAnchor ⟨14, 1, 5⟩)).message, ⟨14, 1⟩⟩]) ∧
    ("é: '😀".toList = "é: '😀".toList ++ [] ∧ BreaksAreFeeds "é: '😀".toList ∧
        Mark.samePlace ⟨9, 0, 5⟩ (Mark.after "é: '😀".toList) = true) ∧
      ((tooDeep ⟨9, 0, 5⟩).report (ofString "é: '😀")).labels =
        [⟨(tooDeep ⟨9, 0, 5⟩).message, ⟨9, 0⟩⟩] := by
  have hpair : "x: é\n😀 b: *c\n".toList = "x: é\n😀 b: ".toList ++ "*c\n".toList := by decide
  have hpairBreaks : BreaksAreFeeds "x: é\n😀 b: *c\n".toList := by decide
  have hpairPlace : Mark.samePlace ⟨14, 1, 5⟩ (Mark.after "x: é\n😀 b: ".toList) = true := by decide
  have hend : "é: '😀".toList = "é: '😀".toList ++ [] := (List.append_nil _).symm
  have hendBreaks : BreaksAreFeeds "é: '😀".toList := by decide
  have hendPlace : Mark.samePlace ⟨9, 0, 5⟩ (Mark.after "é: '😀".toList) = true := by decide
  refine ⟨⟨⟨hpair, hpairBreaks, hpairPlace⟩, ?_⟩, ⟨hend, hendBreaks, hendPlace⟩, ?_⟩
  · obtain ⟨⟨upto, shown, skipped, hbefore, hlength, -, -, hexact⟩, -⟩ :=
      labels_report (f := load (.unknownAnchor ⟨14, 1, 5⟩)) rfl hpair hpairBreaks hpairPlace
    obtain ⟨-, hlead⟩ :=
      List.append_inj' (show "x: é\n".toList ++ "😀 b: ".toList = _ from hbefore) hlength.symm
    intro hsame
    have hunits := hexact.1 hsame
    rw [← hlead] at hunits
    exact absurd (hunits '😀' (by decide)) (by decide)
  · obtain ⟨⟨upto, shown, skipped, hbefore, hlength, -, -, hexact⟩, -⟩ :=
      labels_report (f := tooDeep ⟨9, 0, 5⟩) rfl hend hendBreaks hendPlace
    obtain ⟨-, hlead⟩ :=
      List.append_inj' (show [] ++ "é: '😀".toList = _ from hbefore) hlength.symm
    apply hexact.2
    rw [← hlead]
    exact units_le_length_iff.1 (by decide)

end Yaml.ReadFault

end ResourceGraph

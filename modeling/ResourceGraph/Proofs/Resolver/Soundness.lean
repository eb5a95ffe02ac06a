import ResourceGraph.Proofs.Resolver.Extent
import ResourceGraph.Proofs.Resolver.Walk
import ResourceGraph.Proofs.Text.Written

/-!
# What stands where a path is found

On any text whose lines begin right after their indentation, a path is found only where its last
segment is written (`position_indentation_written`). For a key that is the place after a colon which
separates that key, written after the indentation of its line and the list markers there; for an
index it is the dash of a list marker that has nothing but blanks and other markers before it.

The search takes a line apart from its start: each marker it matches is followed by blanks, and what
is left of the line begins there (`Walk.isWrittenAt_of_descend`).
-/

set_option autoImplicit false

namespace ResourceGraph

open Text

/-! ## Where segments are written -/

/-- What may stand before a key or a marker on its line: indentation, and markers with their blanks.
-/
inductive Line.IsLead : List Char → Prop
  | indent {blanks : List Char} : (∀ c ∈ blanks, isIndent c = true) → IsLead blanks
  | marker {lead blanks : List Char} : IsLead lead → blanks ≠ [] →
    (∀ c ∈ blanks, isIndent c = true) → IsLead (lead ++ '-' :: blanks)

/-- Whether a segment is written at a column of a line. For a key that is the column after its
colon, and for an index that of a dash. -/
def Segment.IsWrittenAt (line : Line) (column : Nat) : Segment → Prop
  | .key name => ∃ lead written gap rest, line = lead ++ written ++ gap ++ ':' :: rest ∧
    Line.IsLead lead ∧ (∀ c ∈ written.head?, isIndent c = false) ∧
    Line.IsWritten name.toList written ∧ (∀ c ∈ gap, isBlank c = true) ∧ StartsBlank rest ∧
    column = units (lead ++ written ++ gap) + 1
  | .index _ => ∃ lead rest, line = lead ++ '-' :: rest ∧ Line.IsLead lead ∧ StartsBlank rest ∧
    column = units lead

namespace Walk

variable {pending path : List Segment} {column found : Nat} {content : Line} {w w' : Walk}
  {entries : List Entry} {p : Position}

/-! ## One line -/

theorem descend_nil : descend pending column [] w = .going w := by
  cases pending with
  | nil => rfl
  | cons segment rest => cases segment <;> rfl

/-- A key that the text after a lead has is written after that lead. -/
theorem isWrittenAt_key {line lead tail : List Char} {name : String} {k : Line.Key}
    (hline : line = lead ++ content ++ tail) (hlead : Line.IsLead lead)
    (hcontent : ∀ c ∈ content.head?, isIndent c = false) (htail : ∀ c ∈ tail, isBlank c = true)
    (hkey : Line.key? content = some k) (hname : k.key = name.toList) :
    (Segment.key name).IsWrittenAt line (units lead + k.width) := by
  obtain ⟨written, gap, hhead, hwritten, hgap, hblank⟩ := Line.of_key? hkey
  rw [hname] at hwritten
  have hsplit : content = written ++ gap ++ ':' :: k.rest := by
    rw [← hhead]
    exact Line.key?_eq_some hkey
  refine ⟨lead, written, gap, k.rest ++ tail, ?_, hlead, ?_, hwritten, hgap,
    hblank.append (startsBlank_of_forall htail), ?_⟩
  · rw [hline, hsplit]
    simp
  · intro c hc
    apply hcontent
    rw [hsplit, List.append_assoc, List.head?_append]
    exact Option.or_eq_some_iff.2 (Or.inl hc)
  · rw [List.append_assoc, ← hhead, units_append, Line.Key.width, Nat.add_assoc]

/-- A marker that the text after a lead begins with is written after that lead. Together with its
blanks, if it has any, it is a lead of the text in the item. -/
theorem isWrittenAt_index {line lead tail : List Char} {i : Nat} {item : Line.Item}
    (hline : line = lead ++ content ++ tail) (hlead : Line.IsLead lead)
    (htail : ∀ c ∈ tail, isBlank c = true) (hitem : Line.item? content = some item) :
    (Segment.index i).IsWrittenAt line (units lead) ∧
      (item.body ≠ [] → ∃ lead', line = lead' ++ item.body ++ tail ∧ Line.IsLead lead' ∧
        units lead + item.offset = units lead') := by
  obtain ⟨blanks, hsplit, hoffset, hblanks, -, hbare⟩ := Line.of_item? hitem
  constructor
  · refine ⟨lead, blanks ++ (item.body ++ tail), ?_, hlead, ?_, rfl⟩
    · rw [hline, hsplit]
      simp
    · -- without blanks after the dash only the white space at the end is left
      cases blanks with
      | nil =>
        rw [hbare rfl]
        exact startsBlank_of_forall htail
      | cons c blanks =>
        intro d hd
        obtain rfl := Option.some.inj hd
        exact isBlank_of_isIndent (hblanks c List.mem_cons_self)
  · intro hbody
    have hne : blanks ≠ [] := fun hnil => hbody (hbare hnil)
    refine ⟨lead ++ '-' :: blanks, ?_, .marker hlead hne hblanks, ?_⟩
    · rw [hline, hsplit]
      simp
    · have hdash : charUnits '-' = 1 := by decide
      rw [units_append, units, hdash, hoffset]

/-- What is found on a line is the last segment that was searched, where it is written. -/
theorem isWrittenAt_of_descend {line lead tail : List Char}
    (hline : line = lead ++ content ++ tail) (hlead : Line.IsLead lead)
    (hcontent : ∀ c ∈ content.head?, isIndent c = false) (htail : ∀ c ∈ tail, isBlank c = true)
    (hcolumn : column = units lead) (h : descend pending column content w = .found found) :
    ∃ segment, pending.getLast? = some segment ∧ segment.IsWrittenAt line found := by
  -- each marker that is matched, with its blanks, goes over to what stands before the rest
  induction pending generalizing lead content column w with
  | nil => simp [descend] at h
  | cons segment rest ih =>
    cases segment with
    | key name =>
      obtain ⟨rfl, k, hkey, hname, rfl⟩ := of_descend_key h
      rw [hcolumn]
      exact ⟨.key name, rfl, isWrittenAt_key hline hlead hcontent htail hkey hname⟩
    | index i =>
      obtain ⟨item, hitem, hrest⟩ := of_descend_index h
      obtain ⟨hmarker, hbody⟩ := isWrittenAt_index (i := i) hline hlead htail hitem
      rcases hrest with ⟨rfl, rfl⟩ | ⟨hne, w', hrest⟩
      · rw [hcolumn]
        exact ⟨.index i, rfl, hmarker⟩
      · have hfilled : item.body ≠ [] := by
          intro hempty
          rw [hempty, descend_nil] at hrest
          simp at hrest
        obtain ⟨lead', hline', hlead', hunits⟩ := hbody hfilled
        obtain ⟨-, -, -, -, hhead, -⟩ := Line.of_item? hitem
        rw [← hcolumn] at hunits
        obtain ⟨segment, hlast, hwritten⟩ := ih hline' hlead' hhead hunits hrest
        refine ⟨segment, ?_, hwritten⟩
        rw [List.getLast?_cons_of_ne_nil hne, hlast]

/-! ## All lines -/

/-- What is left to be searched after a line is the end of the path. -/
theorem suffix_of_descend (hpending : pending <:+ path) (hw : w.pending <:+ path)
    (h : descend pending column content w = .going w') : w'.pending <:+ path := by
  induction pending generalizing column content w with
  | nil =>
    rw [descend, Outcome.going.injEq] at h
    rwa [← h]
  | cons segment rest ih =>
    have hrest : rest <:+ path := (List.suffix_cons segment rest).trans hpending
    cases firstMatch segment column content w with
    | passed fixed seen _ hgoing =>
      rw [hgoing rest w.pending, Outcome.going.injEq] at h
      rwa [← h]
    | key found _ hkey =>
      rw [hkey rest w.pending] at h
      split at h
      · simp at h
      · rw [Outcome.going.injEq] at h
        rwa [← h]
    | marker inner body child _ hmarker =>
      rw [hmarker rest w.pending] at h
      split at h
      · simp at h
      · exact ih hrest hrest h

/-- A path is found where an end of it is matched against an entry. -/
theorem exists_descend_of_run (hw : w.pending <:+ path) (h : run path entries w = some p) :
    ∃ e ∈ entries, p.line = e.line ∧ ∃ pending u, pending <:+ path ∧
      descend pending e.indent e.content u = .found p.character := by
  induction entries generalizing w with
  | nil => simp [run] at h
  | cons e rest ih =>
    rw [run] at h
    -- the entry is passed over, or matched with what is searched or with the whole path
    rcases step_cases path e w with hstep | ⟨u, hu, hstep⟩
    · rw [hstep] at h
      obtain ⟨e', he', hfound⟩ := ih hw h
      exact ⟨e', List.mem_cons_of_mem e he', hfound⟩
    · have hpending : u.pending <:+ path := by
        rcases hu with rfl | hu
        · exact List.suffix_refl path
        · rwa [hu]
      rw [hstep] at h
      split at h
      · rename_i column hdescend
        obtain rfl := Option.some.inj h
        exact ⟨e, List.mem_cons_self, rfl, u.pending, u, hpending, hdescend⟩
      · rename_i w' hdescend
        obtain ⟨e', he', hfound⟩ := ih (suffix_of_descend hpending hpending hdescend) h
        exact ⟨e', List.mem_cons_of_mem e he', hfound⟩

end Walk

/-- A path that is located has its last segment written there. -/
theorem exists_written_of_locate? {s : Source} {path : Path} {p : Position}
    (hflush : ∀ line ∈ s.lines, line.IsFlush) (h : locate? s.entries path = some p) :
    ∃ line segment, s.line? p.line = some line ∧ Line.isIgnorable (trim line) = false ∧
      path.segments.getLast? = some segment ∧ segment.IsWrittenAt line p.character := by
  rw [locate?] at h
  split at h
  · exact absurd h.symm (Option.some_ne_none p)
  · obtain ⟨e, he, hnumber, pending, u, hpending, hfound⟩ :=
      Walk.exists_descend_of_run (List.suffix_refl path.segments) h
    rw [s.entries_eq] at he
    obtain ⟨n, line, hn, hentry⟩ := Entry.mem_ofLines he
    rw [Nat.zero_add] at hentry
    obtain ⟨hkeep, indent, tail, hline, hindent, hblanks, hcontent, htail⟩ :=
      Entry.of_ofLine? (hflush line (List.mem_of_getElem? hn)) hentry
    obtain ⟨segment, hlast, hwritten⟩ :=
      Walk.isWrittenAt_of_descend hline (.indent hblanks) hcontent htail hindent hfound
    refine ⟨line, segment, ?_, hkeep, ?_, hwritten⟩
    · rw [hnumber, Entry.line_of_ofLine? hentry]
      exact hn
    · -- what was searched is the end of the path, so both have the same last segment
      obtain ⟨before, hbefore⟩ := hpending
      rw [← hbefore, List.getLast?_append, hlast]
      rfl

namespace Resolver

/-- **A path is found only where its last segment is written.** On any text whose lines begin right
after their indentation, the position of a path stands for "not found", or it is on a line that is
neither blank nor a comment, after the colon of the last key or at the marker of the last index. -/
theorem position_indentation_written {text : String}
    (hflush : ∀ line ∈ splitLines text.toList, Line.IsFlush line) (path : Path) :
    indentation.position (Source.ofString text) path = (Source.ofString text).endPosition ∨
      ∃ line segment,
        (Source.ofString text).line? (indentation.position (Source.ofString text) path).line =
            some line ∧
          Line.isIgnorable (trim line) = false ∧ path.segments.getLast? = some segment ∧
          segment.IsWrittenAt line
            (indentation.position (Source.ofString text) path).character := by
  show (locate? (Source.ofString text).entries path).getD _ = _ ∨ _
  cases hlocate : locate? (Source.ofString text).entries path with
  | none => exact Or.inl rfl
  | some p =>
    right
    rw [position_of_locate? hlocate]
    exact exists_written_of_locate? hflush hlocate

/-- A key in quotes, with a colon in it, after two markers on one line. -/
def quotedKeyText : String := "list:\n- -\t\"é: x\" : v\n  - y\n"

/-- The path of that key. -/
def quotedKeyPath : Path := ⟨[.key "list", .index 0, .index 0, .key "é: x"]⟩

theorem position_indentation_written_quotedKey :
    (∀ line ∈ splitLines quotedKeyText.toList, Line.IsFlush line) ∧
      indentation.position (Source.ofString quotedKeyText) quotedKeyPath = ⟨1, 12⟩ ∧
      (indentation.position (Source.ofString quotedKeyText) quotedKeyPath =
          (Source.ofString quotedKeyText).endPosition ∨
        ∃ line segment,
          (Source.ofString quotedKeyText).line?
              (indentation.position (Source.ofString quotedKeyText) quotedKeyPath).line =
              some line ∧
            Line.isIgnorable (trim line) = false ∧
            quotedKeyPath.segments.getLast? = some segment ∧
            segment.IsWrittenAt line
              (indentation.position (Source.ofString quotedKeyText) quotedKeyPath).character) := by
  have hflush : ∀ line ∈ splitLines quotedKeyText.toList, Line.IsFlush line := by
    decide +kernel
  exact ⟨hflush, by decide +kernel, position_indentation_written hflush quotedKeyPath⟩

end Resolver

end ResourceGraph

import ResourceGraph.Node.Reading
import ResourceGraph.Proofs.Text.LineBreak
import ResourceGraph.Proofs.Validation.Acceptance
import ResourceGraph.Proofs.Yaml.Heading

/-!
# Header lines

A version line holds the version plain or between quotes, with blanks or a comment behind it
(`IsVersionLine`). A text that begins with one has the version in its tree if no line below goes on
with it (`get?_apiVersion`), and one with the kind line below that has the kind as well (`get?_kind`),
whatever else stands below. The checks find the keys of the header on the lines of such a text
(`lineStartsWith_apiVersion`, `lineStartsWith_kind`).
-/

set_option autoImplicit false

namespace ResourceGraph

open Text

/-- Whether a text is a plain word that stands for itself, and not for a number or the like. -/
def isPlainText (cs : List Char) : Bool := Yaml.isPlainWord cs && Yaml.Scalar.ofPlain cs == .text

theorem isPlainText_iff {cs : List Char} : isPlainText cs = true ↔
    Yaml.isPlainWord cs = true ∧ Yaml.Scalar.ofPlain cs = .text := by
  rw [isPlainText, Bool.and_eq_true, beq_iff_eq]

/-- Settings whose two values are plain texts. -/
structure Settings.IsPlain (settings : Settings) : Prop where
  version : isPlainText settings.apiVersion.toList = true
  kind : isPlainText settings.kind.toList = true

theorem Settings.isPlain_standard : Settings.standard.IsPlain := by
  constructor
  · decide
  · decide

theorem Text.AreReturns.isSeparation {returns : List Char} (h : AreReturns returns) :
    ∀ c ∈ returns, Yaml.isSeparation c = true := by
  intro c hc
  rw [h c hc]
  decide

/-! ## The tree of a text with header lines -/

theorem Node.entriesOfValues_valuesOf (es : List Yaml.WrittenEntry)
    (more : List (Yaml.Value × Yaml.Value)) : Node.entriesOfValues (Yaml.valuesOf es ++ more) =
      es.map (fun e => (String.ofList e.key, .string (String.ofList e.value))) ++
        Node.entriesOfValues more := by
  induction es with
  | nil => rfl
  | cons e es ih =>
    show (String.ofList e.key, _) :: Node.entriesOfValues (Yaml.valuesOf es ++ more) = _
    rw [ih]
    rfl

/-- A tree read from a text that begins with some entries has these entries first. -/
theorem Node.parse_beginsWith {es : List Yaml.WrittenEntry} {text : String} {tree : Node}
    (h : Yaml.BeginsWith es text.toList) (htexts : ∀ e ∈ es, e.IsText)
    (htree : Node.parse text = .ok tree) :
    ∃ more, tree = .mapping
      (es.map (fun e => (String.ofList e.key, .string (String.ofList e.value))) ++ more) := by
  rw [Node.parse] at htree
  cases hvalue : Yaml.Value.ofText text.toList with
  | error fault =>
    rw [hvalue] at htree
    exact absurd htree (by simp [Except.map])
  | ok value =>
    rw [hvalue] at htree
    obtain ⟨more, rfl⟩ := Yaml.Value.ofText_beginsWith h htexts value hvalue
    refine ⟨Node.entriesOfValues more, ?_⟩
    rw [← Node.entriesOfValues_valuesOf]
    exact (Except.ok.inj htree).symm

section Header

variable {settings : Settings}

/-- The entry of the version, in the style that it is written in. -/
def Settings.versionEntry (settings : Settings) (style : Yaml.ScalarStyle) : Yaml.WrittenEntry :=
  ⟨"apiVersion".toList, settings.apiVersion.toList, style⟩

/-- The entry of the kind, as a fix writes it. -/
def Settings.kindEntry (settings : Settings) : Yaml.WrittenEntry :=
  ⟨"kind".toList, settings.kind.toList, .plain⟩

@[simp]
theorem Settings.ofList_key_versionEntry (settings : Settings) (style : Yaml.ScalarStyle) :
    String.ofList (settings.versionEntry style).key = "apiVersion" :=
  String.ofList_toList

@[simp]
theorem Settings.ofList_value_versionEntry (settings : Settings) (style : Yaml.ScalarStyle) :
    String.ofList (settings.versionEntry style).value = settings.apiVersion :=
  String.ofList_toList

@[simp]
theorem Settings.ofList_key_kindEntry (settings : Settings) :
    String.ofList settings.kindEntry.key = "kind" :=
  String.ofList_toList

@[simp]
theorem Settings.ofList_value_kindEntry (settings : Settings) :
    String.ofList settings.kindEntry.value = settings.kind :=
  String.ofList_toList

/-- Whether a line gives the version, in any style and with no more than blanks and a comment around
it. -/
def IsVersionLine (settings : Settings) (line : List Char) : Prop :=
  ∃ style, (settings.versionEntry style).IsOn line

theorem Settings.IsPlain.isText_versionEntry (hs : settings.IsPlain) (style : Yaml.ScalarStyle) :
    (settings.versionEntry style).IsText := by
  have hkey : Yaml.Scalar.ofPlain "apiVersion".toList = .text := by decide
  exact ⟨hkey, fun _ => (isPlainText_iff.1 hs.version).2⟩

theorem Settings.IsPlain.isText_kindEntry (hs : settings.IsPlain) : settings.kindEntry.IsText := by
  have hkey : Yaml.Scalar.ofPlain "kind".toList = .text := by decide
  exact ⟨hkey, fun _ => (isPlainText_iff.1 hs.kind).2⟩

/-- A word behind its key, one blank apart, is on a line. -/
theorem isOn_of_isPlainWord {key value : List Char} (hkey : Yaml.isPlainWord key = true)
    (hshort : bytes key ≤ 1024) (hvalue : Yaml.isPlainWord value = true) :
    (Yaml.WrittenEntry.mk key value .plain).IsOn (key ++ ':' :: ' ' :: value) := by
  have hon := Yaml.WrittenEntry.IsOn.line (e := ⟨key, value, .plain⟩) hkey hshort
    (List.cons_ne_nil ' ' []) (by simp [Yaml.isSpace]) (.plain hvalue) Yaml.isTail_nil
  simpa using hon

theorem Settings.IsPlain.isVersionLine (hs : settings.IsPlain) :
    IsVersionLine settings settings.apiVersionLine.toList := by
  refine ⟨.plain, ?_⟩
  rw [Settings.apiVersionLine, String.toList_append]
  exact isOn_of_isPlainWord (by decide) (by decide) (isPlainText_iff.1 hs.version).1

theorem Settings.IsPlain.isOn_kindLine (hs : settings.IsPlain) :
    settings.kindEntry.IsOn settings.kindLine.toList := by
  rw [Settings.kindLine, String.toList_append]
  exact isOn_of_isPlainWord (by decide) (by decide) (isPlainText_iff.1 hs.kind).1

/-- A version line begins with the key of the version. -/
theorem IsVersionLine.exists_eq {line : List Char} (h : IsVersionLine settings line) :
    ∃ more, line = "apiVersion:".toList ++ more := by
  obtain ⟨style, ⟨-, -, -, -, -, -⟩⟩ := h
  exact ⟨_, rfl⟩

/-- The kind line begins with a letter, so it goes on with no scalar of a line above it. -/
theorem endsScalar_kindLine {returns : List Char} (hreturns : AreReturns returns)
    (rest : List Char) :
    Yaml.endsScalar (returns ++ '\n' :: (settings.kindLine.toList ++ rest)) = true := by
  rw [Yaml.endsScalar_feed hreturns.isSeparation, Settings.kindLine, String.toList_append]
  rfl

variable (hs : settings.IsPlain) {text : String} {line rest : List Char} {tree : Node}
  (hline : IsVersionLine settings line)
include hs hline

/-- The tree of a text that begins with a version line has the version. -/
theorem get?_apiVersion (htext : text.toList = line ++ rest) (hrest : Yaml.endsScalar rest = true)
    (htree : Node.parse text = .ok tree) :
    tree.get? "apiVersion" = some (.string settings.apiVersion) := by
  obtain ⟨style, hon⟩ := hline
  have hbegins := Yaml.BeginsWith.last hon hrest
  rw [← htext] at hbegins
  have htexts : ∀ e ∈ [settings.versionEntry style], e.IsText := by
    intro e he
    rw [List.mem_singleton.1 he]
    exact hs.isText_versionEntry style
  obtain ⟨more, rfl⟩ := Node.parse_beginsWith hbegins htexts htree
  simp [Node.get?]

/-- The tree of a text that begins with a version line and the kind line has the kind. -/
theorem get?_kind {returns : List Char} (hreturns : AreReturns returns)
    (htext : text.toList = line ++ (returns ++ '\n' :: (settings.kindLine.toList ++ rest)))
    (hrest : Yaml.endsScalar rest = true) (htree : Node.parse text = .ok tree) :
    tree.get? "kind" = some (.string settings.kind) := by
  obtain ⟨style, hon⟩ := hline
  have hbreaks : ∀ c ∈ returns ++ ['\n'], Yaml.isBreak c = true := by
    intro c hc
    rcases List.mem_append.1 hc with hc | hc
    · rw [hreturns c hc]
      decide
    · rw [List.mem_singleton.1 hc]
      decide
  have hbegins := Yaml.BeginsWith.entry hon (by simp) hbreaks (.last hs.isOn_kindLine hrest)
  rw [List.append_assoc returns, List.singleton_append, ← htext] at hbegins
  have htexts : ∀ e ∈ [settings.versionEntry style, settings.kindEntry], e.IsText := by
    intro e he
    rcases List.mem_cons.1 he with rfl | he
    · exact hs.isText_versionEntry style
    · rw [List.mem_singleton.1 he]
      exact hs.isText_kindEntry
  obtain ⟨more, rfl⟩ := Node.parse_beginsWith hbegins htexts htree
  have hkeys : ("kind" == "apiVersion") = false := by decide
  simp [Node.get?, List.lookup_cons, hkeys]

end Header

/-! ## The lines of a text with header lines -/

theorem isLineEnd_of_isPlainText {cs : List Char} (h : isPlainText cs = true) :
    ∀ c ∈ cs, isLineEnd c = false := by
  intro c hc
  have hseparation := ((Yaml.isPlainWord_iff.1 (isPlainText_iff.1 h).1).2 c hc).1
  apply Bool.eq_false_iff.2
  intro hend
  rw [isLineEnd, Bool.or_eq_true, beq_iff_eq, beq_iff_eq] at hend
  rcases hend with rfl | rfl
  · exact absurd hseparation (by decide)
  · exact absurd hseparation (by decide)

/-- Settings whose two values hold no line feeds and no carriage returns. -/
structure Settings.IsOneLine (settings : Settings) : Prop where
  version : Text.IsOneLine settings.apiVersion.toList
  kind : Text.IsOneLine settings.kind.toList

theorem Settings.IsPlain.isOneLine {settings : Settings} (hs : settings.IsPlain) :
    settings.IsOneLine :=
  ⟨isLineEnd_of_isPlainText hs.version, isLineEnd_of_isPlainText hs.kind⟩

theorem isOneLine_of_any {cs : List Char} (h : cs.any isLineEnd = false) : Text.IsOneLine cs :=
  fun c hc => Bool.eq_false_iff.2 (List.any_eq_false.1 h c hc)

theorem isOneLine_append {key value : String} (hkey : key.toList.any isLineEnd = false)
    (hvalue : IsOneLine value.toList) : IsOneLine (key ++ value).toList := by
  intro c hc
  rw [String.toList_append, List.mem_append] at hc
  rcases hc with hc | hc
  · exact isOneLine_of_any hkey c hc
  · exact hvalue c hc

theorem Settings.IsOneLine.apiVersionLine {settings : Settings} (hs : settings.IsOneLine) :
    Text.IsOneLine settings.apiVersionLine.toList :=
  isOneLine_append (by decide) hs.version

theorem Settings.IsOneLine.kindLine {settings : Settings} (hs : settings.IsOneLine) :
    Text.IsOneLine settings.kindLine.toList :=
  isOneLine_append (by decide) hs.kind

theorem isBare_apiVersionLine {settings : Settings} (hs : settings.IsPlain) :
    IsBare settings.apiVersionLine.toList :=
  isBare_of_forall hs.isOneLine.apiVersionLine

theorem apiVersionLine_ne_nil (settings : Settings) : settings.apiVersionLine.toList ≠ [] := by
  rw [Settings.apiVersionLine, String.toList_append]
  exact List.cons_ne_nil _ _

theorem kindLine_ne_nil (settings : Settings) : settings.kindLine.toList ≠ [] := by
  rw [Settings.kindLine, String.toList_append]
  exact List.cons_ne_nil _ _

section Lines

variable {settings : Settings} {v : Validator} {text : String} {line rest : List Char}
  (hv : v.source = Source.ofString text)
include hv

/-- A text that begins with a version line has a first line with the key of the version. -/
theorem lineStartsWith_apiVersion (hline : IsVersionLine settings line)
    (htext : text.toList = line ++ rest) : v.lineStartsWith 0 "apiVersion:" = true := by
  obtain ⟨after, rfl⟩ := hline.exists_eq
  have hkey : Text.IsOneLine "apiVersion:".toList := isOneLine_of_any (by decide)
  obtain ⟨more, lines, hlines⟩ := splitLines_append hkey (by decide) (after ++ rest)
  rw [Validator.lineStartsWith_iff, hv]
  refine ⟨"apiVersion:".toList ++ more, ?_, ?_⟩
  · show (splitLines text.toList)[0]? = _
    rw [htext, List.append_assoc, hlines]
    rfl
  · have hsolid : Line.isSolid "apiVersion:".toList = true := by decide
    exact prefix_trim hsolid _

/-- A text with the kind line below its first line has a second line with the key of the kind. -/
theorem lineStartsWith_kind (hs : settings.IsPlain) {returns : List Char} (hline : IsBare line)
    (hreturns : AreReturns returns)
    (htext : text.toList = line ++ (returns ++ '\n' :: (settings.kindLine.toList ++ rest))) :
    2 ≤ v.source.lineCount ∧ v.lineStartsWith 1 "kind:" = true := by
  obtain ⟨more, lines, hlines⟩ :=
    splitLines_append hs.isOneLine.kindLine (kindLine_ne_nil settings) rest
  have hsource : v.source.lines =
      stripBreak (line ++ (returns ++ ['\n'])) :: (settings.kindLine.toList ++ more) :: lines := by
    rw [hv]
    show splitLines text.toList = _
    rw [htext, splitLines, rawLines_bare_feed hline hreturns, List.map_cons]
    exact congrArg _ hlines
  constructor
  · rw [Source.lineCount, hsource]
    exact Nat.le_add_left 2 lines.length
  · rw [Validator.lineStartsWith_iff, hsource]
    refine ⟨settings.kindLine.toList ++ more, rfl, ?_⟩
    rw [Settings.kindLine, String.toList_append, List.append_assoc]
    have hsolid : Line.isSolid "kind:".toList = true := by decide
    exact prefix_trim hsolid _

end Lines

end ResourceGraph

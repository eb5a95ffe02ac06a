import ResourceGraph.Node.Reading
import ResourceGraph.Proofs.Layout.Site
import ResourceGraph.Proofs.Resolver.Lookup
import ResourceGraph.Proofs.Validation.Header
import ResourceGraph.Proofs.Validation.Placement

/-!
# Findings after a key

That the metadata has no name, that there is no spec, and that the resources are no sequence is
found at the start of the line after a key. The key is looked up by its name alone: the first line
that is written with it counts, whatever mapping it belongs to. On a printed document this line is
never below that of the section the finding is about, and the finding stands right after its section
exactly if no line above is written with the same name (`validate_afterKey`). A group of a schema
that is named like a section draws the findings on the section to itself
(`validate_namesakesAbove`).
-/

set_option autoImplicit false

namespace ResourceGraph

open Text

/-! ## The first line with a key -/

/-- The first element that passes a test is not behind any that does, and it is a given one exactly
if none before that one passes. -/
theorem exists_findIdx?_le {α : Type} {p : α → Bool} {as : List α} {m : Nat} {a : α}
    (ha : as[m]? = some a) (hp : p a = true) :
    ∃ n ≤ m, as.findIdx? p = some n ∧ (n = m ↔ ∀ b ∈ as.take m, p b = false) := by
  induction as generalizing m with
  | nil => simp at ha
  | cons b as ih =>
    cases m with
    | zero =>
      obtain rfl : b = a := by simpa using ha
      exact ⟨0, Nat.le_refl 0, by simp [List.findIdx?_cons, hp], by simp⟩
    | succ m =>
      cases hb : p b with
      | true => exact ⟨0, Nat.zero_le _, by simp [List.findIdx?_cons, hb], by simp [hb]⟩
      | false =>
        obtain ⟨n, hn, hfound, hfirst⟩ := ih ha
        refine ⟨n + 1, Nat.succ_le_succ hn, by simp [List.findIdx?_cons, hb, hfound], ?_⟩
        rw [Nat.add_right_cancel_iff, hfirst, List.take_succ_cons, List.forall_mem_cons]
        exact ⟨fun h => ⟨hb, h⟩, fun h => h.2⟩

/-! ## The line of a key -/

theorem Line.afterSeparator?_dropTail {rest : List Char}
    (h : afterSeparator? (':' :: rest) = some rest) :
    afterSeparator? (':' :: dropTail isBlank rest) = some (dropTail isBlank rest) := by
  cases rest with
  | nil => rfl
  | cons c cs =>
    have hc : isBlank c = true := by
      rw [afterSeparator?] at h
      split at h
      · assumption
      · exact absurd h (by simp)
    -- either the white space after the colon goes too, or it still stands there
    rw [dropTail]
    split
    · rw [if_pos hc]
      rfl
    · simp [afterSeparator?, hc]

/-- A line that begins with a word and a colon is written with that word, whatever white space is at
its end. -/
theorem Line.hasKey_trim_word {word rest : List Char} (hword : Block.isWord word = true)
    (hrest : afterSeparator? (':' :: rest) = some rest) :
    hasKey word (trim (word ++ ':' :: rest)) = true := by
  obtain ⟨c, tail, hcons, hc, -⟩ := Block.exists_cons_of_isWord hword
  have hstart : trimStart (word ++ ':' :: rest) = word ++ ':' :: rest := by
    rw [hcons, trimStart, List.cons_append, List.dropWhile_cons_of_neg (by simp [hc])]
  have htrim : trim (word ++ ':' :: rest) = word ++ ':' :: dropTail isBlank rest := by
    rw [trim, hstart, trimEnd, dropTail_append_cons (by decide)]
  rw [htrim, hasKey_iff]
  exact ⟨_, key?_word hword (afterSeparator?_dropTail hrest), rfl⟩

namespace Block

theorem hasKey_keyRow (column : Nat) {key : String} (hkey : isWord key.toList = true)
    (value : Block) : Line.hasKey key.toList (trim (keyRow column key value).line) = true := by
  have hrest : Line.afterSeparator? (':' :: value.inline) = some value.inline := by
    cases value with
    | scalar text => simp [inline, Line.afterSeparator?, isBlank_space]
    | mapping entries => rfl
    | list deeper items => rfl
  rw [Row.line, trim_replicate_append]
  exact Line.hasKey_trim_word hkey hrest

end Block

namespace Site

open Block

variable {step : Nat} {s t : Site}

/-- The row of a key that is reached through keys only stands at its site. -/
theorem exists_keyRow {keys : List String} {key : String}
    (h : s.descend? step (keys.map .key ++ [.key key]) = some t) :
    ∃ i column, (rows step s.column s.value)[i]? = some (keyRow column key t.value) ∧
      t.position.line = s.line + i := by
  -- the row is found in the innermost mapping, and lifted through the mappings above it
  induction keys generalizing s with
  | nil =>
    rw [List.map_nil, List.nil_append, descend?_singleton] at h
    obtain ⟨i, hrow, hline⟩ := keyRow_of_child?_key h
    exact ⟨i, s.column, hrow, hline⟩
  | cons name keys ih =>
    rw [List.map_cons, List.cons_append, descend?] at h
    obtain ⟨u, hu, hrest⟩ := Option.bind_eq_some_iff.1 h
    obtain ⟨i, column, hrow, hline⟩ := ih hrest
    obtain ⟨j, hrow', hlines⟩ :=
      row_of_child?_key hu (value_ne_scalar_of_descend? hrest (by simp)) hrow
    exact ⟨j, column, hrow', by rw [hline, hlines]⟩

end Site

namespace Block

/-- Whether a range is the start of the line after the first one written with a key, and how that
line is related to the one of the key below a path. -/
def StandsAfterKey (step : Nat) (root : Block) (path : List Segment) (key : String)
    (range : Range) : Prop :=
  ∃ site n, root.site? step (path ++ [.key key]) = some site ∧ n ≤ site.position.line ∧
    (root.lines step).findIdx? (fun line => Line.hasKey key.toList (trim line)) = some n ∧
    range = .point ⟨n + 1, 0⟩ ∧
    (range = .point ⟨site.position.line + 1, 0⟩ ↔
      ∀ line ∈ (root.lines step).take site.position.line,
        Line.hasKey key.toList (trim line) = false)

/-- The line at the site of a key is written with it. -/
theorem exists_hasKey_of_site? {step : Nat} {root : Block} {keys : List String} {key : String}
    {site : Site} (hkey : isWord key.toList = true)
    (h : root.site? step (keys.map .key ++ [.key key]) = some site) :
    ∃ line, (root.lines step)[site.position.line]? = some line ∧
      Line.hasKey key.toList (trim line) = true := by
  obtain ⟨i, column, hrow, hline⟩ := Site.exists_keyRow h
  have hi : site.position.line = i := by simpa using hline
  refine ⟨(keyRow column key site.value).line, ?_, hasKey_keyRow column hkey site.value⟩
  rw [lines, List.getElem?_map, hi, hrow]
  rfl

end Block

namespace Validator

variable {v : Validator} {tree : Node} {d : Diagnostic}

/-- What is after the key of a section stands after the first line that is written with it. -/
theorem afterKey_standsAfterKey {step : Nat} {root : Block} (hresolver : v.resolver = .indentation)
    (hlines : v.source.lines = root.lines step) {keys : List String} {key : String} {part : Block}
    (hkey : Block.isWord key.toList = true)
    (hat : root.at? (keys.map .key ++ [.key key]) = some part) :
    root.StandsAfterKey step (keys.map .key) key (v.afterKey key) := by
  rw [← Block.site?_map_value step] at hat
  obtain ⟨site, hsite, -⟩ := Option.map_eq_some_iff.1 hat
  obtain ⟨line, hline, hwritten⟩ := Block.exists_hasKey_of_site? hkey hsite
  obtain ⟨n, hn, hfound, hfirst⟩ :=
    exists_findIdx?_le (p := fun line => Line.hasKey key.toList (trim line)) hline hwritten
  have hkeyLine : Resolver.keyLine? key.toList 0 v.source.lines = some n := by
    rw [Resolver.keyLine?_eq_findIdx?, hlines]
    exact congrArg (Option.map (· + 0)) hfound
  have hrange : v.afterKey key = .point ⟨n + 1, 0⟩ := by
    rw [afterKey, hresolver]
    show Range.point (((Resolver.keyLine? key.toList 0 v.source.lines).map _).getD _) = _
    rw [hkeyLine]
    rfl
  refine ⟨site, n, hsite, hn, hfound, hrange, ?_⟩
  rw [← hfirst, hrange]
  constructor
  · intro h
    have hstart := congrArg (fun r : Range => r.start.line) h
    simpa [Range.point] using hstart
  · rintro rfl
    rfl

/-! ## The findings after keys -/

/-- Where a finding on a section stands, and what there is of the section. -/
def SectionFinding (v : Validator) (tree : Node) (d : Diagnostic) : Prop :=
  match d.code with
  | .missingMetadataName =>
    (∃ metadata, tree.present? "metadata" = some metadata) ∧ d.range = v.afterKey "metadata"
  | .missingSpec => d.range = v.afterKey "metadata"
  | .invalidResources =>
    (∃ spec, tree.present? "spec" = some spec ∧ ∃ part, spec.present? "resources" = some part) ∧
      d.range = v.afterKey "resources"
  | _ => True

/-- There is nothing to say of a finding with another code. -/
theorem sectionFinding_of_code (p : DiagnosticCode → Bool)
    (hp : ∀ code ∈ [DiagnosticCode.missingMetadataName, .missingSpec, .invalidResources],
      p code = false)
    (h : p d.code = true) : v.SectionFinding tree d := by
  have hother : ∀ code ∈ [DiagnosticCode.missingMetadataName, .missingSpec, .invalidResources],
      d.code ≠ code := by
    rintro code hcode rfl
    rw [hp _ hcode] at h
    exact absurd h Bool.false_ne_true
  unfold SectionFinding
  split
  case h_4 => trivial
  all_goals
    rename_i hcode
    exact absurd hcode (hother _ (by simp))

theorem sectionFinding_metadataFindings (hd : d ∈ v.metadataFindings tree) :
    v.SectionFinding tree d := by
  rw [metadataFindings] at hd
  split at hd
  · rw [List.mem_singleton.1 hd]
    exact trivial
  · rename_i metadata hmetadata
    split at hd
    · exact absurd hd List.not_mem_nil
    · rw [List.mem_singleton.1 hd]
      exact ⟨⟨metadata, hmetadata⟩, rfl⟩

theorem sectionFinding_specFindings (hd : d ∈ v.specFindings tree) : v.SectionFinding tree d := by
  cases hspec : tree.present? "spec" with
  | none =>
    rw [specFindings, hspec] at hd
    rw [List.mem_singleton.1 hd]
    rfl
  | some spec =>
    rw [specFindings_eq hspec] at hd
    rcases List.mem_append.1 hd with hd | hd
    · obtain ⟨f, -, hd⟩ := List.mem_flatMap.1 hd
      exact sectionFinding_of_code DiagnosticCode.isPlaced (by decide) (isPlaced_onField hd)
    · rw [presentFindings] at hd
      split at hd
      · exact absurd hd List.not_mem_nil
      · rename_i part hpart
        cases part with
        | sequence items =>
          rw [resourcesFindings, itemsFindings_eq] at hd
          obtain ⟨r, -, hd⟩ := List.mem_flatMap.1 hd
          exact sectionFinding_of_code DiagnosticCode.isPlaced (by decide) (isPlaced_onResource hd)
        | null | boolean b | number x | string s | mapping entries =>
          rw [List.mem_singleton.1 hd]
          exact ⟨⟨spec, hspec, _, hpart⟩, rfl⟩

theorem sectionFinding_of_mem_findings (hd : d ∈ v.findings tree) : v.SectionFinding tree d := by
  by_cases hheader : v.headerFindings tree = []
  · rw [findings, hheader] at hd
    rcases List.mem_append.1 hd with hd | hd
    · exact sectionFinding_metadataFindings hd
    · exact sectionFinding_specFindings hd
  · rw [findings_of_header hheader] at hd
    exact sectionFinding_of_code DiagnosticCode.isHeader (by decide) (of_mem_headerFindings hd).1

end Validator

open Validator

/-- **Findings on a section stand after the first line with its name.** On a printed document,
whatever its scalars read as, the findings that the metadata has no name, that there is no spec
beside a metadata, and that the resources are no sequence are empty ranges at the start of the line
after the first one that is written with `metadata` or `resources`. That line is at or above the one
of the section, and the finding stands after its own section exactly if no line above the section is
written with the name of the section. -/
theorem validate_afterKey (settings : Settings) {step : Nat} {root : Block} {read : String → Node}
    (hread : ∀ text key, (read text).get? key = none) {text : String}
    (hlines : splitLines text.toList = root.lines step) {d : Diagnostic}
    (hd : d ∈ validate settings (root.tree read) text) :
    (d.code = .missingMetadataName → root.StandsAfterKey step [] "metadata" d.range) ∧
      (d.code = .missingSpec → ((root.tree read).present? "metadata").isSome = true →
        root.StandsAfterKey step [] "metadata" d.range) ∧
      (d.code = .invalidResources →
        root.StandsAfterKey step [.key "spec"] "resources" d.range) := by
  have hfinding : (ofText settings text).SectionFinding (root.tree read) d :=
    sectionFinding_of_mem_findings hd
  have hsource := lines_ofText settings hlines
  have hmetadata : ∀ metadata, (root.tree read).present? "metadata" = some metadata →
      root.StandsAfterKey step [] "metadata" ((ofText settings text).afterKey "metadata") := by
    intro metadata hpresent
    obtain ⟨part, hpart, -⟩ := Block.exists_of_present?_tree hread hpresent
    have hat : root.at? (([] : List String).map .key ++ [.key "metadata"]) = some part :=
      (Block.at?_concat (Block.at?_nil root) _).trans hpart
    exact afterKey_standsAfterKey rfl hsource (by decide) hat
  unfold SectionFinding at hfinding
  refine ⟨fun hcode => ?_, fun hcode hpresent => ?_, fun hcode => ?_⟩
  · rw [hcode] at hfinding
    obtain ⟨⟨metadata, hpresent⟩, hrange⟩ := hfinding
    rw [hrange]
    exact hmetadata metadata hpresent
  · rw [hcode] at hfinding
    obtain ⟨metadata, hpresent⟩ := Option.isSome_iff_exists.1 hpresent
    rw [hfinding]
    exact hmetadata metadata hpresent
  · rw [hcode] at hfinding
    obtain ⟨⟨spec, hspec, part, hpart⟩, hrange⟩ := hfinding
    obtain ⟨specPart, hspecAt, rfl⟩ := Block.exists_of_present?_tree hread hspec
    obtain ⟨resources, hresources, -⟩ := Block.exists_of_present?_tree hread hpart
    have hat : root.at? (["spec"].map .key ++ [.key "resources"]) = some resources :=
      (Block.at?_concat ((Block.at?_concat (Block.at?_nil root) _).trans hspecAt) _).trans
        hresources
    rw [hrange]
    exact afterKey_standsAfterKey rfl hsource (by decide) hat

/-- The node that a plain scalar without a tag stands for; an integer that is too wide has none and
counts as text. -/
def Node.ofPlain (text : String) : Node :=
  match (Yaml.Scalar.found text.toList).value with
  | .ok value => ofValue value
  | .error _ => .string text

theorem Node.get?_ofPlain (text key : String) : (ofPlain text).get? key = none := by
  unfold ofPlain Yaml.Scalar.found
  cases Yaml.Scalar.ofPlain text.toList <;> rfl

namespace Block

/-- A document with a null name whose metadata and resources hold keys of these names. Above them
such a key stands only behind the marker of an item. -/
def namesakesBelow : Block :=
  .mapping [
    ("apiVersion", .scalar "kro.run/v1alpha1"), ("kind", .scalar "ResourceGraphDefinition"),
    ("metadata", .mapping [
      ("labels", .list false [.mapping [("resources", .scalar "web")]]), ("name", .scalar "null")]),
    ("spec", .mapping [
      ("resources", .mapping [("metadata", .scalar "web"), ("resources", .scalar "web")])])]

/-- A document whose schema has fields that are named like two sections below it. -/
def namesakesAbove : Block :=
  .mapping [
    ("apiVersion", .scalar "kro.run/v1alpha1"), ("kind", .scalar "ResourceGraphDefinition"),
    ("spec", .mapping [
      ("schema", .mapping [
        ("spec", .mapping [("metadata", .scalar "string"), ("resources", .scalar "string")])]),
      ("resources", .scalar "web")]),
    ("metadata", .mapping [("label", .scalar "web")])]

theorem splitLines_namesakesBelow :
    splitLines (namesakesBelow.text 2).toList = namesakesBelow.lines 2 :=
  splitLines_text (by decide +kernel)

theorem splitLines_namesakesAbove :
    splitLines (namesakesAbove.text 2).toList = namesakesAbove.lines 2 :=
  splitLines_text (by decide +kernel)

end Block

open Block

theorem validate_afterKey_namesakesBelow :
    ((∀ text key, (Node.ofPlain text).get? key = none) ∧
      splitLines (namesakesBelow.text 2).toList = namesakesBelow.lines 2) ∧
    ∃ name resources, validate .standard (namesakesBelow.tree Node.ofPlain)
        (namesakesBelow.text 2) = [name, resources] ∧
      (name.code = .missingMetadataName ∧ name.range = .point ⟨3, 0⟩ ∧
        namesakesBelow.StandsAfterKey 2 [] "metadata" name.range) ∧
      resources.code = .invalidResources ∧ resources.range = .point ⟨8, 0⟩ ∧
        namesakesBelow.StandsAfterKey 2 [.key "spec"] "resources" resources.range := by
  have hfound : (validate .standard (namesakesBelow.tree Node.ofPlain)
      (namesakesBelow.text 2)).map (fun d => (d.code, d.range)) =
        [(.missingMetadataName, .point ⟨3, 0⟩), (.invalidResources, .point ⟨8, 0⟩)] := by
    rw [validate, validateWith_eq _ _ _ splitLines_namesakesBelow.symm]
    decide +kernel
  refine ⟨⟨Node.get?_ofPlain, splitLines_namesakesBelow⟩, ?_⟩
  obtain ⟨name, rest, hall, hname, hrest⟩ := List.map_eq_cons_iff.1 hfound
  obtain ⟨resources, rfl, hlast⟩ := List.map_eq_singleton_iff.1 hrest
  obtain ⟨hnameCode, hnameRange⟩ := Prod.mk.inj hname
  obtain ⟨hcode, hrange⟩ := Prod.mk.inj hlast
  have hmem : ∀ d ∈ [name, resources],
      d ∈ validate .standard (namesakesBelow.tree Node.ofPlain) (namesakesBelow.text 2) := by
    intro d hd
    rw [hall]
    exact hd
  refine ⟨name, resources, hall, ⟨hnameCode, hnameRange, ?_⟩, hcode, hrange, ?_⟩
  · have hd := hmem name List.mem_cons_self
    exact (validate_afterKey .standard Node.get?_ofPlain splitLines_namesakesBelow hd).1 hnameCode
  · have hd := hmem resources (List.mem_cons_of_mem _ List.mem_cons_self)
    exact (validate_afterKey .standard Node.get?_ofPlain splitLines_namesakesBelow hd).2.2 hcode

/-- The findings on two sections stand after fields of the schema, and not after the sections. -/
theorem validate_namesakesAbove :
    splitLines (namesakesAbove.text 2).toList = namesakesAbove.lines 2 ∧
    (validate .standard (namesakesAbove.tree Node.ofPlain) (namesakesAbove.text 2)).map
        (fun d => (d.code, d.range)) =
      [(.missingMetadataName, .point ⟨6, 0⟩), (.invalidResources, .point ⟨7, 0⟩)] ∧
    (namesakesAbove.site? 2 [.key "metadata"]).map (fun s => s.position.line) = some 8 ∧
    (namesakesAbove.site? 2 [.key "spec", .key "resources"]).map
      (fun s => s.position.line) = some 7 := by
  refine ⟨splitLines_namesakesAbove, ?_, rfl, rfl⟩
  rw [validate, validateWith_eq _ _ _ splitLines_namesakesAbove.symm]
  decide +kernel

end ResourceGraph

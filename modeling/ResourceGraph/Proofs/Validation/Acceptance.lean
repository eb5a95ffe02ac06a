import ResourceGraph.Proofs.FieldType.Grammar
import ResourceGraph.Proofs.Validation.Parts

/-!
# What the checks accept

A document is accepted if its findings hold no error. `Accepted` states what an accepted document is
like without the checks: its two header lines, its metadata, the types of the fields below its
schema, and its resources. The checks accept exactly these documents, whatever the resolver of
positions (`validate_accepts_iff`).
-/

set_option autoImplicit false

namespace ResourceGraph

open Text

/-! ## The accepted documents -/

/-- The types below a node: the strings that are reached through entries of mappings only. -/
inductive Node.HoldsType : Node → String → Prop
  | field {entries : List (String × Node)} {name type : String} :
    (name, .string type) ∈ entries → HoldsType (.mapping entries) type
  | group {entries : List (String × Node)} {name type : String} {group : Node} :
    (name, group) ∈ entries → group.HoldsType type → HoldsType (.mapping entries) type

/-- Whether a part of a mapping, if there is any, has a property. -/
def Node.IfPresent (node : Node) (key : String) (p : Node → Prop) : Prop :=
  ∀ part, node.present? key = some part → p part

/-- A resource with an id and a type, whose properties are a mapping if there are any. -/
structure Node.IsResource (node : Node) : Prop where
  id : ∃ id, node.present? "id" = some id ∧ id.scalarText?.isSome = true
  type : (node.present? "type").isSome = true
  properties : node.IfPresent "properties" fun value => ∃ entries, value = .mapping entries

/-- A sequence of resources whose ids have different texts. -/
def Node.AreResources (node : Node) : Prop :=
  ∃ items, node = .sequence items ∧ (∀ item ∈ items, item.IsResource) ∧
    (items.map Validator.resourceId?).Nodup

/-- The documents with the two header lines and values that the settings ask for. -/
structure HasHeader (settings : Settings) (tree : Node) (text : String) : Prop where
  lines : ∃ first second rest, splitLines text.toList = first :: second :: rest ∧
    "apiVersion:".toList <+: trim first ∧ "kind:".toList <+: trim second
  apiVersion : (tree.get? "apiVersion").bind Node.scalarText? = some settings.apiVersion
  kind : (tree.get? "kind").bind Node.scalarText? = some settings.kind

/-- The documents without errors. -/
structure Accepted (settings : Settings) (tree : Node) (text : String) : Prop where
  header : ∃ first second rest, splitLines text.toList = first :: second :: rest ∧
    "apiVersion:".toList <+: trim first ∧ "kind:".toList <+: trim second
  apiVersion : (tree.get? "apiVersion").bind Node.scalarText? = some settings.apiVersion
  kind : (tree.get? "kind").bind Node.scalarText? = some settings.kind
  metadata : ∃ metadata, tree.present? "metadata" = some metadata ∧
    (metadata.present? "name").isSome = true
  spec : (tree.present? "spec").isSome = true
  types : tree.IfPresent "spec" fun spec => spec.IfPresent "schema" fun schema =>
    ∀ name ∈ ["spec", "status"], schema.IfPresent name fun group =>
      ∀ type, group.HoldsType type → FieldType.IsExpression type
  resources : tree.IfPresent "spec" fun spec => spec.IfPresent "resources" Node.AreResources

/-! ## Lists of findings without errors -/

/-- Whether no finding is an error. -/
def NoErrors (findings : List Diagnostic) : Prop := ∀ d ∈ findings, d.severity ≠ .error

theorem noErrors_nil : NoErrors [] := by simp [NoErrors]

theorem noErrors_append {xs ys : List Diagnostic} :
    NoErrors (xs ++ ys) ↔ NoErrors xs ∧ NoErrors ys := List.forall_mem_append

theorem noErrors_flatMap {α : Type} {xs : List α} {f : α → List Diagnostic} :
    NoErrors (xs.flatMap f) ↔ ∀ x ∈ xs, NoErrors (f x) := by
  constructor
  · intro h x hx d hd
    exact h d (List.mem_flatMap.2 ⟨x, hx, hd⟩)
  · intro h d hd
    obtain ⟨x, hx, hd⟩ := List.mem_flatMap.1 hd
    exact h x hx d hd

theorem not_noErrors_error {v : Validator} {code : DiagnosticCode} {message : String}
    {range : Range} : ¬ NoErrors [v.error code message range] := by
  intro h
  exact h _ (List.mem_singleton.2 rfl) rfl

namespace Validator

open Node

variable {v : Validator} {tree : Node}

/-! ## Header and metadata -/

theorem lineStartsWith_iff {n : Nat} {start : String} : v.lineStartsWith n start = true ↔
    ∃ line, v.source.lines[n]? = some line ∧ start.toList <+: trim line := by
  rw [lineStartsWith, Source.line?, Option.any_eq_true]
  simp only [List.isPrefixOf_iff_prefix]

theorem versionFindings_eq_nil_iff : v.versionFindings tree = [] ↔
    (tree.get? "apiVersion").bind Node.scalarText? = some v.settings.apiVersion := by
  rw [versionFindings, scalarEquals]
  split
  · rename_i hversion
    simpa using hversion
  · rename_i hversion
    simpa using hversion

theorem kindFindings_eq_nil_iff : v.kindFindings tree = [] ↔
    2 ≤ v.source.lineCount ∧ v.lineStartsWith 1 "kind:" = true ∧
      (tree.get? "kind").bind Node.scalarText? = some v.settings.kind := by
  rw [kindFindings, scalarEquals]
  split
  · rename_i hshort
    simp only [List.cons_ne_nil, false_iff]
    rintro ⟨hlong, -⟩
    omega
  · rename_i hlong
    split
    · rename_i hline
      rw [Bool.not_eq_true'] at hline
      simp [hline]
    · rename_i hline
      rw [Bool.not_eq_true', Bool.not_eq_false] at hline
      split
      · rename_i hkind
        simp only [true_iff]
        exact ⟨by omega, hline, by simpa using hkind⟩
      · rename_i hkind
        simp only [List.cons_ne_nil, false_iff]
        rintro ⟨-, -, htext⟩
        exact hkind (by simpa using htext)

theorem headerFindings_eq_nil_iff : v.headerFindings tree = [] ↔
    (∃ first second rest, v.source.lines = first :: second :: rest ∧
      "apiVersion:".toList <+: trim first ∧ "kind:".toList <+: trim second) ∧
    (tree.get? "apiVersion").bind Node.scalarText? = some v.settings.apiVersion ∧
    (tree.get? "kind").bind Node.scalarText? = some v.settings.kind := by
  -- the checks stop at the first fault, but none is left out when there is no fault
  have hfindings : v.headerFindings tree = [] ↔ v.lineStartsWith 0 "apiVersion:" = true ∧
      v.versionFindings tree = [] ∧ v.kindFindings tree = [] := by
    rw [headerFindings]
    split
    · rename_i hempty
      -- without lines the first one begins with nothing
      have hnone : v.lineStartsWith 0 "apiVersion:" = false := by
        rw [lineStartsWith, Source.line?, List.isEmpty_iff.1 hempty]
        rfl
      simp [hnone]
    · split
      · rename_i hline
        rw [Bool.not_eq_true'] at hline
        simp [hline]
      · rename_i hline
        rw [Bool.not_eq_true', Bool.not_eq_false] at hline
        rw [List.append_eq_nil_iff, hline, eq_self_iff_true, true_and]
  rw [hfindings, versionFindings_eq_nil_iff, kindFindings_eq_nil_iff, lineStartsWith_iff,
    lineStartsWith_iff]
  constructor
  · rintro ⟨⟨first, hfirst, hversionLine⟩, hversion, hlong, ⟨second, hsecond, hkindLine⟩, hkind⟩
    refine ⟨?_, hversion, hkind⟩
    cases hlines : v.source.lines with
    | nil => simp [hlines] at hfirst
    | cons line lines =>
      cases lines with
      | nil => simp [hlines] at hsecond
      | cons next rest =>
        simp only [hlines, List.getElem?_cons_zero, List.getElem?_cons_succ,
          Option.some.injEq] at hfirst hsecond
        exact ⟨line, next, rest, rfl, hfirst ▸ hversionLine, hsecond ▸ hkindLine⟩
  · rintro ⟨⟨first, second, rest, hlines, hversionLine, hkindLine⟩, hversion, hkind⟩
    have hlong : 2 ≤ v.source.lineCount := by simp [Source.lineCount, hlines]
    exact ⟨⟨first, by rw [hlines]; rfl, hversionLine⟩, hversion, hlong,
      ⟨second, by rw [hlines]; rfl, hkindLine⟩, hkind⟩

/-- The header of a document has no findings exactly if it is as the settings ask. -/
theorem headerFindings_eq_nil_iff_hasHeader {settings : Settings} {resolver : Resolver}
    {text : String} : (Validator.mk settings resolver (Source.ofString text)).headerFindings tree =
      [] ↔ HasHeader settings tree text := by
  rw [headerFindings_eq_nil_iff]
  constructor
  · rintro ⟨hlines, hversion, hkind⟩
    exact ⟨hlines, hversion, hkind⟩
  · rintro ⟨hlines, hversion, hkind⟩
    exact ⟨hlines, hversion, hkind⟩

theorem noErrors_headerFindings_iff :
    NoErrors (v.headerFindings tree) ↔ v.headerFindings tree = [] := by
  constructor
  · intro h
    cases hheader : v.headerFindings tree with
    | nil => rfl
    | cons d ds =>
      have hd : d ∈ v.headerFindings tree := by
        rw [hheader]
        exact List.mem_cons_self
      exact absurd (of_mem_headerFindings hd).2 (h d hd)
  · intro h
    rw [h]
    exact noErrors_nil

theorem noErrors_metadataFindings_iff : NoErrors (v.metadataFindings tree) ↔
    ∃ metadata, tree.present? "metadata" = some metadata ∧
      (metadata.present? "name").isSome = true := by
  rw [metadataFindings]
  cases tree.present? "metadata" with
  | none => simp [not_noErrors_error]
  | some metadata =>
    by_cases hname : (metadata.present? "name").isSome = true
    · simp [hname, noErrors_nil]
    · simp [hname, not_noErrors_error]

/-! ## Fields -/

/-- A field holds no error exactly if its type is a type expression. -/
theorem noErrors_onField_iff {f : Field} :
    NoErrors (v.onField f) ↔ FieldType.IsExpression f.type := by
  rw [← FieldType.isValid_read_iff, onField, fieldFindings]
  cases hvalid : (FieldType.read f.type).isValid with
  | false => simp [invalidType, not_noErrors_error]
  | true =>
    -- what is left are modifiers without a meaning, which are warnings
    have hkind := FieldType.kind_read_ne_unknown hvalid
    simp only [Bool.not_true, Bool.false_eq_true, if_false, if_neg hkind, List.nil_append, iff_true]
    intro d hd
    obtain ⟨modifier, -, rfl⟩ := List.mem_map.1 hd
    simp [unknownModifier, finding]

theorem exists_mem_entryFields_iff {node : Node} {path : Path} {name type : String} :
    (∃ f ∈ entryFields path name node, f.type = type) ↔
      node = .string type ∨ node.HoldsType type := by
  induction node using Node.induct generalizing path name with
  | string s =>
    simp only [entryFields, List.mem_singleton, exists_eq_left, Node.string.injEq]
    constructor
    · intro h
      exact Or.inl h
    · rintro (h | h)
      · exact h
      · cases h
  | mapping entries ih =>
    rw [entryFields, entriesFields_eq_flatMap]
    simp only [List.mem_flatMap, reduceCtorEq, false_or]
    constructor
    · rintro ⟨f, ⟨e, he, hf⟩, rfl⟩
      rcases (ih e he).1 ⟨f, hf, rfl⟩ with hstring | hbelow
      · have hmem : (e.1, .string f.type) ∈ entries := by
          rw [← hstring]
          exact he
        exact .field hmem
      · have hmem : (e.1, e.2) ∈ entries := he
        exact .group hmem hbelow
    · intro h
      cases h with
      | field hmem =>
        obtain ⟨f, hf, hfType⟩ := (ih _ hmem).2 (Or.inl rfl)
        exact ⟨f, ⟨_, hmem, hf⟩, hfType⟩
      | group hmem hbelow =>
        obtain ⟨f, hf, hfType⟩ := (ih _ hmem).2 (Or.inr hbelow)
        exact ⟨f, ⟨_, hmem, hf⟩, hfType⟩
  | null | boolean b | number x | sequence items _ =>
    simp only [entryFields, List.not_mem_nil, false_and, exists_false, false_iff, reduceCtorEq,
      false_or]
    intro h
    cases h

theorem exists_mem_groupFields_iff {node : Node} {path : Path} {type : String} :
    (∃ f ∈ groupFields path node, f.type = type) ↔ node.HoldsType type := by
  cases node with
  | mapping entries =>
    have hentry : (∃ f ∈ entryFields path "" (.mapping entries), f.type = type) ↔ _ :=
      exists_mem_entryFields_iff
    rw [entryFields] at hentry
    rw [groupFields, hentry]
    simp
  | _ =>
    simp only [groupFields, List.not_mem_nil, false_and, exists_false, false_iff]
    intro h
    cases h

theorem noErrors_fields_iff :
    NoErrors (tree.fields.flatMap v.onField) ↔
      tree.IfPresent "spec" fun spec => spec.IfPresent "schema" fun schema =>
        ∀ name ∈ ["spec", "status"], schema.IfPresent name fun group =>
          ∀ type, group.HoldsType type → FieldType.IsExpression type := by
  -- both sections are read alike
  have hsection : ∀ schema name, (∀ f ∈ sectionFields schema name, NoErrors (v.onField f)) ↔
      schema.IfPresent name fun group =>
        ∀ type, group.HoldsType type → FieldType.IsExpression type := by
    intro schema name
    rw [IfPresent, sectionFields]
    cases schema.present? name with
    | none => simp
    | some group =>
      simp only [Option.map_some, Option.getD_some, Option.some.injEq, forall_eq',
        noErrors_onField_iff]
      constructor
      · intro h type htype
        obtain ⟨f, hf, rfl⟩ := exists_mem_groupFields_iff.2 htype
        exact h f hf
      · intro h f hf
        exact h f.type (exists_mem_groupFields_iff.1 ⟨f, hf, rfl⟩)
  rw [noErrors_flatMap, IfPresent, fields]
  cases tree.present? "spec" with
  | none => simp
  | some spec =>
    simp only [Option.bind_some, Option.some.injEq, forall_eq', IfPresent]
    cases spec.present? "schema" with
    | none => simp
    | some schema =>
      simp only [Option.map_some, Option.getD_some, Option.some.injEq, forall_eq', schemaFields,
        List.forall_mem_append, hsection]
      simp [IfPresent]

/-! ## Resources -/

theorem isSome_resourceId?_iff {resource : Node} : (resourceId? resource).isSome = true ↔
    ∃ id, resource.present? "id" = some id ∧ id.scalarText?.isSome = true := by
  rw [resourceId?]
  cases resource.present? "id" with
  | none => simp
  | some id => simp

theorem noErrors_idFindings_iff {index : Nat} {earlier : List String} {id : Option String} :
    NoErrors (v.idFindings index earlier id) ↔
      id.isSome = true ∧ ∀ other ∈ earlier, id ≠ some other := by
  cases id with
  | none => simp [idFindings, not_noErrors_error]
  | some id =>
    rw [idFindings]
    by_cases hseen : id ∈ earlier
    · simp only [List.contains_iff_mem, hseen, if_true, not_noErrors_error, false_iff]
      rintro ⟨-, hother⟩
      exact hother id hseen rfl
    · simp only [List.contains_iff_mem, hseen, if_false, noErrors_nil, true_iff]
      refine ⟨rfl, ?_⟩
      rintro other hother heq
      rw [Option.some.inj heq] at hseen
      exact hseen hother

theorem noErrors_typeFindings_iff {index : Nat} {label : String} {resource : Node} :
    NoErrors (v.typeFindings index label resource) ↔
      (resource.present? "type").isSome = true := by
  rw [typeFindings]
  split
  · rename_i htype
    simp [htype, noErrors_nil]
  · rename_i htype
    simp [htype, not_noErrors_error]

theorem noErrors_propertiesFindings_iff {index : Nat} {label : String} {resource : Node} :
    NoErrors (v.propertiesFindings index label resource) ↔
      resource.IfPresent "properties" fun value => ∃ entries, value = .mapping entries := by
  rw [propertiesFindings, IfPresent]
  split
  · rename_i hnone
    simp [hnone, noErrors_nil]
  · rename_i entries hmapping
    simp [hmapping, noErrors_nil]
  · rename_i value hmapping hvalue
    simp only [hvalue, not_noErrors_error, Option.some.injEq, forall_eq', false_iff]
    rintro ⟨entries, rfl⟩
    exact hmapping entries rfl

/-- A resource holds no error exactly if it is one, with an id that was not given before. -/
theorem noErrors_resourceFindings_iff {index : Nat} {earlier : List String} {resource : Node} :
    NoErrors (v.resourceFindings index earlier resource) ↔
      resource.IsResource ∧ ∀ id ∈ earlier, resourceId? resource ≠ some id := by
  rw [resourceFindings, noErrors_append, noErrors_append, noErrors_idFindings_iff,
    noErrors_typeFindings_iff, noErrors_propertiesFindings_iff, isSome_resourceId?_iff]
  constructor
  · rintro ⟨⟨⟨hid, hnew⟩, htype⟩, hproperties⟩
    exact ⟨⟨hid, htype, hproperties⟩, hnew⟩
  · rintro ⟨⟨hid, htype, hproperties⟩, hnew⟩
    exact ⟨⟨⟨hid, hnew⟩, htype⟩, hproperties⟩

theorem noErrors_itemsFindings_iff {index : Nat} {earlier : List String} {items : List Node} :
    NoErrors (v.itemsFindings index earlier items) ↔
      (∀ item ∈ items, item.IsResource) ∧ (items.map resourceId?).Nodup ∧
        ∀ item ∈ items, ∀ id ∈ earlier, resourceId? item ≠ some id := by
  induction items generalizing index earlier with
  | nil => simp [itemsFindings, noErrors_nil]
  | cons item items ih =>
    rw [itemsFindings, noErrors_append, noErrors_resourceFindings_iff, ih, List.forall_mem_cons,
      List.forall_mem_cons, List.map_cons, List.nodup_cons]
    constructor
    · rintro ⟨⟨hitem, hnew⟩, hitems, hnodup, hearlier⟩
      -- the id of the first item counts as given before the others
      obtain ⟨id, hid⟩ := Option.isSome_iff_exists.1 (isSome_resourceId?_iff.2 hitem.id)
      rw [hid] at hearlier
      refine ⟨⟨hitem, hitems⟩, ⟨?_, hnodup⟩, hnew, ?_⟩
      · intro hmem
        obtain ⟨other, hother, hsame⟩ := List.mem_map.1 hmem
        exact hearlier other hother id (by simp) (hsame.trans hid)
      · intro other hother taken htaken
        exact hearlier other hother taken (List.mem_append_right _ htaken)
    · rintro ⟨⟨hitem, hitems⟩, ⟨hfirst, hnodup⟩, hnew, hearlier⟩
      refine ⟨⟨hitem, hnew⟩, hitems, hnodup, ?_⟩
      intro other hother taken htaken hsame
      -- an id given before is the one of the first item or one of the earlier
      rcases List.mem_append.1 htaken with htaken | htaken
      · rw [Option.mem_toList] at htaken
        exact hfirst (List.mem_map.2 ⟨other, hother, hsame.trans htaken.symm⟩)
      · exact hearlier other hother taken htaken hsame

theorem noErrors_resourcesFindings_iff {node : Node} :
    NoErrors (v.resourcesFindings node) ↔ node.AreResources := by
  cases node with
  | sequence items =>
    rw [resourcesFindings, noErrors_itemsFindings_iff]
    simp [AreResources]
  | _ => simp [resourcesFindings, not_noErrors_error, AreResources]

theorem noErrors_specFindings_iff :
    NoErrors (v.specFindings tree) ↔ (tree.present? "spec").isSome = true ∧
      (tree.IfPresent "spec" fun spec => spec.IfPresent "schema" fun schema =>
        ∀ name ∈ ["spec", "status"], schema.IfPresent name fun group =>
          ∀ type, group.HoldsType type → FieldType.IsExpression type) ∧
      tree.IfPresent "spec" fun spec => spec.IfPresent "resources" Node.AreResources := by
  cases hspec : tree.present? "spec" with
  | none =>
    rw [specFindings, hspec]
    simp [not_noErrors_error]
  | some spec =>
    rw [specFindings_eq hspec, noErrors_append, noErrors_fields_iff]
    have hresources : NoErrors (presentFindings spec "resources" v.resourcesFindings) ↔
        tree.IfPresent "spec" fun spec => spec.IfPresent "resources" Node.AreResources := by
      simp only [IfPresent, hspec, Option.some.injEq, forall_eq']
      rw [presentFindings]
      cases spec.present? "resources" with
      | none => simp [noErrors_nil]
      | some part => simp [noErrors_resourcesFindings_iff]
    rw [hresources]
    simp

theorem noErrors_findings_iff : NoErrors (v.findings tree) ↔ v.headerFindings tree = [] ∧
    NoErrors (v.metadataFindings tree) ∧ NoErrors (v.specFindings tree) := by
  rw [← noErrors_headerFindings_iff, findings]
  cases hheader : v.headerFindings tree with
  | nil => simp [noErrors_append, noErrors_nil]
  | cons d ds =>
    -- every finding on the header is an error
    have herror : ¬ NoErrors (d :: ds) := by
      rw [← hheader, noErrors_headerFindings_iff, hheader]
      simp
    simp [herror]

end Validator

/-- **The checks accept exactly the accepted documents**, whatever the resolver of positions. -/
theorem validate_accepts_iff (settings : Settings) (resolver : Resolver) (tree : Node)
    (text : String) :
    (∀ d ∈ validateWith settings resolver tree text, d.severity ≠ .error) ↔
      Accepted settings tree text := by
  let v : Validator := ⟨settings, resolver, Source.ofString text⟩
  have hheader : v.headerFindings tree = [] ↔ _ := Validator.headerFindings_eq_nil_iff
  have hlines : v.source.lines = splitLines text.toList := rfl
  show NoErrors (v.findings tree) ↔ _
  rw [Validator.noErrors_findings_iff, hheader, Validator.noErrors_metadataFindings_iff,
    Validator.noErrors_specFindings_iff, hlines]
  constructor
  · rintro ⟨⟨hheader, hversion, hkind⟩, hmetadata, hspec, htypes, hresources⟩
    exact ⟨hheader, hversion, hkind, hmetadata, hspec, htypes, hresources⟩
  · rintro ⟨hheader, hversion, hkind, hmetadata, hspec, htypes, hresources⟩
    exact ⟨⟨hheader, hversion, hkind⟩, hmetadata, hspec, htypes, hresources⟩

end ResourceGraph

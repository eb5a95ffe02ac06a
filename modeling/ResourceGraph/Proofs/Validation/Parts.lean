import Mathlib.Data.List.Basic
import ResourceGraph.Validation.Document

/-!
# The parts that checks look at

A document has fields, the strings below the `spec` and `status` of its schema, and resources, the
items of its `resources`. The findings of a document whose header passes are those on its metadata,
then those on its fields in order, then those on its resources in order (`findings_eq`,
`specFindings_eq`), so that what holds of the findings on one part holds of every document.
-/

set_option autoImplicit false

namespace ResourceGraph

/-- A field of a schema: its path, its name, and the text of its type. -/
structure Field where
  path : Path
  name : String
  type : String
  deriving DecidableEq

/-- A resource: its index, the ids of the resources before it, and its value. -/
structure Resource where
  index : Nat
  earlier : List String
  node : Node

namespace Node

mutual

/-- The fields of an entry with a name: a string is a field, and a mapping holds those of its
entries. -/
def entryFields (path : Path) (name : String) : Node → List Field
  | .string type => [⟨path, name, type⟩]
  | .mapping entries => entriesFields path entries
  | _ => []

/-- The fields of some entries of a group. -/
def entriesFields (path : Path) : List (String × Node) → List Field
  | [] => []
  | (name, value) :: rest =>
    entryFields (path.child (.key name)) name value ++ entriesFields path rest

end

/-- The fields of a group; what is no mapping is no group. -/
def groupFields (path : Path) : Node → List Field
  | .mapping entries => entriesFields path entries
  | _ => []

/-- The fields of one section of a schema. -/
def sectionFields (schema : Node) (name : String) : List Field :=
  ((schema.present? name).map
    (groupFields ⟨[.key "spec", .key "schema", .key name]⟩)).getD []

/-- The fields of a schema. -/
def schemaFields (schema : Node) : List Field :=
  schema.sectionFields "spec" ++ schema.sectionFields "status"

/-- The fields of a document. -/
def fields (tree : Node) : List Field :=
  (((tree.present? "spec").bind (present? "schema")).map schemaFields).getD []

/-- Some resources, numbered from an index on, given the ids before them. -/
def resourcesFrom : Nat → List String → List Node → List Resource
  | _, _, [] => []
  | index, earlier, resource :: rest =>
    ⟨index, earlier, resource⟩ ::
      resourcesFrom (index + 1) ((Validator.resourceId? resource).toList ++ earlier) rest

/-- The resources of a document. -/
def resources (tree : Node) : List Resource :=
  match (tree.present? "spec").bind (present? "resources") with
  | some (.sequence items) => resourcesFrom 0 [] items
  | _ => []

/-- Induction over the parts of a tree. -/
@[elab_as_elim]
theorem induct {P : Node → Prop} (null : P .null) (boolean : ∀ b, P (.boolean b))
    (number : ∀ x, P (.number x)) (string : ∀ s, P (.string s))
    (sequence : ∀ items, (∀ item ∈ items, P item) → P (.sequence items))
    (mapping : ∀ entries, (∀ e ∈ entries, P e.2) → P (.mapping entries)) : ∀ n, P n
  | .null => null
  | .boolean b => boolean b
  | .number x => number x
  | .string s => string s
  | .sequence items => sequence items fun item hitem =>
    have : sizeOf item < 1 + sizeOf items := by
      have hmem := List.sizeOf_lt_of_mem hitem
      omega
    induct null boolean number string sequence mapping item
  | .mapping entries => mapping entries fun e he =>
    have : sizeOf e.2 < 1 + sizeOf entries := by
      have hmem := List.sizeOf_lt_of_mem he
      have hpair : sizeOf e = 1 + sizeOf e.1 + sizeOf e.2 := by cases e; rfl
      omega
    induct null boolean number string sequence mapping e.2

theorem entriesFields_eq_flatMap (path : Path) (entries : List (String × Node)) :
    entriesFields path entries =
      entries.flatMap fun e => entryFields (path.child (.key e.1)) e.1 e.2 := by
  induction entries with
  | nil => rw [entriesFields, List.flatMap_nil]
  | cons e entries ih =>
    obtain ⟨name, value⟩ := e
    rw [entriesFields, List.flatMap_cons, ih]

/-- A resource is an item at its index, and the ids before it are those of the items before it. -/
theorem of_mem_resourcesFrom {index : Nat} {earlier : List String} {items : List Node}
    {r : Resource} (h : r ∈ resourcesFrom index earlier items) :
    ∃ k, items[k]? = some r.node ∧ r.index = index + k ∧
      ∀ id, id ∈ r.earlier ↔ id ∈ earlier ∨
        ∃ j < k, (items[j]?.bind Validator.resourceId?) = some id := by
  -- an earlier item is the first one of the list, or earlier among the others
  induction items generalizing index earlier with
  | nil => simp [resourcesFrom] at h
  | cons item items ih =>
    rw [resourcesFrom] at h
    rcases List.mem_cons.1 h with rfl | h
    · exact ⟨0, rfl, rfl, fun id => by simp⟩
    · obtain ⟨k, hitem, hindex, hearlier⟩ := ih h
      refine ⟨k + 1, hitem, by omega, ?_⟩
      intro id
      rw [hearlier, List.mem_append, Option.mem_toList]
      constructor
      · rintro ((hid | hid) | ⟨j, hj, hid⟩)
        · exact Or.inr ⟨0, by omega, hid⟩
        · exact Or.inl hid
        · exact Or.inr ⟨j + 1, by omega, hid⟩
      · rintro (hid | ⟨j, hj, hid⟩)
        · exact Or.inl (Or.inr hid)
        · cases j with
          | zero => exact Or.inl (Or.inl hid)
          | succ j => exact Or.inr ⟨j, by omega, hid⟩

end Node

namespace Validator

open Node

variable {v : Validator} {tree : Node}

/-- The findings on a field. -/
def onField (v : Validator) (f : Field) : List Diagnostic := v.fieldFindings f.name f.type f.path

/-- The findings on a resource. -/
def onResource (v : Validator) (r : Resource) : List Diagnostic :=
  v.resourceFindings r.index r.earlier r.node

theorem entriesFindings_eq_flatMap (path : Path) (entries : List (String × Node)) :
    v.entriesFindings path entries =
      entries.flatMap fun e => v.entryFindings e.1 (path.child (.key e.1)) e.2 := by
  induction entries with
  | nil => rw [entriesFindings, List.flatMap_nil]
  | cons e entries ih =>
    obtain ⟨name, value⟩ := e
    rw [entriesFindings, List.flatMap_cons, ih]

theorem entryFindings_eq (node : Node) (path : Path) (name : String) :
    v.entryFindings name path node = (entryFields path name node).flatMap v.onField := by
  -- on the parts of the node; only an entry that is a mapping has parts that are looked into
  induction node using Node.induct generalizing path name with
  | mapping entries ih =>
    rw [entryFindings, entryFields, entriesFindings_eq_flatMap, entriesFields_eq_flatMap,
      List.flatMap_assoc]
    exact List.flatMap_congr fun e he => ih e he _ _
  | string s => rw [entryFindings, entryFields, List.flatMap_cons, List.flatMap_nil,
      List.append_nil, onField]
  | null => rfl
  | boolean b => rfl
  | number x => rfl
  | sequence items _ => rfl

/-- The findings on a group are those on its fields, in order. -/
theorem groupFindings_eq (path : Path) (node : Node) :
    v.groupFindings path node = (groupFields path node).flatMap v.onField := by
  cases node with
  | mapping entries =>
    have hentry := entryFindings_eq (v := v) (.mapping entries) path ""
    rwa [entryFindings, entryFields] at hentry
  | null => rfl
  | boolean b => rfl
  | number x => rfl
  | string s => rfl
  | sequence items => rfl

theorem sectionFindings_eq (schema : Node) (name : String) :
    v.sectionFindings schema name = (schema.sectionFields name).flatMap v.onField := by
  rw [sectionFindings, sectionFields]
  cases schema.present? name with
  | none => rfl
  | some fields => exact groupFindings_eq _ fields

theorem schemaFindings_eq (schema : Node) :
    v.schemaFindings schema = schema.schemaFields.flatMap v.onField := by
  rw [schemaFindings, schemaFields, List.flatMap_append, sectionFindings_eq, sectionFindings_eq]

/-- The findings on some items are those on each of them, in order. -/
theorem itemsFindings_eq (index : Nat) (earlier : List String) (items : List Node) :
    v.itemsFindings index earlier items =
      (resourcesFrom index earlier items).flatMap v.onResource := by
  induction items generalizing index earlier with
  | nil => rfl
  | cons item items ih =>
    rw [itemsFindings, resourcesFrom, List.flatMap_cons, ih]
    rfl

/-- The findings on a spec are those on the fields of the document, then those on its resources. -/
theorem specFindings_eq {spec : Node} (h : tree.present? "spec" = some spec) :
    v.specFindings tree =
      tree.fields.flatMap v.onField ++ presentFindings spec "resources" v.resourcesFindings := by
  have hschema : presentFindings spec "schema" v.schemaFindings =
      tree.fields.flatMap v.onField := by
    rw [fields, h, Option.bind_some, presentFindings]
    cases spec.present? "schema" with
    | none => rfl
    | some schema => exact schemaFindings_eq schema
  rw [specFindings, h, ← hschema]

/-- The findings on resources that are a sequence are those on each of them. -/
theorem resourcesFindings_eq {spec : Node} (h : tree.present? "spec" = some spec)
    {items : List Node} (hitems : spec.present? "resources" = some (.sequence items)) :
    presentFindings spec "resources" v.resourcesFindings = tree.resources.flatMap v.onResource := by
  have hresources : tree.resources = resourcesFrom 0 [] items := by
    rw [resources, h, Option.bind_some, hitems]
  rw [presentFindings, hitems, hresources]
  exact itemsFindings_eq 0 [] items

/-! ## Single findings -/

/-- A finding on the header has a code of the header, and is an error. -/
theorem of_mem_headerFindings {d : Diagnostic} (hd : d ∈ v.headerFindings tree) :
    d.code.isHeader = true ∧ d.severity = .error := by
  rw [headerFindings] at hd
  split at hd
  · rw [List.mem_singleton.1 hd]
    exact ⟨rfl, rfl⟩
  · split at hd
    · rw [List.mem_singleton.1 hd]
      exact ⟨rfl, rfl⟩
    · rcases List.mem_append.1 hd with hd | hd
      · rw [versionFindings] at hd
        split at hd
        · simp at hd
        · rw [List.mem_singleton.1 hd]
          exact ⟨rfl, rfl⟩
      · rw [kindFindings] at hd
        repeat' split at hd
        all_goals simp only [List.mem_singleton, List.not_mem_nil] at hd
        all_goals rw [hd]
        all_goals exact ⟨rfl, rfl⟩

/-- A finding on a field is about its type, and covers the text of that type. -/
theorem of_mem_onField {f : Field} {d : Diagnostic} (hd : d ∈ v.onField f) :
    (d.code = .invalidTypeDefinition ∨ d.code = .invalidBaseType ∨ d.code = .unknownModifier) ∧
      d.range = v.valueRange f.path f.type := by
  rw [onField, fieldFindings] at hd
  split at hd
  · rw [List.mem_singleton.1 hd]
    exact ⟨Or.inl rfl, rfl⟩
  · rcases List.mem_append.1 hd with hd | hd
    · split at hd
      · rw [List.mem_singleton.1 hd]
        exact ⟨Or.inr (Or.inl rfl), rfl⟩
      · simp at hd
    · obtain ⟨modifier, -, rfl⟩ := List.mem_map.1 hd
      exact ⟨Or.inr (Or.inr rfl), rfl⟩

/-- A finding on a resource is that its id or type is missing, that its id was given before, or that
its properties are no mapping. -/
theorem of_mem_onResource {r : Resource} {d : Diagnostic} (hd : d ∈ v.onResource r) :
    ((d.code = .missingResourceId ∨ d.code = .missingResourceType) ∧
        d.range = v.atPath (resourcePath r.index)) ∨
      (d.code = .duplicateResourceId ∧ ∃ id ∈ r.earlier, resourceId? r.node = some id ∧
        d.range = v.valueRange ((resourcePath r.index).child (.key "id")) id) ∨
      (d.code = .invalidResourceProperties ∧ (r.node.present? "properties").isSome = true ∧
        d.range = v.atPath ((resourcePath r.index).child (.key "properties"))) := by
  rw [onResource, resourceFindings, List.mem_append, List.mem_append] at hd
  -- the findings on the id, on the type, and on the properties
  rcases hd with (hd | hd) | hd
  · cases hid : resourceId? r.node with
    | none =>
      rw [hid, idFindings, List.mem_singleton] at hd
      rw [hd]
      exact Or.inl ⟨Or.inl rfl, rfl⟩
    | some id =>
      rw [hid, idFindings] at hd
      split at hd
      · rename_i hseen
        rw [List.mem_singleton.1 hd]
        exact Or.inr (Or.inl ⟨rfl, id, List.contains_iff_mem.1 hseen, rfl, rfl⟩)
      · simp at hd
  · rw [typeFindings] at hd
    split at hd
    · simp at hd
    · rw [List.mem_singleton.1 hd]
      exact Or.inl ⟨Or.inr rfl, rfl⟩
  · rw [propertiesFindings] at hd
    split at hd
    · simp at hd
    · simp at hd
    · rename_i value hvalue
      rw [List.mem_singleton.1 hd, hvalue]
      exact Or.inr (Or.inr ⟨rfl, rfl, rfl⟩)

end Validator

end ResourceGraph

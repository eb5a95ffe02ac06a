import Mathlib.Data.List.Lex
import ResourceGraph.Proofs.FieldType.Recording
import ResourceGraph.Proofs.Validation.Acceptance
import ResourceGraph.Proofs.Validation.Placement
import ResourceGraph.Proofs.Validation.Shape

/-!
# The fields of a schema

A field is a string that entries of mappings lead to from the `spec` or the `status` of a schema.
`Node.Leads` says which strings these are, and numbers the entries on the way: the fields in the
order of these numbers are the fields in the order of the source, depth first. The findings on types
and modifiers are those on each field in that order, no field is left out or looked at twice, and
each is looked up under its own path (`validateWith_fields`).
-/

set_option autoImplicit false

namespace ResourceGraph

/-- A string below a node: the numbers and the names of the entries that lead to it. -/
structure Leaf where
  place : List Nat
  keys : List String
  type : String
  deriving DecidableEq, Repr

namespace Leaf

/-- A leaf seen from the mapping whose entry holds it. -/
def under (number : Nat) (key : String) (leaf : Leaf) : Leaf :=
  ⟨number :: leaf.place, key :: leaf.keys, leaf.type⟩

/-- The name of a leaf, its last key. -/
def name (leaf : Leaf) : String := (leaf.keys.getLast?).getD ""

/-- The path of a leaf of a schema. -/
def path (leaf : Leaf) : Path := ⟨.key "spec" :: .key "schema" :: leaf.keys.map .key⟩

/-- The field that a leaf of a schema is. -/
def field (leaf : Leaf) : Field := ⟨leaf.path, leaf.name, leaf.type⟩

/-- Whether a leaf stands before another one in the source. -/
def Precedes (first second : Leaf) : Prop := first.place < second.place

/-- Leaves seen from the mapping above stand in the same order. -/
theorem Precedes.under {first second : Leaf} (h : first.Precedes second) (number : Nat)
    (key : String) : (first.under number key).Precedes (second.under number key) :=
  List.cons_lt_cons_iff.2 (Or.inr ⟨rfl, h⟩)

end Leaf

namespace Node

/-- The strings that entries of mappings lead to from a node. -/
inductive Leads : Node → Leaf → Prop
  | here (type : String) : Leads (.string type) ⟨[], [], type⟩
  | entry {entries : List (String × Node)} {i : Nat} {key : String} {value : Node} {leaf : Leaf} :
    entries[i]? = some (key, value) → Leads value leaf → Leads (.mapping entries) (leaf.under i key)

/-- The fields of a schema: the strings below its `spec`, which comes first, and its `status`. -/
inductive HasField (schema : Node) : Leaf → Prop
  | mk {i : Nat} {name : String} {group : Node} {leaf : Leaf} :
    ["spec", "status"][i]? = some name → schema.present? name = some group →
    group.Leads leaf → leaf.keys ≠ [] → HasField schema (leaf.under i name)

/-! ## Listing the leaves -/

mutual

/-- The leaves below a node. -/
def leaves : Node → List Leaf
  | .string type => [⟨[], [], type⟩]
  | .mapping entries => entriesLeaves 0 entries
  | _ => []

/-- The leaves below some entries of a mapping, of which the first one has a number. -/
def entriesLeaves : Nat → List (String × Node) → List Leaf
  | _, [] => []
  | i, (key, value) :: rest => (leaves value).map (Leaf.under i key) ++ entriesLeaves (i + 1) rest

end

/-- The leaves below a group; what is no mapping is no group. -/
def groupLeaves : Node → List Leaf
  | .mapping entries => entriesLeaves 0 entries
  | _ => []

/-- The leaves of one section of a schema, under its number. -/
def sectionLeaves (schema : Node) (i : Nat) (name : String) : List Leaf :=
  ((schema.present? name).map fun group => group.groupLeaves.map (Leaf.under i name)).getD []

/-- The leaves of a schema. -/
def schemaLeaves (schema : Node) : List Leaf :=
  schema.sectionLeaves 0 "spec" ++ schema.sectionLeaves 1 "status"

variable {entries : List (String × Node)} {leaf : Leaf}

theorem mem_entriesLeaves {n : Nat} : leaf ∈ entriesLeaves n entries ↔
    ∃ (i : Nat) (key : String) (value : Node), entries[i]? = some (key, value) ∧
      ∃ inner ∈ value.leaves, leaf = inner.under (n + i) key := by
  induction entries generalizing n with
  | nil => simp [entriesLeaves]
  | cons e entries ih =>
    obtain ⟨k, v⟩ := e
    rw [entriesLeaves, List.mem_append, ih, List.mem_map]
    constructor
    · rintro (⟨inner, hinner, rfl⟩ | ⟨i, key, value, hget, inner, hinner, rfl⟩)
      · exact ⟨0, k, v, rfl, inner, hinner, rfl⟩
      · refine ⟨i + 1, key, value, hget, inner, hinner, ?_⟩
        rw [Nat.add_right_comm, Nat.add_assoc]
    · rintro ⟨i, key, value, hget, inner, hinner, rfl⟩
      cases i with
      | zero =>
        obtain ⟨rfl, rfl⟩ := Prod.mk.inj (Option.some.inj hget)
        exact Or.inl ⟨inner, hinner, rfl⟩
      | succ i =>
        refine Or.inr ⟨i, key, value, hget, inner, hinner, ?_⟩
        rw [Nat.add_right_comm, Nat.add_assoc]

/-- The leaves that are listed are those that entries lead to. -/
theorem mem_leaves_iff {node : Node} : leaf ∈ node.leaves ↔ node.Leads leaf := by
  induction node using Node.induct generalizing leaf with
  | string type =>
    rw [leaves, List.mem_singleton]
    constructor
    · rintro rfl
      exact .here type
    · intro h
      cases h
      rfl
  | mapping entries ih =>
    rw [leaves, mem_entriesLeaves]
    constructor
    · rintro ⟨i, key, value, hget, inner, hinner, rfl⟩
      rw [Nat.zero_add]
      exact .entry hget ((ih _ (List.mem_of_getElem? hget)).1 hinner)
    · intro h
      cases h with
      | entry hget hinner =>
        refine ⟨_, _, _, hget, _, (ih _ (List.mem_of_getElem? hget)).2 hinner, ?_⟩
        rw [Nat.zero_add]
  | null | boolean b | number x | sequence items _ =>
    constructor
    · intro h
      exact absurd h List.not_mem_nil
    · intro h
      cases h

theorem mem_groupLeaves_iff {node : Node} :
    leaf ∈ node.groupLeaves ↔ node.Leads leaf ∧ leaf.keys ≠ [] := by
  cases node with
  | mapping entries =>
    show leaf ∈ leaves (.mapping entries) ↔ _
    rw [mem_leaves_iff]
    constructor
    · intro h
      refine ⟨h, ?_⟩
      cases h with
      | entry hget hinner => exact List.cons_ne_nil _ _
    · intro h
      exact h.1
  | string type =>
    -- a string that is a group itself has no name
    constructor
    · intro h
      exact absurd h List.not_mem_nil
    · rintro ⟨h, hkeys⟩
      cases h
      exact absurd rfl hkeys
  | null | boolean b | number x | sequence items =>
    constructor
    · intro h
      exact absurd h List.not_mem_nil
    · rintro ⟨h, -⟩
      cases h

theorem mem_sectionLeaves_iff {schema : Node} {i : Nat} {name : String} :
    leaf ∈ schema.sectionLeaves i name ↔ ∃ group, schema.present? name = some group ∧
      ∃ inner, group.Leads inner ∧ inner.keys ≠ [] ∧ leaf = inner.under i name := by
  rw [sectionLeaves]
  cases schema.present? name with
  | none => simp
  | some group =>
    simp only [Option.map_some, Option.getD_some, List.mem_map, mem_groupLeaves_iff,
      Option.some.injEq, exists_eq_left', and_assoc]
    constructor
    · rintro ⟨inner, hleads, hkeys, rfl⟩
      exact ⟨inner, hleads, hkeys, rfl⟩
    · rintro ⟨inner, hleads, hkeys, rfl⟩
      exact ⟨inner, hleads, hkeys, rfl⟩

/-- The leaves that are listed are the fields of the schema. -/
theorem mem_schemaLeaves_iff {schema : Node} :
    leaf ∈ schema.schemaLeaves ↔ schema.HasField leaf := by
  rw [schemaLeaves, List.mem_append, mem_sectionLeaves_iff, mem_sectionLeaves_iff]
  constructor
  · rintro (⟨group, hgroup, inner, hleads, hkeys, rfl⟩ | ⟨group, hgroup, inner, hleads, hkeys, rfl⟩)
    · exact .mk rfl hgroup hleads hkeys
    · exact .mk rfl hgroup hleads hkeys
  · rintro ⟨hname, hgroup, hleads, hkeys⟩
    rename_i i name group inner
    match i, hname with
    | 0, hname =>
      obtain rfl := Option.some.inj hname
      exact Or.inl ⟨group, hgroup, inner, hleads, hkeys, rfl⟩
    | 1, hname =>
      obtain rfl := Option.some.inj hname
      exact Or.inr ⟨group, hgroup, inner, hleads, hkeys, rfl⟩

/-! ## The order of the leaves -/

theorem exists_place_of_mem_entriesLeaves {n : Nat} (h : leaf ∈ entriesLeaves n entries) :
    ∃ i rest, n ≤ i ∧ leaf.place = i :: rest := by
  obtain ⟨i, key, value, -, inner, -, rfl⟩ := mem_entriesLeaves.1 h
  exact ⟨n + i, inner.place, Nat.le_add_right n i, rfl⟩

theorem pairwise_entriesLeaves {n : Nat}
    (h : ∀ e ∈ entries, e.2.leaves.Pairwise Leaf.Precedes) :
    (entriesLeaves n entries).Pairwise Leaf.Precedes := by
  induction entries generalizing n with
  | nil => exact List.Pairwise.nil
  | cons e entries ih =>
    obtain ⟨key, value⟩ := e
    obtain ⟨hvalue, hrest⟩ := List.forall_mem_cons.1 h
    rw [entriesLeaves, List.pairwise_append, List.pairwise_map]
    refine ⟨?_, ih hrest, ?_⟩
    · apply hvalue.imp
      intro first second hlt
      exact hlt.under _ _
    · -- later entries have larger numbers
      intro first hfirst second hsecond
      obtain ⟨inner, -, rfl⟩ := List.mem_map.1 hfirst
      obtain ⟨i, rest, hi, hplace⟩ := exists_place_of_mem_entriesLeaves hsecond
      rw [Leaf.Precedes, hplace]
      exact List.cons_lt_cons_iff.2 (Or.inl hi)

/-- The leaves are listed in the order of the source. -/
theorem pairwise_leaves (node : Node) : node.leaves.Pairwise Leaf.Precedes := by
  induction node using Node.induct with
  | mapping entries ih => exact pairwise_entriesLeaves ih
  | string type => exact List.pairwise_singleton _ _
  | null | boolean b | number x | sequence items _ => exact List.Pairwise.nil

theorem pairwise_groupLeaves (node : Node) : node.groupLeaves.Pairwise Leaf.Precedes := by
  cases node with
  | mapping entries => exact pairwise_leaves (.mapping entries)
  | null | boolean b | number x | string s | sequence items => exact List.Pairwise.nil

theorem pairwise_sectionLeaves (schema : Node) (i : Nat) (name : String) :
    (schema.sectionLeaves i name).Pairwise Leaf.Precedes := by
  rw [sectionLeaves]
  cases schema.present? name with
  | none => exact List.Pairwise.nil
  | some group =>
    rw [Option.map_some, Option.getD_some, List.pairwise_map]
    apply (pairwise_groupLeaves group).imp
    intro first second hlt
    exact hlt.under _ _

theorem pairwise_schemaLeaves (schema : Node) : schema.schemaLeaves.Pairwise Leaf.Precedes := by
  rw [schemaLeaves, List.pairwise_append]
  refine ⟨pairwise_sectionLeaves schema 0 "spec", pairwise_sectionLeaves schema 1 "status", ?_⟩
  intro first hfirst second hsecond
  obtain ⟨group, -, inner, -, -, rfl⟩ := mem_sectionLeaves_iff.1 hfirst
  obtain ⟨group', -, inner', -, -, rfl⟩ := mem_sectionLeaves_iff.1 hsecond
  exact List.cons_lt_cons_iff.2 (Or.inl Nat.zero_lt_one)

/-! ## Leaves as fields -/

theorem entriesFields_eq_map {path : Path} {n : Nat}
    (h : ∀ e ∈ entries, ∀ path name, entryFields path name e.2 =
      e.2.leaves.map fun leaf =>
        ⟨path.descend leaf.keys, (leaf.keys.getLast?).getD name, leaf.type⟩) :
    entriesFields path entries = (entriesLeaves n entries).map fun leaf =>
      ⟨path.descend leaf.keys, leaf.name, leaf.type⟩ := by
  induction entries generalizing n with
  | nil => rfl
  | cons e entries ih =>
    obtain ⟨key, value⟩ := e
    obtain ⟨hvalue, hrest⟩ := List.forall_mem_cons.1 h
    rw [entriesFields, entriesLeaves, List.map_append, List.map_map, hvalue, ih hrest]
    congr 1
    apply List.map_congr_left
    intro leaf _
    -- one key more on the path is the first of the keys below it
    simp [Path.child, Path.descend, Leaf.under, Leaf.name, List.getLast?_cons]

/-- The fields of an entry are its leaves, each under the path of its keys. -/
theorem entryFields_eq_map (path : Path) (name : String) (node : Node) :
    entryFields path name node = node.leaves.map fun leaf =>
      ⟨path.descend leaf.keys, (leaf.keys.getLast?).getD name, leaf.type⟩ := by
  induction node using Node.induct generalizing path name with
  | string type => simp [entryFields, leaves, Path.descend]
  | mapping entries ih =>
    rw [entryFields, leaves, entriesFields_eq_map (n := 0) ih]
    apply List.map_congr_left
    intro leaf hleaf
    -- a leaf below an entry has a name of its own
    obtain ⟨i, key, value, -, inner, -, rfl⟩ := mem_entriesLeaves.1 hleaf
    simp [Leaf.under, Leaf.name, List.getLast?_cons]
  | null | boolean b | number x | sequence items _ => rfl

theorem sectionFields_eq_map (schema : Node) (i : Nat) (name : String) :
    schema.sectionFields name = (schema.sectionLeaves i name).map Leaf.field := by
  rw [sectionFields, sectionLeaves]
  cases schema.present? name with
  | none => rfl
  | some group =>
    rw [Option.map_some, Option.getD_some, Option.map_some, Option.getD_some, List.map_map]
    cases group with
    | mapping entries =>
      rw [groupFields, groupLeaves, entriesFields_eq_map (n := 0) fun e _ path name =>
        entryFields_eq_map path name e.2]
      apply List.map_congr_left
      intro leaf hleaf
      obtain ⟨j, key, value, -, inner, -, rfl⟩ := mem_entriesLeaves.1 hleaf
      simp [Path.descend, Leaf.under, Leaf.field, Leaf.path, Leaf.name, List.getLast?_cons]
    | null | boolean b | number x | string s | sequence items => rfl

/-- The fields of a schema are its leaves in their order. -/
theorem schemaFields_eq_map (schema : Node) :
    schema.schemaFields = schema.schemaLeaves.map Leaf.field := by
  rw [schemaFields, schemaLeaves, List.map_append, ← sectionFields_eq_map, ← sectionFields_eq_map]

end Node

/-! ## Findings on fields -/

namespace Source

/-- Whether a range covers what is written at a position, or, where nothing is, a text put there. -/
inductive Spans (s : Source) (p : Position) (text : String) : Range → Prop
  | written {start : Position} {value : List Char} : s.valueAt? p = some (start, value) →
    Spans s p text ⟨start, start.advance (Text.units value)⟩
  | missing : s.valueAt? p = none → Spans s p text ⟨p, p.advance (Text.units text.toList)⟩

end Source

namespace Validator

variable {v : Validator}

/-- The findings on a field of a schema: that its type is no type expression, or else those on the
modifiers without a meaning, each name once and in the order in which the names first come. -/
def onLeaf (v : Validator) (leaf : Leaf) : List Diagnostic :=
  if FieldType.IsExpression leaf.type then
    ((FieldType.writtenNames leaf.type).eraseDups.filter
      fun modifier => modifier ∉ FieldType.knownModifiers).map fun modifier =>
        v.unknownModifier leaf.name leaf.type modifier leaf.path
  else [v.invalidType leaf.name leaf.type leaf.path]

theorem onField_field (leaf : Leaf) : v.onField leaf.field = v.onLeaf leaf := by
  show v.fieldFindings leaf.name leaf.type leaf.path = v.onLeaf leaf
  rw [fieldFindings, onLeaf]
  by_cases h : FieldType.IsExpression leaf.type
  · -- the base of a type expression has a known form, so only its modifiers are looked at
    have hvalid := FieldType.isValid_read_iff.2 h
    have hknown : ∀ modifier, (!FieldType.isKnownModifier modifier) =
        decide (modifier ∉ FieldType.knownModifiers) := by
      intro modifier
      simp [FieldType.isKnownModifier]
    rw [if_pos h, if_neg (by simp [hvalid]), if_neg (FieldType.kind_read_ne_unknown hvalid),
      List.nil_append, FieldType.unknownModifiers, FieldType.names_read h]
    simp only [hknown]
  · have hinvalid : (FieldType.read leaf.type).isValid = false := by
      apply Bool.eq_false_iff.2
      intro hvalid
      exact h (FieldType.isValid_read_iff.1 hvalid)
    rw [if_neg h, if_pos (by simp [hinvalid])]

theorem spans_valueRange (path : Path) (value : String) :
    v.source.Spans (v.resolver.position v.source path) value (v.valueRange path value) := by
  rw [valueRange]
  cases h : v.source.valueAt? (v.resolver.position v.source path) with
  | none => exact .missing h
  | some found => exact .written h

/-- A finding on a field has the range of the text of its type. -/
theorem of_mem_onLeaf {leaf : Leaf} {d : Diagnostic} (hd : d ∈ v.onLeaf leaf) :
    d.code ∈ [.invalidTypeDefinition, .unknownModifier] ∧
      d.range = v.valueRange leaf.path leaf.type := by
  rw [onLeaf] at hd
  split at hd
  · obtain ⟨modifier, -, rfl⟩ := List.mem_map.1 hd
    exact ⟨List.mem_cons_of_mem _ List.mem_cons_self, rfl⟩
  · rw [List.mem_singleton.1 hd]
    exact ⟨List.mem_cons_self, rfl⟩

theorem code_not_mem_of_onResource {r : Resource} {d : Diagnostic} (hd : d ∈ v.onResource r) :
    d.code ∉ [.invalidTypeDefinition, .unknownModifier] := by
  rcases of_mem_onResource hd with ⟨hcode | hcode, -⟩ | ⟨hcode, -⟩ | ⟨hcode, -⟩ <;> simp [hcode]

end Validator

open Text Validator

/-- **Every field is looked at once, in order, under its own path.** When the header passes and
there is a schema, the findings on types and on modifiers are, in order, those on each field of the
schema: on each string that mappings alone lead to from its `spec` and then from its `status`, depth
first in the order of the source. Their ranges span what is written at the position that the
resolver answers for the path of the field. -/
theorem validateWith_fields (settings : Settings) (resolver : Resolver) {tree spec schema : Node}
    {text : String} (hheader : HasHeader settings tree text)
    (hspec : tree.present? "spec" = some spec) (hschema : spec.present? "schema" = some schema) :
    ∃ leaves : List Leaf, leaves.Pairwise Leaf.Precedes ∧
      (∀ leaf, leaf ∈ leaves ↔ schema.HasField leaf) ∧
      (validateWith settings resolver tree text).filter
          (fun d => d.code ∈ [.invalidTypeDefinition, .unknownModifier]) =
        leaves.flatMap (Validator.mk settings resolver (Source.ofString text)).onLeaf ∧
      ∀ leaf ∈ leaves,
        ∀ d ∈ (Validator.mk settings resolver (Source.ofString text)).onLeaf leaf,
          (Source.ofString text).Spans (resolver.position (Source.ofString text) leaf.path)
            leaf.type d.range := by
  refine ⟨schema.schemaLeaves, Node.pairwise_schemaLeaves schema,
    fun leaf => Node.mem_schemaLeaves_iff, ?_, ?_⟩
  · have hfields : tree.fields = schema.schemaLeaves.map Leaf.field := by
      rw [Node.fields, hspec, Option.bind_some, hschema, Option.map_some, Option.getD_some,
        Node.schemaFields_eq_map]
    have hpicked : ∀ d : Diagnostic, decide (d.code ∈ [.invalidTypeDefinition, .unknownModifier]) =
        true → d.code.isPlaced = true := by
      intro d hd
      rcases List.mem_pair.1 (of_decide_eq_true hd) with hcode | hcode <;> rw [hcode] <;> rfl
    rw [validateWith, filter_findings_of_isPlaced hpicked
      (headerFindings_eq_nil_iff_hasHeader.2 hheader), hfields, List.flatMap_map]
    -- all that is found on a field is picked out, and nothing that is found on a resource
    have hleaves : schema.schemaLeaves.flatMap (fun leaf =>
        (Validator.mk settings resolver (Source.ofString text)).onField leaf.field) =
          schema.schemaLeaves.flatMap
            (Validator.mk settings resolver (Source.ofString text)).onLeaf :=
      List.flatMap_congr fun leaf _ => onField_field leaf
    rw [hleaves, List.filter_eq_self.2, List.filter_eq_nil_iff.2, List.append_nil]
    · intro d hd
      obtain ⟨r, -, hd⟩ := List.mem_flatMap.1 hd
      rw [decide_eq_true_eq]
      exact code_not_mem_of_onResource hd
    · intro d hd
      obtain ⟨leaf, -, hd⟩ := List.mem_flatMap.1 hd
      exact decide_eq_true (of_mem_onLeaf hd).1
  · intro leaf _ d hd
    rw [(of_mem_onLeaf hd).2]
    exact spans_valueRange (v := ⟨settings, resolver, Source.ofString text⟩) leaf.path leaf.type

namespace Node

/-- A schema with its status before its spec, in which a group is repeated and a list holds a text
that is no type. -/
def mixedSchema : Node :=
  .mapping [
    ("status", .mapping [("ready", .string "bool")]),
    ("spec", .mapping [
      ("tags", .sequence [.string "strin"]),
      ("resources", .mapping [("count", .boolean true), ("id", .string "strin")]),
      ("resources", .mapping [("id", .string "string | z=1 | id=a | z=2")])])]

/-- A document with a spec. -/
def withSpec (spec : Node) : Node :=
  .mapping [
    ("apiVersion", .string "kro.run/v1alpha1"), ("kind", .string "ResourceGraphDefinition"),
    ("metadata", .mapping [("name", .string "web")]), ("spec", spec)]

end Node

theorem Block.splitLines_faultyDocument :
    splitLines (Block.faultyDocument.text 2).toList = Block.faultyDocument.lines 2 :=
  Block.splitLines_text (by decide +kernel)

theorem hasHeader_withSpec (spec : Node) :
    HasHeader .standard spec.withSpec (Block.faultyDocument.text 2) := by
  refine ⟨⟨"apiVersion: kro.run/v1alpha1".toList, "kind: ResourceGraphDefinition".toList,
    (Block.faultyDocument.lines 2).drop 2, ?_, by decide, by decide⟩, rfl, rfl⟩
  rw [Block.splitLines_faultyDocument]
  decide +kernel

theorem validateWith_fields_mixedSchema :
    (HasHeader .standard (Node.mapping [("schema", Node.mixedSchema)]).withSpec
        (Block.faultyDocument.text 2) ∧
      (Node.mapping [("schema", Node.mixedSchema)]).withSpec.present? "spec" =
        some (.mapping [("schema", Node.mixedSchema)]) ∧
      (Node.mapping [("schema", Node.mixedSchema)]).present? "schema" = some Node.mixedSchema) ∧
    ∃ leaves : List Leaf, leaves.Pairwise Leaf.Precedes ∧
      (∀ leaf, leaf ∈ leaves ↔ Node.mixedSchema.HasField leaf) ∧
      (leaves.flatMap (ofText .standard (Block.faultyDocument.text 2)).onLeaf).map
          (fun d => (d.code, d.range)) =
        [(.invalidTypeDefinition, ⟨⟨8, 12⟩, ⟨8, 17⟩⟩),
          (.unknownModifier, ⟨⟨8, 12⟩, ⟨8, 17⟩⟩), (.unknownModifier, ⟨⟨8, 12⟩, ⟨8, 17⟩⟩),
          (.invalidTypeDefinition, ⟨⟨20, 0⟩, ⟨20, 4⟩⟩)] := by
  refine ⟨⟨hasHeader_withSpec _, rfl, rfl⟩, ?_⟩
  obtain ⟨leaves, hordered, hleaves, hfindings, -⟩ :=
    validateWith_fields .standard .indentation
      (hasHeader_withSpec (.mapping [("schema", Node.mixedSchema)])) rfl rfl
  refine ⟨leaves, hordered, hleaves, ?_⟩
  rw [ofText, ← hfindings, validateWith_eq _ _ _ Block.splitLines_faultyDocument.symm]
  decide +kernel

end ResourceGraph

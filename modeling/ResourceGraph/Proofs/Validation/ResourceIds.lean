import ResourceGraph.Proofs.Validation.Traversal

/-!
# The ids of resources

Each resource is held against the ids of those before it. The ids that the check has at hand at a
resource are the texts of the earlier ids (`AreIdsOf.concat`), so what it finds there can be said
without the run up to it (`itemsFindings_eq_items`): that there is no id text, or that an earlier
resource has the same one. Over a whole document a text that is the id of `m` resources is found to
be repeated `m - 1` times (`validateWith_resources`).
-/

set_option autoImplicit false

namespace ResourceGraph

namespace Validator

variable {v : Validator} {tree : Node}

/-! ## One resource -/

/-- The finding that a resource has no id text. -/
def missingId (v : Validator) (index : Nat) : Diagnostic :=
  v.error .missingResourceId
    ("Missing 'id' in resource at index " ++ toString index ++ ". Each resource must have an ID.")
    (v.atPath (resourcePath index))

/-- What is said of a repeated id. -/
def repeatedIdMessage (id : String) : String :=
  "Duplicate resource ID '" ++ id ++ "'. Resource IDs must be unique."

/-- The finding that an earlier resource has the id of a resource. -/
def repeatedId (v : Validator) (index : Nat) (id : String) : Diagnostic :=
  v.error .duplicateResourceId (repeatedIdMessage id)
    (v.valueRange ((resourcePath index).child (.key "id")) id)

/-- The finding on the id of the resource at an index, if there is one: that it has no text, or that
an earlier resource has the same text. -/
def onId (v : Validator) (items : List Node) (index : Nat) (item : Node) : List Diagnostic :=
  match resourceId? item with
  | none => [v.missingId index]
  | some id =>
    if some id ∈ (items.take index).map resourceId? then [v.repeatedId index id] else []

/-- The findings on the resource at an index: on its id, on its type, and on its properties. -/
def onItem (v : Validator) (items : List Node) (index : Nat) (item : Node) : List Diagnostic :=
  v.onId items index item ++ v.typeFindings index (resourceLabel index (resourceId? item)) item ++
    v.propertiesFindings index (resourceLabel index (resourceId? item)) item

/-- Some ids are those of the resources before one. -/
def AreIdsOf (ids : List String) (before : List Node) : Prop :=
  ∀ id, id ∈ ids ↔ some id ∈ before.map resourceId?

/-- One resource adds its id text, if it has one. -/
theorem AreIdsOf.concat {ids : List String} {before : List Node} (h : AreIdsOf ids before)
    (item : Node) : AreIdsOf ((resourceId? item).toList ++ ids) (before ++ [item]) := by
  intro id
  rw [List.mem_append, Option.mem_toList, h id, List.map_append, List.mem_append,
    List.map_singleton, List.mem_singleton, or_comm, eq_comm (a := some id)]

/-- At a resource the check sees the ids of those before it. -/
theorem resourceFindings_eq_onItem {ids : List String} {before : List Node}
    (h : AreIdsOf ids before) (item : Node) (rest : List Node) :
    v.resourceFindings before.length ids item =
      v.onItem (before ++ item :: rest) before.length item := by
  have hid : v.idFindings before.length ids (resourceId? item) =
      v.onId (before ++ item :: rest) before.length item := by
    rw [onId, List.take_left]
    cases resourceId? item with
    | none => rfl
    | some id =>
      show (if ids.contains id then [v.repeatedId before.length id] else []) =
        if some id ∈ before.map resourceId? then [v.repeatedId before.length id] else []
      by_cases hmem : some id ∈ before.map resourceId?
      · rw [if_pos hmem, if_pos (List.contains_iff_mem.2 ((h id).2 hmem))]
      · have hnew : ¬ ids.contains id = true := by
          rw [List.contains_iff_mem, h id]
          exact hmem
        rw [if_neg hmem, if_neg hnew]
  rw [resourceFindings, hid, onItem]

/-! ## All resources -/

/-- The findings on the resources after some others. -/
theorem itemsFindings_append {ids : List String} {before : List Node} (h : AreIdsOf ids before)
    (rest : List Node) : v.itemsFindings before.length ids rest =
      (rest.zipIdx before.length).flatMap fun e => v.onItem (before ++ rest) e.2 e.1 := by
  -- the ids at hand are those of the resources before, at every resource of the run
  induction rest generalizing ids before with
  | nil => rfl
  | cons item rest ih =>
    have hrest := ih (h.concat item)
    rw [List.length_append, List.length_singleton, List.append_assoc, List.singleton_append]
      at hrest
    rw [itemsFindings, List.zipIdx_cons, List.flatMap_cons, hrest,
      resourceFindings_eq_onItem h item rest]

/-- **The findings on resources are those on each one, given all of them.** -/
theorem itemsFindings_eq_items (items : List Node) :
    v.itemsFindings 0 [] items = items.zipIdx.flatMap fun e => v.onItem items e.2 e.1 := by
  have hnone : AreIdsOf [] [] := by
    intro id
    simp
  have hall : v.itemsFindings ([] : List Node).length [] items = _ :=
    itemsFindings_append hnone items
  exact hall

/-! ## How often an id is repeated -/

theorem surrounded_inj {before s t after : String}
    (h : before ++ s ++ after = before ++ t ++ after) : s = t := by
  rwa [String.append_left_inj, String.append_right_inj] at h

theorem repeatedIdMessage_inj {id other : String}
    (h : repeatedIdMessage id = repeatedIdMessage other) : id = other :=
  surrounded_inj h

/-- Whether a finding is that an id is repeated. -/
def repeats (id : String) (d : Diagnostic) : Bool :=
  d.code = .duplicateResourceId ∧ d.message = repeatedIdMessage id

theorem repeats_repeatedId_iff {index : Nat} {id other : String} :
    repeats id (v.repeatedId index other) = true ↔ other = id := by
  rw [repeats, decide_eq_true_eq]
  constructor
  · intro h
    exact repeatedIdMessage_inj h.2
  · rintro rfl
    exact ⟨rfl, rfl⟩

/-- A resource adds to the findings on an id if an earlier one has this id too. -/
theorem countP_repeats_resourceFindings (index : Nat) (ids : List String) (item : Node)
    (id : String) : (v.resourceFindings index ids item).countP (repeats id) =
      if resourceId? item = some id ∧ id ∈ ids then 1 else 0 := by
  have htype : (v.typeFindings index (resourceLabel index (resourceId? item)) item).countP
      (repeats id) = 0 := by
    rw [typeFindings]
    split <;> rfl
  have hproperties : (v.propertiesFindings index (resourceLabel index (resourceId? item))
      item).countP (repeats id) = 0 := by
    rw [propertiesFindings]
    split <;> rfl
  rw [resourceFindings, List.countP_append, List.countP_append, htype, hproperties]
  cases resourceId? item with
  | none => rfl
  | some other =>
    show (if ids.contains other then [v.repeatedId index other] else []).countP (repeats id) = _
    by_cases hseen : other ∈ ids
    · rw [if_pos (List.contains_iff_mem.2 hseen), List.countP_singleton]
      by_cases hid : other = id
      · rw [if_pos (repeats_repeatedId_iff.2 hid), if_pos ⟨congrArg some hid, hid ▸ hseen⟩]
      · rw [if_neg (mt repeats_repeatedId_iff.1 hid), if_neg fun h => hid (Option.some.inj h.1)]
    · have hnot : ¬(some other = some id ∧ id ∈ ids) := by
        rintro ⟨hid, hmem⟩
        exact hseen (Option.some.inj hid ▸ hmem)
      rw [if_neg (mt List.contains_iff_mem.1 hseen), if_neg hnot]
      rfl

/-- **An id is found to be repeated at every resource that has it, except for the first one.** -/
theorem countP_repeats_itemsFindings (index : Nat) (ids : List String) (items : List Node)
    (id : String) : (v.itemsFindings index ids items).countP (repeats id) =
      (items.map resourceId?).count (some id) - if id ∈ ids then 0 else 1 := by
  induction items generalizing index ids with
  | nil => simp [itemsFindings]
  | cons item items ih =>
    rw [itemsFindings, List.countP_append, countP_repeats_resourceFindings, ih, List.map_cons,
      List.count_cons]
    by_cases hid : resourceId? item = some id
    · by_cases hseen : id ∈ ids
      · simp [hid, hseen]
        omega
      · simp [hid, hseen]
    · have hbeq : (resourceId? item == some id) = false := beq_eq_false_iff_ne.2 hid
      have hsame : id ∈ (resourceId? item).toList ++ ids ↔ id ∈ ids := by
        rw [List.mem_append, Option.mem_toList]
        exact or_iff_right hid
      simp [hid, hsame]

/-- The codes of findings on single resources. -/
def resourceCodes : List DiagnosticCode :=
  [.missingResourceId, .duplicateResourceId, .missingResourceType, .invalidResourceProperties]

theorem code_mem_of_onResource {r : Resource} {d : Diagnostic} (hd : d ∈ v.onResource r) :
    d.code ∈ resourceCodes := by
  rcases of_mem_onResource hd with ⟨hcode | hcode, -⟩ | ⟨hcode, -⟩ | ⟨hcode, -⟩ <;>
    rw [hcode] <;> decide

theorem code_not_mem_of_onField {f : Field} {d : Diagnostic} (hd : d ∈ v.onField f) :
    d.code ∉ resourceCodes := by
  rcases (of_mem_onField hd).1 with hcode | hcode | hcode <;> rw [hcode] <;> decide

theorem isPlaced_of_mem_resourceCodes {code : DiagnosticCode} (h : code ∈ resourceCodes) :
    code.isPlaced = true := by
  revert h
  cases code <;> decide

/-- The resources of a document whose `resources` are a sequence. -/
theorem resources_eq {items : List Node}
    (h : (tree.get? "spec").bind (Node.get? "resources") = some (.sequence items)) :
    tree.resources = Node.resourcesFrom 0 [] items := by
  obtain ⟨spec, hspec, hitems⟩ := Option.bind_eq_some_iff.1 h
  -- what has a key is a mapping, and counts as given
  have hpresent : tree.present? "spec" = some spec := by
    rw [Node.present?, hspec]
    cases spec with
    | mapping entries => rfl
    | null | boolean b | number x | string s | sequence items => simp [Node.get?] at hitems
  have hitemsPresent : spec.present? "resources" = some (.sequence items) := by
    rw [Node.present?, hitems]
    rfl
  rw [Node.resources, hpresent, Option.bind_some, hitemsPresent]

/-- Of the findings with the codes of resources, none is on a field. -/
theorem filter_findings_of_resourceCodes {p : Diagnostic → Bool}
    (hp : ∀ d, p d = true → d.code ∈ resourceCodes) (hheader : v.headerFindings tree = [])
    {items : List Node}
    (hitems : (tree.get? "spec").bind (Node.get? "resources") = some (.sequence items)) :
    (v.findings tree).filter p = (v.itemsFindings 0 [] items).filter p := by
  have hfields : (tree.fields.flatMap v.onField).filter p = [] := by
    apply List.filter_eq_nil_iff.2
    intro d hd hpicked
    obtain ⟨f, -, hd⟩ := List.mem_flatMap.1 hd
    exact code_not_mem_of_onField hd (hp d hpicked)
  rw [filter_findings_of_isPlaced (fun d hd => isPlaced_of_mem_resourceCodes (hp d hd)) hheader,
    hfields, List.nil_append, resources_eq hitems, itemsFindings_eq]

theorem code_mem_of_itemsFindings {index : Nat} {ids : List String} {items : List Node}
    {d : Diagnostic} (hd : d ∈ v.itemsFindings index ids items) : d.code ∈ resourceCodes := by
  rw [itemsFindings_eq] at hd
  obtain ⟨r, -, hd⟩ := List.mem_flatMap.1 hd
  exact code_mem_of_onResource hd

end Validator

open Validator

/-- **Accounting for ids.** When the header passes and the resources are a sequence, the findings on
single resources are, in order, those on each one: on its id, then on its type, then on its
properties. The id of a resource has at most one finding: that it has no text, or that an earlier
resource has the same text. An id text of `m` resources is found to be repeated `m - 1` times. -/
theorem validateWith_resources (settings : Settings) (resolver : Resolver) {tree : Node}
    {items : List Node} {text : String} (hheader : HasHeader settings tree text)
    (hitems : (tree.get? "spec").bind (Node.get? "resources") = some (.sequence items)) :
    (validateWith settings resolver tree text).filter (fun d => d.code ∈ resourceCodes) =
        (items.zipIdx.flatMap fun e =>
          (Validator.mk settings resolver (Source.ofString text)).onItem items e.2 e.1) ∧
      ∀ id, (validateWith settings resolver tree text).countP (repeats id) =
        (items.map resourceId?).count (some id) - 1 := by
  have hnone : (Validator.mk settings resolver (Source.ofString text)).headerFindings tree = [] :=
    headerFindings_eq_nil_iff_hasHeader.2 hheader
  constructor
  · have hpicked : ∀ d : Diagnostic, decide (d.code ∈ resourceCodes) = true →
        d.code ∈ resourceCodes := fun d hd => of_decide_eq_true hd
    rw [validateWith, filter_findings_of_resourceCodes hpicked hnone hitems, List.filter_eq_self.2,
      itemsFindings_eq_items]
    intro d hd
    exact decide_eq_true (code_mem_of_itemsFindings hd)
  · intro id
    have hpicked : ∀ d : Diagnostic, repeats id d = true → d.code ∈ resourceCodes := by
      intro d hd
      rw [(of_decide_eq_true hd).1]
      decide
    rw [List.countP_eq_length_filter, validateWith,
      filter_findings_of_resourceCodes hpicked hnone hitems, ← List.countP_eq_length_filter,
      countP_repeats_itemsFindings]
    rfl

/-- Resources of which three have the id text `1`, one of them as a number, and three have none. -/
def Node.countedResources : List Node :=
  [.mapping [("id", .number (Number.ofInt 1)), ("type", .string "t")],
    .mapping [("id", .string "1")],
    .mapping [("id", .null), ("type", .string "t")],
    .mapping [("id", .mapping [("id", .string "1")]), ("type", .string "t")],
    .string "1",
    .mapping [("id", .string "1"), ("type", .string "t"), ("properties", .string "1")]]

theorem validateWith_resources_countedResources :
    (HasHeader .standard
        (Node.mapping [("resources", .sequence Node.countedResources)]).withSpec
        (Block.faultyDocument.text 2) ∧
      ((Node.mapping [("resources", .sequence Node.countedResources)]).withSpec.get? "spec").bind
        (Node.get? "resources") = some (.sequence Node.countedResources)) ∧
    (Node.countedResources.zipIdx.flatMap fun e =>
        (ofText .standard (Block.faultyDocument.text 2)).onItem Node.countedResources e.2 e.1).map
          Diagnostic.code =
      [.duplicateResourceId, .missingResourceType, .missingResourceId, .missingResourceId,
        .missingResourceId, .missingResourceType, .duplicateResourceId,
        .invalidResourceProperties] ∧
    (validateWith .standard .indentation
        (Node.mapping [("resources", .sequence Node.countedResources)]).withSpec
        (Block.faultyDocument.text 2)).countP (repeats "1") = 2 := by
  obtain ⟨hfindings, hcount⟩ := validateWith_resources .standard .indentation
    (hasHeader_withSpec (.mapping [("resources", .sequence Node.countedResources)])) rfl
  refine ⟨⟨hasHeader_withSpec _, rfl⟩, ?_, ?_⟩
  · rw [ofText, ← hfindings, validateWith_eq _ _ _ Block.splitLines_faultyDocument.symm]
    decide +kernel
  · rw [hcount "1"]
    decide +kernel

end ResourceGraph

import ResourceGraph.Proofs.Resolver.Printed
import ResourceGraph.Proofs.Validation.Parts

/-!
# Where findings are placed

On a printed document every finding on a field or a resource stands on the text it is about
(`validate_placed`). A finding on a field covers the printed type, from its first character to its
last. The finding of a repeated id covers that id where it is repeated. What is missing from a
resource is found at the marker of that resource, and properties that are no mapping right after
their colon.
-/

set_option autoImplicit false

namespace ResourceGraph

open Text

/-- Whether a rule is about a field or a resource. -/
def DiagnosticCode.isPlaced : DiagnosticCode → Bool
  | .invalidTypeDefinition => true
  | .invalidBaseType => true
  | .unknownModifier => true
  | .missingResourceId => true
  | .duplicateResourceId => true
  | .missingResourceType => true
  | .invalidResourceProperties => true
  | _ => false

/-! ## Places in a printed document -/

namespace Block

/-- Whether a range covers the scalar that is printed for a key below a path, and nothing else. -/
def CoversScalar (step : Nat) (root : Block) (path : List Segment) (key text : String)
    (range : Range) : Prop :=
  ∃ site before, root.site? step (path ++ [.key key]) = some site ∧ site.value = .scalar text ∧
    range.start.line = site.position.line ∧
    (root.lines step)[site.position.line]? =
      some (before ++ key.toList ++ ':' :: ' ' :: text.toList) ∧
    range.start.character = units (before ++ key.toList ++ [':', ' ']) ∧
    range.stop = range.start.advance (units text.toList)

/-- Whether a range is empty and stands at the marker of the item at a path. -/
def PointsAtMarker (step : Nat) (root : Block) (path : List Segment) (range : Range) : Prop :=
  ∃ site before after, root.site? step path = some site ∧ range = .point site.position ∧
    (root.lines step)[site.position.line]? = some (before ++ '-' :: ' ' :: after) ∧
    site.position.character = units before

/-- Whether a range is empty and stands right after the colon of a key below a path. -/
def PointsAfterColon (step : Nat) (root : Block) (path : List Segment) (key : String)
    (range : Range) : Prop :=
  ∃ site before after, root.site? step (path ++ [.key key]) = some site ∧
    range = .point site.position ∧
    (root.lines step)[site.position.line]? = some (before ++ key.toList ++ ':' :: after) ∧
    site.position.character = units (before ++ key.toList ++ [':'])

/-- Whether the id of a resource is printed on an earlier line too, for a resource before it. -/
def RepeatsId (step : Nat) (root : Block) (index : Nat) (id : String) (range : Range) : Prop :=
  ∃ j < index, ∃ first,
    root.site? step [.key "spec", .key "resources", .index j, .key "id"] = some first ∧
      first.value = .scalar id ∧ first.position.line < range.start.line

end Block

/-- Whether a finding on a resource stands on the text it is about. -/
def Resource.Places (step : Nat) (root : Block) (r : Resource) (d : Diagnostic) : Prop :=
  match d.code with
  | .missingResourceId | .missingResourceType =>
    root.PointsAtMarker step [.key "spec", .key "resources", .index r.index] d.range
  | .duplicateResourceId =>
    ∃ id, root.CoversScalar step [.key "spec", .key "resources", .index r.index] "id" id d.range ∧
      root.RepeatsId step r.index id d.range
  | .invalidResourceProperties =>
    root.PointsAfterColon step [.key "spec", .key "resources", .index r.index] "properties" d.range
  | _ => False

namespace Block

variable {step : Nat} {root b : Block} {v : Validator}

/-! ## The parts of a printed document -/

theorem of_mem_entryFields {first : String} (hb : b.isWellFormed = true)
    (above : List Segment) (name : String)
    (hat : root.at? (.key first :: (above ++ [.key name])) = some b) {f : Field}
    (hf : f ∈ Node.entryFields ⟨.key first :: (above ++ [.key name])⟩ name b.node) :
    ∃ path, f.path.segments = .key first :: (path ++ [.key f.name]) ∧
      root.at? f.path.segments = some (.scalar f.type) := by
  induction b using induct generalizing above name with
  | scalar text =>
    simp only [node, Node.entryFields, List.mem_singleton] at hf
    rw [hf]
    exact ⟨above, rfl, hat⟩
  | mapping entries ih =>
    obtain ⟨-, hkeys, hentries⟩ := isWellFormed_mapping.1 hb
    rw [node, Node.entryFields, Node.entriesFields_eq_flatMap, entriesNode_eq_map] at hf
    obtain ⟨e, he, hf⟩ := List.mem_flatMap.1 hf
    obtain ⟨⟨key, value⟩, hmem, rfl⟩ := List.mem_map.1 he
    refine ih _ hmem (hentries _ hmem).2 _ _ ?_ hf
    have hchild := at?_concat hat (.key key)
    rw [child?, lookup_of_mem hkeys hmem] at hchild
    exact hchild
  | list deeper items _ => simp [node, Node.entryFields] at hf

theorem mem_getD_map {α β : Type} {o : Option α} {g : α → List β} {x : β}
    (h : x ∈ (o.map g).getD []) : ∃ a, o = some a ∧ x ∈ g a := by
  cases o with
  | none => simp at h
  | some a => exact ⟨a, rfl, h⟩

/-- A field of a printed document is a scalar of its name, below the spec. -/
theorem of_mem_fields (hroot : root.isWellFormed = true) {f : Field} (hf : f ∈ root.node.fields) :
    ∃ path, f.path.segments = .key "spec" :: (path ++ [.key f.name]) ∧
      root.at? f.path.segments = some (.scalar f.type) := by
  obtain ⟨schema, hschema, hf⟩ := mem_getD_map hf
  obtain ⟨spec, hspec, hschema⟩ := Option.bind_eq_some_iff.1 hschema
  obtain ⟨specPart, hspecAt, rfl⟩ := exists_of_present? hroot (at?_nil root) hspec
  obtain ⟨schemaPart, hschemaAt, rfl⟩ := exists_of_present? hroot hspecAt hschema
  have hsection : ∀ name, f ∈ schemaPart.node.sectionFields name →
      ∃ path, f.path.segments = .key "spec" :: (path ++ [.key f.name]) ∧
        root.at? f.path.segments = some (.scalar f.type) := by
    intro name hf
    obtain ⟨group, hgroup, hf⟩ := mem_getD_map hf
    obtain ⟨part, hat, rfl⟩ := exists_of_present? hroot hschemaAt hgroup
    cases part with
    | mapping entries =>
      have hpart := isWellFormed_of_at? hat hroot
      exact of_mem_entryFields hpart [.key "schema"] name hat hf
    | scalar text => simp [node, Node.groupFields] at hf
    | list deeper items => simp [node, Node.groupFields] at hf
  rcases List.mem_append.1 hf with hf | hf
  · exact hsection "spec" hf
  · exact hsection "status" hf

/-- A resource of a printed document is the item at its index, and an id was given before it if an
earlier item has it. -/
theorem of_mem_resources (hroot : root.isWellFormed = true) {r : Resource}
    (hr : r ∈ root.node.resources) :
    ∃ deeper items item, root.at? [.key "spec", .key "resources"] = some (.list deeper items) ∧
      items[r.index]? = some item ∧ r.node = item.node ∧
      ∀ id ∈ r.earlier, ∃ j < r.index, ∃ other, items[j]? = some other ∧
        Validator.resourceId? other.node = some id := by
  unfold Node.resources at hr
  split at hr
  · rename_i items hitems
    obtain ⟨spec, hspec, hitems⟩ := Option.bind_eq_some_iff.1 hitems
    obtain ⟨specPart, hspecAt, rfl⟩ := exists_of_present? hroot (at?_nil root) hspec
    obtain ⟨part, hat, hpart⟩ := exists_of_present? hroot hspecAt hitems
    cases part with
    | list deeper blocks =>
      obtain rfl : items = itemsNode blocks := by simpa [node] using hpart
      obtain ⟨k, hitem, hindex, hearlier⟩ := Node.of_mem_resourcesFrom hr
      rw [Nat.zero_add] at hindex
      rw [itemsNode_eq_map, List.getElem?_map] at hitem
      obtain ⟨item, hblock, hnode⟩ := Option.map_eq_some_iff.1 hitem
      refine ⟨deeper, blocks, item, hat, by rw [hindex, hblock], hnode.symm, ?_⟩
      intro id hid
      rcases (hearlier id).1 hid with hnil | ⟨j, hj, hid⟩
      · simp at hnil
      · obtain ⟨other, hother, hid⟩ := Option.bind_eq_some_iff.1 hid
        rw [itemsNode_eq_map, List.getElem?_map] at hother
        obtain ⟨block, hblock, rfl⟩ := Option.map_eq_some_iff.1 hother
        exact ⟨j, by omega, block, hblock, hid⟩
    | scalar text => simp [node] at hpart
    | mapping entries => simp [node] at hpart
  · simp at hr

/-- A part of the tree has a site, and its line shows it. -/
theorem exists_site (step : Nat) {path : List Segment} {last : Segment} {part : Block}
    (hroot : root.isWellFormed = true) (hat : root.at? (path ++ [last]) = some part) :
    ∃ site left right, root.site? step (path ++ [last]) = some site ∧ site.value = part ∧
      (root.lines step)[site.position.line]? = some (left ++ right) ∧
      units left = site.position.character ∧ last.Around part left right := by
  rw [← site?_map_value step] at hat
  obtain ⟨site, hsite, rfl⟩ := Option.map_eq_some_iff.1 hat
  obtain ⟨left, right, hline, hcolumn, haround⟩ := exists_line_of_site? hroot hsite
  exact ⟨site, left, right, hsite, rfl, hline, hcolumn, haround⟩

end Block

/-- A validator that follows the indentation of a printed document. -/
structure Validator.Reads (v : Validator) (step : Nat) (root : Block) : Prop where
  step_pos : 0 < step
  isWellFormed : root.isWellFormed = true
  resolver : v.resolver = .indentation
  lines : v.source.lines = root.lines step
  isNewKey : root.isNewKey step "spec" = true

namespace Validator.Reads

open Block

variable {step : Nat} {root : Block} {v : Validator}

theorem position_eq (h : v.Reads step root) {rest : List Segment} {site : Site}
    (hsite : root.site? step (.key "spec" :: rest) = some site) :
    v.resolver.position v.source ⟨.key "spec" :: rest⟩ = site.position := by
  rw [h.resolver]
  exact Resolver.position_of_site? h.step_pos h.isWellFormed h.lines h.isNewKey hsite

/-- The range of a value covers the scalar that is printed for it. -/
theorem coversScalar (h : v.Reads step root) (path : List Segment) {key text : String}
    (hat : root.at? (.key "spec" :: path ++ [.key key]) = some (.scalar text)) (value : String) :
    root.CoversScalar step (.key "spec" :: path) key text
      (v.valueRange ⟨.key "spec" :: path ++ [.key key]⟩ value) := by
  obtain ⟨site, left, right, hsite, hvalue, hline, hcolumn, ⟨before, hbefore⟩, hright⟩ :=
    exists_site step h.isWellFormed hat
  have hposition : v.resolver.position v.source ⟨.key "spec" :: path ++ [.key key]⟩ =
      site.position := h.position_eq hsite
  have hread := Source.valueAt?_of_site? h.isWellFormed h.lines hsite hvalue
  have hrange : v.valueRange ⟨.key "spec" :: path ++ [.key key]⟩ value =
      ⟨site.position.advance 1, (site.position.advance 1).advance (units text.toList)⟩ := by
    rw [valueRange, hposition, hread]
    rfl
  rw [hrange]
  refine ⟨site, before, hsite, hvalue, rfl, ?_, ?_, rfl⟩
  · rw [hline, hbefore, hright, Block.inline, List.append_assoc _ [':']]
    rfl
  · have hspace : units [':', ' '] = units [':'] + 1 := by decide
    rw [units_append, hspace, ← Nat.add_assoc, ← units_append, ← hbefore, hcolumn]
    rfl

/-- The empty range at a path of an item stands at the marker of the item. -/
theorem pointsAtMarker (h : v.Reads step root) (path : List Segment) {i : Nat} {item : Block}
    (hat : root.at? (.key "spec" :: path ++ [.index i]) = some item) :
    root.PointsAtMarker step (.key "spec" :: path ++ [.index i])
      (v.atPath ⟨.key "spec" :: path ++ [.index i]⟩) := by
  obtain ⟨site, left, right, hsite, -, hline, hcolumn, after, hafter⟩ :=
    exists_site step h.isWellFormed hat
  have hrange : v.atPath ⟨.key "spec" :: path ++ [.index i]⟩ = .point site.position := by
    rw [atPath]
    exact congrArg Range.point (h.position_eq hsite)
  rw [hafter] at hline
  exact ⟨site, left, after, hsite, hrange, hline, hcolumn.symm⟩

/-- The empty range at a path of a key stands right after the colon of the key. -/
theorem pointsAfterColon (h : v.Reads step root) (path : List Segment) {key : String} {part : Block}
    (hat : root.at? (.key "spec" :: path ++ [.key key]) = some part) :
    root.PointsAfterColon step (.key "spec" :: path) key
      (v.atPath ⟨.key "spec" :: path ++ [.key key]⟩) := by
  obtain ⟨site, left, right, hsite, -, hline, hcolumn, ⟨before, hbefore⟩, -⟩ :=
    exists_site step h.isWellFormed hat
  have hrange : v.atPath ⟨.key "spec" :: path ++ [.key key]⟩ = .point site.position := by
    rw [atPath]
    exact congrArg Range.point (h.position_eq hsite)
  rw [hbefore, List.append_assoc _ [':']] at hline
  rw [hbefore] at hcolumn
  exact ⟨site, before, right, hsite, hrange, hline, hcolumn.symm⟩

/-- An id that an earlier resource has is printed on an earlier line. -/
theorem repeatsId (h : v.Reads step root) {deeper : Bool} {items : List Block}
    (hat : root.at? [.key "spec", .key "resources"] = some (.list deeper items)) {i j : Nat}
    (hji : j < i) {other : Block} (hother : items[j]? = some other) {id text : String}
    (hid : other.child? (.key "id") = some (.scalar id)) {range : Range}
    (hrange : root.CoversScalar step [.key "spec", .key "resources", .index i] "id" text range) :
    root.RepeatsId step i id range := by
  obtain ⟨site, before, hsite, -, hline, -⟩ := hrange
  rw [← site?_map_value step] at hat
  obtain ⟨list, hlist, hvalue⟩ := Option.map_eq_some_iff.1 hat
  -- both ids are reached from the site of the list
  have hbelow : ∀ k, root.site? step [.key "spec", .key "resources", .index k, .key "id"] =
      list.descend? step [.index k, .key "id"] := by
    intro k
    exact site?_append hlist [.index k, .key "id"]
  have hfirst : (list.descend? step [.index j, .key "id"]).map Site.value = some (.scalar id) := by
    rw [Site.descend?_map_value, hvalue, at?, child?, hother, Option.bind_some, at?, hid]
    rfl
  obtain ⟨first, hfirst, hfirstValue⟩ := Option.map_eq_some_iff.1 hfirst
  refine ⟨j, hji, first, (hbelow j).trans hfirst, hfirstValue, ?_⟩
  have hwell : list.value.isWellFormed = true :=
    Site.value_isWellFormed_of_descend? hlist h.isWellFormed
  have hrepeat : list.descend? step [.index i, .key "id"] = some site := (hbelow i).symm.trans hsite
  obtain ⟨u, hu, hfirst⟩ := Option.bind_eq_some_iff.1 hfirst
  obtain ⟨w, hw, hrepeat⟩ := Option.bind_eq_some_iff.1 hrepeat
  obtain ⟨k, hk, hfirstLine⟩ := Site.line_of_descend? (by simp) hfirst
    (Site.value_isWellFormed_of_child? hu hwell)
  obtain ⟨k', -, hsiteLine⟩ := Site.line_of_descend? (by simp) hrepeat
    (Site.value_isWellFormed_of_child? hw hwell)
  -- the first one stands among the rows of its item, which end before the later item begins
  have hlines := Site.lines_le_of_child?_index hji hu hw
  omega

/-! ## Findings on the parts -/

theorem resourceId?_node {b : Block} (hb : b.isWellFormed = true) {id : String}
    (h : resourceId? b.node = some id) : b.child? (.key "id") = some (.scalar id) := by
  obtain ⟨value, hpresent, htext⟩ := Option.bind_eq_some_iff.1 h
  rw [present?_node hb] at hpresent
  obtain ⟨part, hpart, rfl⟩ := Option.map_eq_some_iff.1 hpresent
  cases part with
  | scalar text =>
    obtain rfl : text = id := Option.some.inj htext
    exact hpart
  | mapping entries => simp [node, Node.scalarText?] at htext
  | list deeper items => simp [node, Node.scalarText?] at htext

/-- Every finding on a field covers its printed type. -/
theorem onField_placed (h : v.Reads step root) {f : Field} (hf : f ∈ root.node.fields)
    {d : Diagnostic} (hd : d ∈ v.onField f) :
    ∃ path, f.path.segments = .key "spec" :: path ++ [.key f.name] ∧
      root.CoversScalar step (.key "spec" :: path) f.name f.type d.range := by
  obtain ⟨path, hpath, hat⟩ := of_mem_fields h.isWellFormed hf
  refine ⟨path, hpath, ?_⟩
  have hsegments : f.path = ⟨.key "spec" :: path ++ [.key f.name]⟩ := by
    rw [← List.cons_append] at hpath
    rw [← hpath]
  rw [hpath] at hat
  rw [(of_mem_onField hd).2, hsegments]
  exact h.coversScalar path hat f.type

/-- Every finding on a resource stands on the text it is about. -/
theorem onResource_placed (h : v.Reads step root) {r : Resource} (hr : r ∈ root.node.resources)
    {d : Diagnostic} (hd : d ∈ v.onResource r) : r.Places step root d := by
  obtain ⟨deeper, items, item, hat, hitem, hnode, hearlier⟩ := of_mem_resources h.isWellFormed hr
  have hresource : root.at? [.key "spec", .key "resources", .index r.index] = some item := by
    rw [← hitem]
    exact at?_concat hat (.index r.index)
  have hwell : item.isWellFormed = true := isWellFormed_of_at? hresource h.isWellFormed
  have hpart : ∀ key, root.at? [.key "spec", .key "resources", .index r.index, .key key] =
      item.child? (.key key) := by
    intro key
    exact at?_concat hresource (.key key)
  unfold Resource.Places
  -- a missing id or type, a repeated id, or properties that are no mapping
  rcases of_mem_onResource hd with ⟨hcode, hrange⟩ | ⟨hcode, id, hid, hrepeated, hrange⟩ |
    ⟨hcode, hproperties, hrange⟩
  · have hmarker := h.pointsAtMarker [.key "resources"] hresource
    rw [hrange]
    rcases hcode with hcode | hcode
    · rw [hcode]
      exact hmarker
    · rw [hcode]
      exact hmarker
  · -- the id of the resource is printed, and an earlier item has the same one
    rw [hnode] at hrepeated
    have hcovers := h.coversScalar [.key "resources", .index r.index]
      ((hpart "id").trans (resourceId?_node hwell hrepeated)) id
    obtain ⟨j, hj, other, hother, hotherId⟩ := hearlier id hid
    have hotherAt : root.at? [.key "spec", .key "resources", .index j] = some other := by
      rw [← hother]
      exact at?_concat hat (.index j)
    have hotherWell : other.isWellFormed = true := isWellFormed_of_at? hotherAt h.isWellFormed
    rw [hcode, hrange]
    exact ⟨id, hcovers, h.repeatsId hat hj hother (resourceId?_node hotherWell hotherId) hcovers⟩
  · rw [hnode, present?_node hwell, Option.isSome_map] at hproperties
    obtain ⟨part, hchild⟩ := Option.isSome_iff_exists.1 hproperties
    rw [hcode, hrange]
    exact h.pointsAfterColon [.key "resources", .index r.index] ((hpart "properties").trans hchild)

end Validator.Reads

/-! ## All findings -/

namespace Validator

variable {v : Validator} {tree : Node}

theorem isPlaced_onField {f : Field} {d : Diagnostic} (hd : d ∈ v.onField f) :
    d.code.isPlaced = true := by
  rcases (of_mem_onField hd).1 with hcode | hcode | hcode <;> rw [hcode] <;> rfl

theorem isPlaced_onResource {r : Resource} {d : Diagnostic} (hd : d ∈ v.onResource r) :
    d.code.isPlaced = true := by
  rcases of_mem_onResource hd with ⟨hcode | hcode, -⟩ | ⟨hcode, -⟩ | ⟨hcode, -⟩ <;>
    rw [hcode] <;> rfl

theorem filter_isPlaced_headerFindings :
    (v.headerFindings tree).filter (fun d => d.code.isPlaced) = [] := by
  rw [List.filter_eq_nil_iff]
  intro d hd
  have hheader := (of_mem_headerFindings hd).1
  cases hcode : d.code <;> rw [hcode] at hheader <;> simp_all [DiagnosticCode.isHeader,
    DiagnosticCode.isPlaced]

theorem filter_isPlaced_metadataFindings :
    (v.metadataFindings tree).filter (fun d => d.code.isPlaced) = [] := by
  rw [metadataFindings]
  split
  · rfl
  · split <;> rfl

theorem filter_isPlaced_specFindings :
    (v.specFindings tree).filter (fun d => d.code.isPlaced) =
      tree.fields.flatMap v.onField ++ tree.resources.flatMap v.onResource := by
  have hfields : (tree.fields.flatMap v.onField).filter (fun d => d.code.isPlaced) =
      tree.fields.flatMap v.onField := by
    rw [List.filter_eq_self]
    intro d hd
    obtain ⟨f, -, hd⟩ := List.mem_flatMap.1 hd
    exact isPlaced_onField hd
  have hresources : (tree.resources.flatMap v.onResource).filter (fun d => d.code.isPlaced) =
      tree.resources.flatMap v.onResource := by
    rw [List.filter_eq_self]
    intro d hd
    obtain ⟨r, -, hd⟩ := List.mem_flatMap.1 hd
    exact isPlaced_onResource hd
  -- the findings of a missing spec and of resources that are no sequence are not placed
  cases hspec : tree.present? "spec" with
  | none =>
    rw [specFindings, Node.fields, Node.resources, hspec]
    rfl
  | some spec =>
    rw [specFindings_eq hspec, List.filter_append, hfields]
    congr 1
    cases hpart : spec.present? "resources" with
    | none =>
      rw [presentFindings, Node.resources, hspec, Option.bind_some, hpart]
      rfl
    | some part =>
      cases part with
      | sequence items => rw [resourcesFindings_eq hspec hpart, hresources]
      | _ =>
        rw [presentFindings, Node.resources, hspec, Option.bind_some, hpart]
        rfl

/-- The findings on fields and resources are, in order, those on each field and each resource,
unless the header has a fault. -/
theorem filter_isPlaced_findings (v : Validator) (tree : Node) :
    (v.findings tree).filter (fun d => d.code.isPlaced) =
      if v.headerFindings tree = [] then
        tree.fields.flatMap v.onField ++ tree.resources.flatMap v.onResource
      else [] := by
  cases hheader : v.headerFindings tree with
  | nil =>
    rw [if_pos rfl, findings, hheader]
    show (v.metadataFindings tree ++ v.specFindings tree).filter _ = _
    rw [List.filter_append, filter_isPlaced_metadataFindings, filter_isPlaced_specFindings,
      List.nil_append]
  | cons d ds =>
    rw [if_neg (by simp), findings, hheader]
    show (d :: ds).filter _ = _
    rw [← hheader, filter_isPlaced_headerFindings]

/-- Findings that are picked out among those on fields and resources are picked out of the findings
on each field and each resource. -/
theorem filter_findings_of_isPlaced {p : Diagnostic → Bool}
    (hp : ∀ d, p d = true → d.code.isPlaced = true) (hheader : v.headerFindings tree = []) :
    (v.findings tree).filter p =
      (tree.fields.flatMap v.onField).filter p ++ (tree.resources.flatMap v.onResource).filter p := by
  have hplaced : ((v.findings tree).filter fun d => d.code.isPlaced).filter p =
      (v.findings tree).filter p := by
    rw [List.filter_filter]
    apply List.filter_congr
    intro d _
    cases hd : p d with
    | false => rfl
    | true => rw [hp d hd, Bool.and_self]
  rw [← hplaced, filter_isPlaced_findings, if_pos hheader, List.filter_append]

/-- The validator that follows the indentation of a text. -/
def ofText (settings : Settings) (text : String) : Validator :=
  ⟨settings, .indentation, Source.ofString text⟩

theorem lines_ofText (settings : Settings) {text : String} {lines : List Line}
    (h : splitLines text.toList = lines) : (ofText settings text).source.lines = lines := h

end Validator

/-- The findings on a text are those on a source with its lines, so that the text need not be cut to
evaluate them. -/
theorem validateWith_eq (settings : Settings) (resolver : Resolver) (tree : Node) {text : String}
    {lines : List Line} (h : lines = splitLines text.toList) :
    validateWith settings resolver tree text =
      (Validator.mk settings resolver ⟨text, lines, Entry.ofLines 0 lines, h, rfl⟩).findings
        tree := by
  subst h
  rfl

open Validator

/-- **Findings stand on the text they are about.** On a printed document, in which no line above the
spec is written with its key, the findings on fields and resources are those on each of them in
order. Each finding on a field covers the type that is printed for this field. A finding on a
resource points at the marker of this resource, after the colon of its properties, or covers its
repeated id, which an earlier resource has on an earlier line. -/
theorem validate_placed (settings : Settings) {step : Nat} {root : Block} {text : String}
    (hstep : 0 < step) (hroot : root.isWellFormed = true)
    (hlines : splitLines text.toList = root.lines step)
    (hnew : root.isNewKey step "spec" = true) :
    (validate settings root.node text).filter (fun d => d.code.isPlaced) =
        (if (ofText settings text).headerFindings root.node = [] then
          root.node.fields.flatMap (ofText settings text).onField ++
            root.node.resources.flatMap (ofText settings text).onResource
        else []) ∧
      (∀ f ∈ root.node.fields, ∀ d ∈ (ofText settings text).onField f,
        ∃ path, f.path.segments = .key "spec" :: path ++ [.key f.name] ∧
          root.CoversScalar step (.key "spec" :: path) f.name f.type d.range) ∧
      ∀ r ∈ root.node.resources, ∀ d ∈ (ofText settings text).onResource r,
        r.Places step root d := by
  have h : (ofText settings text).Reads step root := ⟨hstep, hroot, rfl, hlines, hnew⟩
  refine ⟨filter_isPlaced_findings (ofText settings text) root.node, ?_, ?_⟩
  · intro f hf d hd
    exact h.onField_placed hf hd
  · intro r hr d hd
    exact h.onResource_placed hr hd

namespace Block

/-- A document with a field type that is not valid and a modifier without a meaning in groups of the
same names, a repeated id, and a resource without id and type. -/
def faultyDocument : Block :=
  .mapping [
    ("apiVersion", .scalar "kro.run/v1alpha1"), ("kind", .scalar "ResourceGraphDefinition"),
    ("metadata", .mapping [("name", .scalar "web")]),
    ("spec", .mapping [
      ("schema", .mapping [
        ("spec", .mapping [
          ("resources", .mapping [("id", .scalar "strin")]),
          ("id", .mapping [("id", .scalar "string | id=a")])])]),
      ("resources", .list false [
        .mapping [("id", .scalar "a"), ("type", .scalar "t"), ("list", .list true [.scalar "id"])],
        .mapping [("template", .scalar "x")],
        .mapping [("type", .scalar "t"), ("id", .scalar "a"), ("properties", .scalar "y")]])])]

end Block

theorem validate_placed_faultyDocument :
    (0 < 2 ∧ Block.faultyDocument.isWellFormed = true ∧
      splitLines (Block.faultyDocument.text 2).toList = Block.faultyDocument.lines 2 ∧
      Block.faultyDocument.isNewKey 2 "spec" = true) ∧
    ((validate .standard Block.faultyDocument.node (Block.faultyDocument.text 2)).filter
        (fun d => d.code.isPlaced)).map Diagnostic.code =
      [.invalidTypeDefinition, .unknownModifier, .missingResourceId, .missingResourceType,
        .duplicateResourceId, .invalidResourceProperties] ∧
    (∀ f ∈ Block.faultyDocument.node.fields,
      ∀ d ∈ (ofText .standard (Block.faultyDocument.text 2)).onField f,
        ∃ path, f.path.segments = .key "spec" :: path ++ [.key f.name] ∧
          Block.faultyDocument.CoversScalar 2 (.key "spec" :: path) f.name f.type d.range) ∧
    ∀ r ∈ Block.faultyDocument.node.resources,
      ∀ d ∈ (ofText .standard (Block.faultyDocument.text 2)).onResource r,
        r.Places 2 Block.faultyDocument d := by
  have hroot : Block.faultyDocument.isWellFormed = true := by decide +kernel
  have hlines : splitLines (Block.faultyDocument.text 2).toList = Block.faultyDocument.lines 2 :=
    Block.splitLines_text hroot
  have hnew : Block.faultyDocument.isNewKey 2 "spec" = true := by decide +kernel
  have hsource := lines_ofText .standard hlines
  -- only the printed lines are evaluated, and not the text that holds them
  have hheader : (ofText .standard (Block.faultyDocument.text 2)).headerFindings
      Block.faultyDocument.node = [] := by
    rw [headerFindings, kindFindings, Source.isEmpty, Source.lineCount, lineStartsWith,
      lineStartsWith, Source.line?, Source.line?, hsource]
    decide +kernel
  obtain ⟨hfindings, hfields, hresources⟩ :=
    validate_placed .standard (by decide) hroot hlines hnew
  refine ⟨⟨by decide, hroot, hlines, hnew⟩, ?_, hfields, hresources⟩
  rw [hfindings, if_pos hheader]
  decide +kernel

end ResourceGraph

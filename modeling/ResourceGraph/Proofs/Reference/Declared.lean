import ResourceGraph.Proofs.Reference.Search
import ResourceGraph.Proofs.Resolver.Missing
import ResourceGraph.Reference

/-!
# References to what is declared

A reference into a printed document points to what the document itself declares (`IsDeclared`): a
field of its schema, the id of one of its resources, or a field of the very resource with that id or
of its template. Links point where their expressions do.

That holds of the documents in which the schema, or the resources, that the reference begins at
stand only at the root (`Block.LeadsOnlyFromRoot`). The search for a path begins anew wherever it
leaves a block, at any depth, so a second `spec.resources` in a template may give the id, or the
field, of something else. What is found in any document is told by `exists_declares_of_find`, with
the places of both as arguments of `Declares`.

`Block.listsResources` and `isUnmarked` leave out the trees and the references that the search for
a path may misread.
-/

set_option autoImplicit false

namespace ResourceGraph

open Text Block

/-- Whether the value of a `spec.resources`, wherever one stands in a tree, is a list or holds no
list items. -/
def Block.listsResources (root : Block) : Bool :=
  root.parts.all fun part =>
    (part.at? [.key "spec", .key "resources"]).all fun value =>
      value.isList || value.itemCount == 0

namespace Block

/-- What is printed below a path that leads from the root alone is printed below the root. -/
theorem LeadsOnlyFromRoot.eq_nil {root : Block} {path : List Segment}
    (h : root.LeadsOnlyFromRoot path) {step : Nat} {place : List Segment} (rest : List Segment)
    {t : Site} (ht : root.site? step (place ++ path ++ rest) = some t) : place = [] := by
  by_contra hplace
  have hvalue := site?_map_value step root (place ++ path ++ rest)
  rw [ht, at?_append, h place hplace] at hvalue
  exact absurd hvalue (Option.some_ne_none t.value)

/-- Where a path of keys breaks off, at a key, the search notices. -/
theorem noticesAbsence_keys (root : Block) {keys : List String}
    (hkeys : ∀ key ∈ keys, key.toList.head? ≠ some '-') :
    root.noticesAbsence (keys.map .key) = true := by
  apply noticesAbsence_iff.2
  constructor
  · intro segment hsegment
    obtain ⟨key, hkey, rfl⟩ := List.mem_map.1 hsegment
    simpa [Segment.isUnmarked] using hkeys key hkey
  · intro part _
    exact noticesMiss_map_key 0 keys part

/-- Where the index of a resource is missing, the resources are a list or hold no items at all. -/
theorem noticesMiss_resource {root part : Block} (hroot : root.listsResources = true)
    (hpart : part ∈ root.parts) (i : Nat) (keys : List String) :
    part.noticesMiss 0
      (.key "spec" :: .key "resources" :: .index i :: keys.map .key) = true := by
  rw [listsResources, List.all_eq_true] at hroot
  have hresources := hroot part hpart
  -- before the resources the path breaks off at a key, and after their index at a key again
  rw [at?] at hresources
  rw [noticesMiss]
  cases hspec : part.child? (.key "spec") with
  | none => rfl
  | some spec =>
    rw [hspec, Option.bind_some, at?] at hresources
    show spec.noticesMiss 0 (.key "resources" :: .index i :: keys.map .key) = true
    rw [noticesMiss]
    cases hlist : spec.child? (.key "resources") with
    | none => rfl
    | some value =>
      rw [hlist, Option.bind_some, at?, Option.all_some] at hresources
      show value.noticesMiss 0 (.index i :: keys.map .key) = true
      rw [noticesMiss]
      cases value.child? (.index i) with
      | some item => exact noticesMiss_map_key _ keys item
      | none =>
        rcases Bool.or_eq_true_iff.1 hresources with hself | hnone
        · simp [noticesSegment, hself]
        · have hfew : value.itemCount ≤ i := by
            rw [beq_iff_eq.1 hnone]
            exact Nat.zero_le i
          simp [noticesSegment, hfew]

theorem noticesAbsence_resource {root : Block} (hroot : root.listsResources = true) (i : Nat)
    {keys : List String} (hkeys : ∀ key ∈ keys, key.toList.head? ≠ some '-') :
    root.noticesAbsence (.key "spec" :: .key "resources" :: .index i :: keys.map .key) = true := by
  obtain ⟨hunmarked, -⟩ := noticesAbsence_iff.1 (noticesAbsence_keys root hkeys)
  apply noticesAbsence_iff.2
  constructor
  · intro segment hsegment
    simp only [List.mem_cons] at hsegment
    rcases hsegment with rfl | rfl | rfl | hsegment
    · rfl
    · rfl
    · rfl
    · exact hunmarked segment hsegment
  · intro part hpart
    exact noticesMiss_resource hroot hpart i keys

/-- From the position of a collection below its key the source reads nothing. -/
theorem valueAt?_of_collection {step : Nat} {root : Block} (hroot : root.isWellFormed = true)
    {s : Source} (hs : s.lines = root.lines step) {path : List Segment} {key : String} {t : Site}
    (h : root.site? step (path ++ [.key key]) = some t) (ht : ∀ text, t.value ≠ .scalar text) :
    s.valueAt? t.position = some (t.position.advance 0, []) := by
  obtain ⟨left, right, hline, hcolumn, -, hright⟩ := exists_line_of_site? hroot h
  have hempty : right = [] := by
    rw [hright]
    cases hvalue : t.value with
    | scalar text => exact absurd hvalue (ht text)
    | mapping _ | list _ _ => rfl
  have hrest : fromColumn t.position.character (left ++ right) = [] := by
    rw [← hcolumn, fromColumn_units, hempty]
  rw [Source.valueAt?, Source.line?, hs, hline, Option.map_some, hrest]
  rfl

end Block

namespace Reference

/-- Whether, of the resources of the part at a place of a printed tree, the one with an index has an
id, and where the id is written. -/
def HasId (step : Nat) (root : Block) (place : List Segment) (i : Nat) (id : List Char)
    (p : Position) : Prop :=
  ∃ t text,
    root.site? step (place ++ [.key "spec", .key "resources", .index i, .key "id"]) = some t ∧
      t.value = .scalar text ∧ unquote text.toList = id ∧ p = t.position.advance 1

/-- Where a printed tree declares what a reference names by its first segment and the keys after it:
a field of the schema, the id of a resource, or a field of the resource with the index of the id or
of its template. The id is read in the part at one place and the field in the part at another. -/
inductive Declares (step : Nat) (root : Block) (home place : List Segment) (keys : List String) :
    List Char → Position → Prop
  | schema {t : Site} :
      root.site? step (place ++ .key "spec" :: .key "schema" :: keys.map .key) = some t →
      Declares step root home place keys schemaRoot t.position
  | id {i : Nat} {id : List Char} {p : Position} :
      id ≠ schemaRoot → HasId step root home i id p → Declares step root home place keys id p
  | field {i : Nat} {id : List Char} {p : Position} {t : Site} :
      id ≠ schemaRoot → HasId step root home i id p →
      root.site? step
        (place ++ .key "spec" :: .key "resources" :: .index i :: keys.map .key) = some t →
      Declares step root home place keys id t.position
  | templateField {i : Nat} {id : List Char} {p : Position} {t : Site} :
      id ≠ schemaRoot → HasId step root home i id p →
      root.site? step
        (place ++ .key "spec" :: .key "resources" :: .index i :: .key "template" ::
          keys.map .key) = some t →
      Declares step root home place keys id t.position

/-- The segments of the path of a reference. -/
def segments (path : List Char) : List (List Char) := (splitOn '.' path).map trim

/-- Whether no segment of a reference after the first begins with a dash. -/
def isUnmarked (path : List Char) : Bool :=
  (segments path).tail.all fun segment => segment.head? != some '-'

/-- The section of the spec that a reference with a first segment begins at. -/
def sectionOf (name : List Char) : List Segment :=
  [.key "spec", .key (if name = schemaRoot then "schema" else "resources")]

/-- Whether a printed tree declares at a position what the path of a reference names, with the id and
the field in the parts at two places. -/
def DeclaresAt (step : Nat) (root : Block) (home place : List Segment) (path : List Char)
    (p : Position) : Prop :=
  ∃ name rest, segments path = name :: rest ∧
    Declares step root home place (rest.map String.ofList) name p

/-- Whether a printed document itself declares at a position what the path of a reference names. -/
def IsDeclared (step : Nat) (root : Block) (path : List Char) (p : Position) : Prop :=
  DeclaresAt step root [] [] path p

/-- Whether the section that a reference begins at is one of the root alone. -/
def KeepsToRoot (root : Block) (path : List Char) : Prop :=
  ∀ name ∈ (segments path).head?, root.LeadsOnlyFromRoot (sectionOf name)

theorem HasId.eq_nil {step : Nat} {root : Block} {place : List Segment} {i : Nat} {id : List Char}
    {p : Position} (h : HasId step root place i id p)
    (honly : root.LeadsOnlyFromRoot [.key "spec", .key "resources"]) : place = [] := by
  obtain ⟨t, -, ht, -⟩ := h
  apply honly.eq_nil [.index i, .key "id"]
  rw [List.append_assoc]
  exact ht

/-- Where the section stands at the root alone, so does what declares a name. -/
theorem Declares.atRoot {step : Nat} {root : Block} {home place : List Segment}
    {keys : List String} {name : List Char} {p : Position}
    (h : Declares step root home place keys name p)
    (honly : root.LeadsOnlyFromRoot (sectionOf name)) : Declares step root [] [] keys name p := by
  cases h with
  | schema ht =>
    have hsection : sectionOf schemaRoot = [.key "spec", .key "schema"] := by decide
    rw [hsection] at honly
    obtain rfl := honly.eq_nil (keys.map .key) (by rw [List.append_assoc]; exact ht)
    exact Declares.schema ht
  | id hname hid =>
    rw [sectionOf, if_neg hname] at honly
    obtain rfl := hid.eq_nil honly
    exact Declares.id hname hid
  | @field i _ _ _ hname hid ht =>
    rw [sectionOf, if_neg hname] at honly
    obtain rfl := hid.eq_nil honly
    obtain rfl := honly.eq_nil (.index i :: keys.map .key)
      (by rw [List.append_assoc]; exact ht)
    exact Declares.field hname hid ht
  | @templateField i _ _ _ hname hid ht =>
    rw [sectionOf, if_neg hname] at honly
    obtain rfl := hid.eq_nil honly
    obtain rfl := honly.eq_nil (.index i :: .key "template" :: keys.map .key)
      (by rw [List.append_assoc]; exact ht)
    exact Declares.templateField hname hid ht

section Printed

variable {step : Nat} {root : Block} (hstep : 0 < step) (hroot : root.isWellFormed = true)
  (hlist : root.isList = false) (hresources : root.listsResources = true) {s : Source}
  (hlines : s.lines = root.lines step)
include hstep hroot hlist hlines

theorem exists_declares_of_schema {keys : List String} {target : Position}
    (hkeys : ∀ key ∈ keys, key.toList.head? ≠ some '-')
    (h : locate? s.entries ((⟨[.key "spec", .key "schema"]⟩ : Path).descend keys) = some target) :
    ∃ place, Declares step root [] place keys schemaRoot target := by
  have hpath : ∀ key ∈ "spec" :: "schema" :: keys, key.toList.head? ≠ some '-' := by
    intro key hkey
    simp only [List.mem_cons] at hkey
    rcases hkey with rfl | rfl | hkey
    · decide
    · decide
    · exact hkeys key hkey
  obtain ⟨before, t, ht, rfl⟩ := exists_site_of_locate? hstep hroot hlist
    (noticesAbsence_keys root hpath) hlines h
  exact ⟨before, Declares.schema ht⟩

include hresources

/-- The id of a resource is read where it is written. -/
theorem exists_hasId_of_idOf? {i : Nat} {p : Position} {id : List Char} (hid : id ≠ [])
    (h : idOf? s i = some (p, id)) : ∃ home, HasId step root home i id p := by
  obtain ⟨after, hafter, h⟩ := Option.bind_eq_some_iff.1 h
  obtain ⟨⟨q, value⟩, hvalue, h⟩ := Option.bind_eq_some_iff.1 h
  obtain ⟨rfl, rfl⟩ := Prod.mk.inj (Option.some.inj h)
  -- the position that is read from is that of the id of an item, in the resources of some part
  have hunmarked : ∀ key ∈ ["id"], key.toList.head? ≠ some '-' := by decide
  obtain ⟨before, t, ht, rfl⟩ := exists_site_of_locate? hstep hroot hlist
    (noticesAbsence_resource hresources i hunmarked) hlines hafter
  have hsplit : before ++ [Segment.key "spec", .key "resources", .index i, .key "id"] =
      (before ++ [.key "spec", .key "resources", .index i]) ++ [.key "id"] := by
    rw [List.append_assoc]
    rfl
  have hsite : root.site? step
      ((before ++ [.key "spec", .key "resources", .index i]) ++ [.key "id"]) = some t := by
    rw [← hsplit]
    exact ht
  cases htext : t.value with
  | scalar text =>
    rw [Source.valueAt?_of_site? hroot hlines hsite htext, Option.some.injEq,
      Prod.mk.injEq] at hvalue
    obtain ⟨rfl, rfl⟩ := hvalue
    exact ⟨before, t, text, ht, htext, rfl, rfl⟩
  | mapping _ | list _ _ =>
    -- nothing is written behind the key of a collection
    rw [valueAt?_of_collection hroot hlines hsite (by simp [htext]), Option.some.injEq,
      Prod.mk.injEq] at hvalue
    obtain ⟨-, rfl⟩ := hvalue
    exact absurd rfl hid

theorem exists_hasId_of_searchResource {n first i : Nat} {id : List Char} {p : Position}
    (hid : id ≠ []) (h : searchResource s id n first = some (i, p)) :
    ∃ home, HasId step root home i id p := by
  obtain ⟨-, hread, -⟩ := searchResource_sound h
  exact exists_hasId_of_idOf? hstep hroot hlist hresources hlines hid hread

theorem exists_declares_of_inResource {i : Nat} {id : List Char} {keys : List String}
    {home : List Segment} {p target : Position}
    (hkeys : ∀ key ∈ keys, key.toList.head? ≠ some '-') (hname : id ≠ schemaRoot)
    (hid : HasId step root home i id p) (h : inResource s i keys = some target) :
    ∃ place, Declares step root home place keys id target := by
  rcases Option.or_eq_some_iff.1 h with hfield | ⟨-, hfield⟩
  · obtain ⟨before, t, ht, rfl⟩ := exists_site_of_locate? hstep hroot hlist
      (noticesAbsence_resource hresources i hkeys) hlines hfield
    exact ⟨before, Declares.field hname hid ht⟩
  · have htemplate : ∀ key ∈ "template" :: keys, key.toList.head? ≠ some '-' := by
      intro key hkey
      rcases List.mem_cons.1 hkey with rfl | hkey
      · decide
      · exact hkeys key hkey
    obtain ⟨before, t, ht, rfl⟩ := exists_site_of_locate? hstep hroot hlist
      (noticesAbsence_resource hresources i htemplate) hlines hfield
    exact ⟨before, Declares.templateField hname hid ht⟩

theorem exists_declares_of_findSegments {name : List Char} {rest : List (List Char)} {target : Position}
    (hrest : ∀ segment ∈ rest, segment.head? ≠ some '-')
    (h : findSegments s (name :: rest) = some target) :
    ∃ home place, Declares step root home place (rest.map String.ofList) name target := by
  have hkeys : ∀ key ∈ rest.map String.ofList, key.toList.head? ≠ some '-' := by
    intro key hkey
    obtain ⟨segment, hsegment, rfl⟩ := List.mem_map.1 hkey
    rw [String.toList_ofList]
    exact hrest segment hsegment
  rw [findSegments] at h
  split at h
  · exact absurd h.symm (Option.some_ne_none _)
  · rename_i hempty
    have hname : name ≠ [] := by
      rintro rfl
      exact hempty rfl
    by_cases hschema : name = schemaRoot
    · rw [hschema] at h ⊢
      exact ⟨[], exists_declares_of_schema hstep hroot hlist hlines hkeys h⟩
    · simp only [if_neg hschema] at h
      split at h
      · exact absurd h.symm (Option.some_ne_none _)
      · rename_i i p hresource
        obtain ⟨home, hid⟩ : ∃ home, HasId step root home i name p :=
          exists_hasId_of_searchResource hstep hroot hlist hresources hlines hname hresource
        refine ⟨home, ?_⟩
        split at h
        · obtain rfl := Option.some.inj h
          exact ⟨home, Declares.id hschema hid⟩
        · -- a field that is written down, or else the id
          rcases Option.or_eq_some_iff.1 h with hfield | ⟨-, hfield⟩
          · exact exists_declares_of_inResource hstep hroot hlist hresources hlines hkeys hschema
              hid hfield
          · obtain rfl := Option.some.inj hfield
            exact ⟨home, Declares.id hschema hid⟩

/-- **Whatever a reference into a printed document points to is declared in some parts of it.** -/
theorem exists_declares_of_find {path : List Char} {target : Position}
    (hpath : isUnmarked path = true) (h : find s path = some target) :
    ∃ home place, DeclaresAt step root home place path target := by
  have hfind : findSegments s (segments path) = some target := h
  cases hsegments : segments path with
  | nil =>
    rw [hsegments, findSegments] at hfind
    exact absurd hfind.symm (Option.some_ne_none target)
  | cons name rest =>
    rw [isUnmarked, hsegments, List.tail_cons, List.all_eq_true] at hpath
    rw [hsegments] at hfind
    have hrest : ∀ segment ∈ rest, segment.head? ≠ some '-' := by
      intro segment hsegment
      simpa using hpath segment hsegment
    obtain ⟨home, place, hdeclares⟩ :=
      exists_declares_of_findSegments hstep hroot hlist hresources hlines hrest hfind
    exact ⟨home, place, name, rest, hsegments, hdeclares⟩

/-- A reference whose section is one of the root alone points to what the document declares. -/
theorem isDeclared_of_find {path : List Char} {target : Position} (hpath : isUnmarked path = true)
    (honly : KeepsToRoot root path) (h : find s path = some target) :
    IsDeclared step root path target := by
  obtain ⟨home, place, name, rest, hsegments, hdeclares⟩ :=
    exists_declares_of_find hstep hroot hlist hresources hlines hpath h
  have hname : root.LeadsOnlyFromRoot (sectionOf name) := honly name (by rw [hsegments]; rfl)
  exact ⟨name, rest, hsegments, hdeclares.atRoot hname⟩

end Printed

/-- A link covers an expression and points where the path of the expression does. -/
theorem find_of_mem_links {s : Source} {l : DocumentLink} (hl : l ∈ s.links) :
    ∃ e ∈ s.expressions, l.range = e.range ∧ find s e.path.toList = some l.target := by
  obtain ⟨e, he, hmap⟩ := List.mem_filterMap.1 hl
  obtain ⟨target, htarget, rfl⟩ := Option.map_eq_some_iff.1 hmap
  exact ⟨e, he, rfl, htarget⟩

/-- **What a printed document lacks is not found.** A path that the tree lacks, and that leads
nowhere from its parts either, resolves to the end of the document. A reference whose section is one
of the root alone, and so a link, points only to what the document itself declares, and any other to
what some parts of it declare. Left out are the paths, references and trees for which the search may
misread a key as one with a marker, or an index as one of another list. -/
theorem position_absent_find_declared {step : Nat} {root : Block} {text : String}
    (hstep : 0 < step) (hroot : root.isWellFormed = true) (hlist : root.isList = false)
    (hlines : splitLines text.toList = root.lines step) :
    (∀ path, root.noticesAbsence path = true → root.LeadsOnlyFromRoot path →
      root.at? path = none →
      Resolver.indentation.position (Source.ofString text) ⟨path⟩ =
        (Source.ofString text).endPosition) ∧
      (root.listsResources = true →
        (∀ path target, isUnmarked path = true →
          find (Source.ofString text) path = some target →
          (KeepsToRoot root path → IsDeclared step root path target) ∧
            ∃ home place, DeclaresAt step root home place path target) ∧
        ∀ l ∈ (Source.ofString text).links, ∃ e ∈ (Source.ofString text).expressions,
          l.range = e.range ∧ find (Source.ofString text) e.path.toList = some l.target ∧
            (isUnmarked e.path.toList = true → KeepsToRoot root e.path.toList →
              IsDeclared step root e.path.toList l.target)) := by
  have hsource := Source.lines_ofString hlines
  refine ⟨?_, ?_⟩
  · intro path hnotices honly habsent
    apply Resolver.position_eq_endPosition hstep hroot hlist hnotices hsource
    intro before
    by_cases hbefore : before = []
    · rw [hbefore]
      exact habsent
    · exact honly before hbefore
  · intro hresources
    refine ⟨?_, ?_⟩
    · intro path target hpath hfind
      constructor
      · intro honly
        exact isDeclared_of_find hstep hroot hlist hresources hsource hpath honly hfind
      · exact exists_declares_of_find hstep hroot hlist hresources hsource hpath hfind
    · intro l hl
      obtain ⟨e, he, hrange, hfind⟩ := find_of_mem_links hl
      refine ⟨e, he, hrange, hfind, ?_⟩
      intro hpath honly
      exact isDeclared_of_find hstep hroot hlist hresources hsource hpath honly hfind

/-- A document in which the schema and the resources stand only at the root. -/
def singleSections : Block :=
  .mapping [("spec", .mapping [
    ("schema", .mapping [("size", .scalar "integer")]),
    ("resources", .list true [
      .mapping [("id", .scalar "app"), ("port", .scalar "1")],
      .mapping [("id", .scalar "db"), ("template", .mapping [("spec", .mapping [
        ("port", .scalar "2")])])]])])]

theorem position_absent_find_declared_singleSections :
    (0 < 2 ∧ singleSections.isWellFormed = true ∧ singleSections.isList = false ∧
      splitLines (singleSections.text 2).toList = singleSections.lines 2) ∧
    (singleSections.noticesAbsence [.key "spec", .key "schema", .key "port"] = true ∧
      singleSections.LeadsOnlyFromRoot [.key "spec", .key "schema", .key "port"] ∧
      singleSections.at? [.key "spec", .key "schema", .key "port"] = none ∧
      Resolver.indentation.position (Source.ofString (singleSections.text 2))
        ⟨[.key "spec", .key "schema", .key "port"]⟩ =
          (Source.ofString (singleSections.text 2)).endPosition) ∧
    (singleSections.listsResources = true ∧ isUnmarked "db.spec.port".toList = true ∧
      KeepsToRoot singleSections "db.spec.port".toList ∧
      find (Source.ofString (singleSections.text 2)) "db.spec.port".toList = some ⟨9, 15⟩ ∧
      IsDeclared 2 singleSections "db.spec.port".toList ⟨9, 15⟩) := by
  have hroot : singleSections.isWellFormed = true := by decide
  have hlines : splitLines (singleSections.text 2).toList = singleSections.lines 2 :=
    splitLines_text hroot
  obtain ⟨hposition, hdeclared⟩ :=
    position_absent_find_declared (by decide) hroot (by decide) hlines
  have hnotices :
      singleSections.noticesAbsence [.key "spec", .key "schema", .key "port"] = true := by
    decide
  have honlyPath :
      singleSections.LeadsOnlyFromRoot [.key "spec", .key "schema", .key "port"] :=
    leadsOnlyFromRoot_of_parts (by decide)
  have habsent : singleSections.at? [.key "spec", .key "schema", .key "port"] = none := by decide
  have hresources : singleSections.listsResources = true := by decide
  have hpath : isUnmarked "db.spec.port".toList = true := by decide
  have hsegments : segments "db.spec.port".toList =
      ["db".toList, "spec".toList, "port".toList] := by decide
  have honly : KeepsToRoot singleSections "db.spec.port".toList := by
    intro name hname
    rw [hsegments] at hname
    obtain rfl := Option.some.inj hname
    exact leadsOnlyFromRoot_of_parts (by decide)
  have hfind : find (Source.ofString (singleSections.text 2)) "db.spec.port".toList =
      some ⟨9, 15⟩ := by decide +kernel
  exact ⟨⟨by decide, hroot, by decide, hlines⟩,
    ⟨hnotices, honlyPath, habsent, hposition _ hnotices honlyPath habsent⟩,
    ⟨hresources, hpath, honly, hfind, ((hdeclared hresources).1 _ _ hpath hfind).1 honly⟩⟩

/-! ## A section that stands a second time

The search begins anew at any depth where it leaves a block, so it takes up a second section in a
template, an item without a list above it, a key read off a marker, an item of a list further down,
and the next item in the place of one inside an item. A reference may then point to what the document
does not declare.
-/

/-- A document with a second `spec.schema` in the template of its first resource. -/
def nestedSchema : Block :=
  .mapping [("spec", .mapping [
    ("schema", .mapping [("name", .scalar "string")]),
    ("resources", .list true [
      .mapping [("id", .scalar "app"), ("template", .mapping [("spec", .mapping [
        ("schema", .mapping [("size", .scalar "big")])])])],
      .mapping [("id", .scalar "db")]])])]

theorem nestedSchema_absent_found :
    (Source.ofString (nestedSchema.text 2)).endPosition = ⟨10, 0⟩ ∧
      ∀ found ∈ [([.key "spec", .key "schema", .key "size"], (⟨8, 17⟩ : Position)),
          ([.index 0], ⟨4, 4⟩), ([.key "- id"], ⟨4, 9⟩), ([.key "spec", .index 0], ⟨4, 4⟩),
          ([.key "spec", .key "resources", .index 0, .index 0], ⟨9, 4⟩)],
        nestedSchema.at? found.1 = none ∧
          Resolver.indentation.position (Source.ofString (nestedSchema.text 2)) ⟨found.1⟩ =
            found.2 := by
  decide +kernel

/-- With a schema in a template, a reference points to a field that the document's own one lacks. -/
theorem find_nestedSchema_not_declared :
    find (Source.ofString (nestedSchema.text 2)) "schema.size".toList = some ⟨8, 17⟩ ∧
      ∀ p, ¬ IsDeclared 2 nestedSchema "schema.size".toList p := by
  constructor
  · decide +kernel
  · rintro p ⟨name, rest, hsegments, hdeclares⟩
    have hpath : segments "schema.size".toList = [schemaRoot, "size".toList] := by decide
    rw [hpath, List.cons.injEq] at hsegments
    obtain ⟨rfl, rfl⟩ := hsegments
    cases hdeclares with
    | schema ht =>
      have hnone : nestedSchema.site? 2 [.key "spec", .key "schema", .key "size"] = none := by
        decide
      exact absurd (hnone.symm.trans ht) (Option.some_ne_none _).symm
    | id hname _ | field hname _ _ | templateField hname _ _ => exact hname rfl

/-- A document whose resources have no id, with resources in the template of the second one. -/
def borrowedId : Block :=
  .mapping [("spec", .mapping [
    ("resources", .list true [
      .mapping [("type", .scalar "v1"), ("port", .scalar "1")],
      .mapping [("type", .scalar "v2"), ("template", .mapping [("spec", .mapping [
        ("resources", .list true [.mapping [("id", .scalar "db"), ("size", .scalar "2")]])])])]])])]

/-- With the id of a resource in a template, a reference points to a field of another resource. -/
theorem find_borrowedId_not_declared :
    find (Source.ofString (borrowedId.text 2)) "db.port".toList = some ⟨3, 11⟩ ∧
      ∀ p, ¬ IsDeclared 2 borrowedId "db.port".toList p := by
  constructor
  · decide +kernel
  · rintro p ⟨name, rest, hsegments, hdeclares⟩
    have hpath : segments "db.port".toList = ["db".toList, "port".toList] := by decide
    rw [hpath, List.cons.injEq] at hsegments
    obtain ⟨rfl, -⟩ := hsegments
    -- no resource of the document has an id
    have hnone : ∀ i q, ¬ HasId 2 borrowedId [] i "db".toList q := by
      rintro i q ⟨t, -, ht, -⟩
      have hvalue := site?_map_value 2 borrowedId
        [.key "spec", .key "resources", .index i, .key "id"]
      rw [List.nil_append] at ht
      rw [ht] at hvalue
      match i with
      | 0 | 1 | _ + 2 => exact absurd hvalue (Option.some_ne_none t.value)
    cases hdeclares with
    | id _ hid | field _ hid | templateField _ hid => exact hnone _ _ hid

end Reference

end ResourceGraph

import ResourceGraph.Proofs.Reference.Search
import ResourceGraph.Proofs.Validation.Placement
import ResourceGraph.Reference

/-!
# References to what is written down

On a printed document whose resources are items with an id, a reference leads to what it names
(`find_printed`). The id of a resource leads to that id, and with keys after it to the field that
they lead to in that very resource; `schema` with keys after it leads to the field of the schema.
Resources that share an id are told apart by their order, and only the first of them is found.

The id of each resource has a site, so it is read where it is printed (`idOf?_printed`), and the
search finds the first resource whose id is read so (`findResource_eq_some_iff`).
-/

set_option autoImplicit false

namespace ResourceGraph

open Text Block

namespace Reference

/-- The text of a reference: a name and the keys after it, with a dot between each two. -/
def dotted (name : String) (keys : List String) : List Char :=
  joinWith ['.'] (name.toList :: keys.map String.toList)

/-! ## Words -/

theorem unquote_of_isWord {cs : List Char} (h : isWord cs = true) : unquote cs = cs := by
  obtain ⟨c, rest, rfl, -, hc⟩ := exists_cons_of_isWord h
  simp only [List.mem_cons, not_or] at hc
  simp [unquote, hc.1, hc.2.1]

theorem trim_of_isWord {cs : List Char} (h : isWord cs = true) : trim cs = cs :=
  trim_indented (isSolid_of_isWord h) 0

theorem not_dot_mem_of_isWord {cs : List Char} (h : isWord cs = true) : '.' ∉ cs := by
  intro hdot
  have hchar := (isWord_iff.1 h).2 '.' hdot
  exact absurd hchar (by decide)

section Words

variable {s : Source} {name : String} {keys : List String}
  (hname : isWord name.toList = true) (hkeys : ∀ key ∈ keys, isWord key.toList = true)
include hname hkeys

/-- A reference made of words has these words as its segments. -/
theorem find_dotted :
    find s (dotted name keys) = findSegments s (name.toList :: keys.map String.toList) := by
  have hwords : ∀ cs ∈ name.toList :: keys.map String.toList, isWord cs = true := by
    intro cs hcs
    rcases List.mem_cons.1 hcs with rfl | hcs
    · exact hname
    · obtain ⟨key, hkey, rfl⟩ := List.mem_map.1 hcs
      exact hkeys key hkey
  have htrim : (name.toList :: keys.map String.toList).map trim =
      name.toList :: keys.map String.toList := by
    conv_rhs => rw [← List.map_id (name.toList :: keys.map String.toList)]
    apply List.map_congr_left
    intro cs hcs
    exact trim_of_isWord (hwords cs hcs)
  rw [find, dotted, splitOn_joinWith, htrim]
  intro cs hcs
  exact not_dot_mem_of_isWord (hwords cs hcs)

/-- A reference made of words is looked up below the schema, or in the first resource with its
name. -/
theorem find_dotted_eq : find s (dotted name keys) =
    if name = "schema" then
      locate? s.entries ((⟨[.key "spec", .key "schema"]⟩ : Path).descend keys)
    else match findResource s name.toList with
      | none => none
      | some (index, id) =>
        if keys.isEmpty then some id else (inResource s index keys).or (some id) := by
  have hfilled : ∀ {cs : List Char}, isWord cs = true → cs.isEmpty = false := by
    intro cs hcs
    exact List.isEmpty_eq_false_iff.2 (isWord_iff.1 hcs).1
  have hrest : (keys.map String.toList).any List.isEmpty = false := by
    rw [List.any_eq_false]
    intro cs hcs
    obtain ⟨key, hkey, rfl⟩ := List.mem_map.1 hcs
    simp [hfilled (hkeys key hkey)]
  have hback : (keys.map String.toList).map String.ofList = keys := by
    rw [List.map_map]
    conv_rhs => rw [← List.map_id keys]
    apply List.map_congr_left
    intro key _
    exact String.ofList_toList
  have hschema : name.toList = schemaRoot ↔ name = "schema" :=
    ⟨fun h => String.toList_inj.1 h, fun h => by rw [h]; rfl⟩
  rw [find_dotted hname hkeys, findSegments, hfilled hname, hrest, hback]
  simp only [hschema]
  rfl

end Words

/-! ## Printed resources -/

section Printed

variable {step : Nat} {root : Block} (hstep : 0 < step) (hroot : root.isWellFormed = true)
  {s : Source} (hlines : s.lines = root.lines step) (hnew : root.isNewKey step "spec" = true)
include hstep hroot hlines hnew

/-- What a path of the spec leads to is located at its site, and shown there. -/
theorem exists_site_of_at? {path : List Segment} {last : Segment} {part : Block}
    (hat : root.at? (.key "spec" :: path ++ [last]) = some part) :
    ∃ site left right, root.site? step (.key "spec" :: path ++ [last]) = some site ∧
      site.value = part ∧ (root.lines step)[site.position.line]? = some (left ++ right) ∧
      units left = site.position.character ∧ last.Around part left right ∧
      locate? s.entries ⟨.key "spec" :: path ++ [last]⟩ = some site.position := by
  obtain ⟨site, left, right, hsite, hvalue, hline, hcolumn, haround⟩ := exists_site step hroot hat
  exact ⟨site, left, right, hsite, hvalue, hline, hcolumn, haround,
    locate?_of_site? hstep hroot hlines hnew hsite⟩

/-- A field of the spec is located right after its colon. -/
theorem locate?_pointsAfterColon {path : List Segment} {key : String}
    (hat : (root.at? (.key "spec" :: path ++ [.key key])).isSome = true) :
    ∃ p, locate? s.entries ⟨.key "spec" :: path ++ [.key key]⟩ = some p ∧
      root.PointsAfterColon step (.key "spec" :: path) key (.point p) := by
  obtain ⟨part, hat⟩ := Option.isSome_iff_exists.1 hat
  obtain ⟨site, left, right, hsite, -, hline, hcolumn, ⟨⟨before, hleft⟩, -⟩, hlocate⟩ :=
    exists_site_of_at? hstep hroot hlines hnew hat
  rw [hleft, List.append_assoc _ [':']] at hline
  rw [hleft] at hcolumn
  exact ⟨site.position, hlocate, site, before, right, hsite, rfl, hline, hcolumn.symm⟩

section Resources

variable {deeper : Bool} {items : List Block} {i : Nat} {item : Block}
  (hlist : root.at? [.key "spec", .key "resources"] = some (.list deeper items))
  (hitem : items[i]? = some item)
include hlist hitem

/-- The id of a resource is read where it is printed. -/
theorem idOf?_printed {id : String} (hid : item.child? (.key "id") = some (.scalar id))
    (hword : isWord id.toList = true) :
    ∃ p, idOf? s i = some (p, id.toList) ∧
      root.CoversScalar step [.key "spec", .key "resources", .index i] "id" id
        ⟨p, p.advance (units id.toList)⟩ := by
  have hresource : root.at? [.key "spec", .key "resources", .index i] = some item := by
    rw [← hitem]
    exact at?_concat hlist (.index i)
  have hat : root.at? (.key "spec" :: [.key "resources", .index i] ++ [.key "id"]) =
      some (.scalar id) := by
    rw [← hid]
    exact at?_concat hresource (.key "id")
  obtain ⟨site, left, right, hsite, hvalue, hline, hcolumn, ⟨⟨before, hleft⟩, hright⟩, hlocate⟩ :=
    exists_site_of_at? hstep hroot hlines hnew hat
  have hread := Source.valueAt?_of_site? hroot hlines hsite hvalue
  refine ⟨site.position.advance 1, ?_, site, before, hsite, hvalue, rfl, ?_, ?_, rfl⟩
  · have hafter : locate? s.entries ((resource i).child (.key "id")) = some site.position := hlocate
    rw [idOf?, hafter]
    show ((s.valueAt? site.position).bind fun found => some (found.1, unquote found.2)) = _
    rw [hread, Option.bind_some, unquote_of_isWord hword]
  · rw [hline, hleft, hright, Block.inline, List.append_assoc _ [':']]
    rfl
  · have hspace : units [':', ' '] = units [':'] + 1 := by decide
    rw [units_append, hspace, ← Nat.add_assoc, ← units_append, ← hleft, hcolumn]
    rfl

end Resources

/-- The first resource with an id is found, and the id where it is printed. -/
theorem findResource_printed {deeper : Bool} {items : List Block}
    (hlist : root.at? [.key "spec", .key "resources"] = some (.list deeper items))
    (hids : ∀ item ∈ items, ∃ id, item.child? (.key "id") = some (.scalar id) ∧
      isWord id.toList = true)
    {i : Nat} {item : Block} (hitem : items[i]? = some item) {id : String}
    (hid : item.child? (.key "id") = some (.scalar id))
    (hfirst : ∀ j < i, ∀ other, items[j]? = some other →
      other.child? (.key "id") ≠ some (.scalar id)) :
    ∃ p, findResource s id.toList = some (i, p) ∧
      root.CoversScalar step [.key "spec", .key "resources", .index i] "id" id
        ⟨p, p.advance (units id.toList)⟩ := by
  obtain ⟨_, hid', hword⟩ := hids item (List.mem_of_getElem? hitem)
  obtain rfl : _ = id := Block.scalar.inj (Option.some.inj (hid'.symm.trans hid))
  obtain ⟨p, hread, hcovers⟩ := idOf?_printed hstep hroot hlines hnew hlist hitem hid hword
  have hlength : i < items.length := (List.getElem?_eq_some_iff.1 hitem).1
  refine ⟨p, findResource_eq_some_iff.2 ⟨hread, ?_⟩, hcovers⟩
  -- the id of an earlier resource is read too, and it is another one
  intro j hj q hq
  have hother : items[j]? = some items[j] := List.getElem?_eq_getElem (by omega)
  obtain ⟨otherId, hotherId, hotherWord⟩ := hids _ (List.mem_of_getElem? hother)
  obtain ⟨_, hotherRead, -⟩ :=
    idOf?_printed hstep hroot hlines hnew hlist hother hotherId hotherWord
  rw [hotherRead, Option.some.injEq, Prod.mk.injEq, String.toList_inj] at hq
  rw [hq.2] at hotherId
  exact hfirst j hj _ hother hotherId

/-- The id of a resource leads to where it is printed, and with keys after it to their field. -/
theorem find_resource_printed {deeper : Bool} {items : List Block}
    (hlist : root.at? [.key "spec", .key "resources"] = some (.list deeper items))
    (hids : ∀ item ∈ items, ∃ id, item.child? (.key "id") = some (.scalar id) ∧
      isWord id.toList = true)
    {i : Nat} {item : Block} (hitem : items[i]? = some item) {id : String}
    (hid : item.child? (.key "id") = some (.scalar id)) (hschema : id ≠ "schema")
    (hfirst : ∀ j < i, ∀ other, items[j]? = some other →
      other.child? (.key "id") ≠ some (.scalar id)) :
    (∃ p, find s id.toList = some p ∧
      root.CoversScalar step [.key "spec", .key "resources", .index i] "id" id
        ⟨p, p.advance (units id.toList)⟩) ∧
      ∀ keys last, (item.at? ((keys ++ [last]).map .key)).isSome = true →
        ∃ p, find s (dotted id (keys ++ [last])) = some p ∧
          root.PointsAfterColon step
            (.key "spec" :: .key "resources" :: .index i :: keys.map .key) last (.point p) := by
  obtain ⟨p, hresource, hcovers⟩ :=
    findResource_printed hstep hroot hlines hnew hlist hids hitem hid hfirst
  have hat : root.at? [.key "spec", .key "resources", .index i] = some item := by
    rw [← hitem]
    exact at?_concat hlist (.index i)
  obtain ⟨_, hid', hword⟩ := hids item (List.mem_of_getElem? hitem)
  obtain rfl : _ = id := Block.scalar.inj (Option.some.inj (hid'.symm.trans hid))
  refine ⟨⟨p, ?_, hcovers⟩, ?_⟩
  · show find s (dotted _ []) = some p
    rw [find_dotted_eq hword (by simp), if_neg hschema, hresource]
    rfl
  · intro keys last hkeys
    have hwords := isWord_of_at?_keys (isWellFormed_of_at? hat hroot) hkeys
    rw [List.map_append, List.map_singleton] at hkeys
    have hfield : (root.at? (.key "spec" :: (.key "resources" :: .index i :: keys.map .key) ++
        [.key last])).isSome = true := by
      show (root.at? ([.key "spec", .key "resources", .index i] ++
        (keys.map .key ++ [.key last]))).isSome = true
      rw [at?_append, hat]
      exact hkeys
    obtain ⟨q, hlocate, hpoints⟩ := locate?_pointsAfterColon hstep hroot hlines hnew hfield
    refine ⟨q, ?_, hpoints⟩
    -- the field is written in the resource itself, so its template is not asked
    have hinside : inResource s i (keys ++ [last]) = some q := by
      have hpath : (resource i).descend (keys ++ [last]) =
          ⟨.key "spec" :: (.key "resources" :: .index i :: keys.map .key) ++ [.key last]⟩ := by
        rw [Path.descend, List.map_append, List.map_singleton]
        rfl
      rw [inResource, hpath, hlocate]
      rfl
    rw [find_dotted_eq hword hwords, if_neg hschema, hresource]
    simp [hinside]

/-- The fields of the schema are found below the spec. -/
theorem find_schema_printed {keys : List String} {last : String}
    (hkeys : (root.at? (.key "spec" :: .key "schema" :: (keys ++ [last]).map .key)).isSome = true) :
    ∃ p, find s (dotted "schema" (keys ++ [last])) = some p ∧
      root.PointsAfterColon step (.key "spec" :: .key "schema" :: keys.map .key) last
        (.point p) := by
  have hall : ((root.at? (List.map Segment.key ("spec" :: "schema" :: (keys ++ [last]))))).isSome =
      true := hkeys
  have hwords : ∀ key ∈ keys ++ [last], isWord key.toList = true := by
    intro key hkey
    apply isWord_of_at?_keys hroot hall
    exact List.mem_cons_of_mem _ (List.mem_cons_of_mem _ hkey)
  rw [List.map_append, List.map_singleton] at hkeys
  have hfield : (root.at? (.key "spec" :: (.key "schema" :: keys.map .key) ++
      [.key last])).isSome = true := hkeys
  obtain ⟨p, hlocate, hpoints⟩ := locate?_pointsAfterColon hstep hroot hlines hnew hfield
  refine ⟨p, ?_, hpoints⟩
  rw [find_dotted_eq (by decide) hwords, if_pos rfl, Path.descend, List.map_append,
    List.map_singleton]
  exact hlocate

end Printed

/-- **Going to a definition lands on the declaration.** In a printed document whose resources are
items with a word as their id, the id of a resource, if it is not `schema` and no earlier resource
has it, leads to that id, and with the keys of a field after it to the end of the colon of that
field. So do the keys of a field of the schema after `schema`. -/
theorem find_printed {step : Nat} {root : Block} {text : String} (hstep : 0 < step)
    (hroot : root.isWellFormed = true) (hlines : splitLines text.toList = root.lines step)
    (hnew : root.isNewKey step "spec" = true) {deeper : Bool} {items : List Block}
    (hlist : root.at? [.key "spec", .key "resources"] = some (.list deeper items))
    (hids : ∀ item ∈ items, ∃ id, item.child? (.key "id") = some (.scalar id) ∧
      isWord id.toList = true) :
    (∀ i item id, items[i]? = some item → item.child? (.key "id") = some (.scalar id) →
      id ≠ "schema" →
      (∀ j < i, ∀ other, items[j]? = some other →
        other.child? (.key "id") ≠ some (.scalar id)) →
      (∃ p, find (Source.ofString text) id.toList = some p ∧
        root.CoversScalar step [.key "spec", .key "resources", .index i] "id" id
          ⟨p, p.advance (units id.toList)⟩) ∧
        ∀ keys last, (item.at? ((keys ++ [last]).map .key)).isSome = true →
          ∃ p, find (Source.ofString text) (dotted id (keys ++ [last])) = some p ∧
            root.PointsAfterColon step
              (.key "spec" :: .key "resources" :: .index i :: keys.map .key) last (.point p)) ∧
      ∀ keys last,
        (root.at? (.key "spec" :: .key "schema" :: (keys ++ [last]).map .key)).isSome = true →
          ∃ p, find (Source.ofString text) (dotted "schema" (keys ++ [last])) = some p ∧
            root.PointsAfterColon step (.key "spec" :: .key "schema" :: keys.map .key) last
              (.point p) := by
  have hsource := Source.lines_ofString hlines
  refine ⟨?_, ?_⟩
  · intro i item id hitem hid hschema hfirst
    exact find_resource_printed hstep hroot hsource hnew hlist hids hitem hid hschema hfirst
  · intro keys last hkeys
    exact find_schema_printed hstep hroot hsource hnew hkeys

/-- A document in which a template has resources of its own, with the ids of the resources, and the
schema has a group of that name. -/
def nestedResources : Block :=
  .mapping [
    ("metadata", .mapping [("name", .scalar "web")]),
    ("spec", .mapping [
      ("schema", .mapping [("resources", .mapping [("id", .scalar "string")])]),
      ("resources", .list false [
        .mapping [
          ("template", .mapping [("spec", .mapping [
            ("resources", .list true [.mapping [("id", .scalar "db"), ("port", .scalar "1")]])])]),
          ("id", .scalar "app")],
        .mapping [("id", .scalar "db"), ("size", .mapping [("port", .scalar "2")])],
        .mapping [("id", .scalar "db")]])])]

theorem find_printed_nestedResources :
    (0 < 2 ∧ nestedResources.isWellFormed = true ∧
      splitLines (nestedResources.text 2).toList = nestedResources.lines 2 ∧
      nestedResources.isNewKey 2 "spec" = true) ∧
    ((∃ p, find (Source.ofString (nestedResources.text 2)) ['d', 'b'] = some p ∧
      nestedResources.CoversScalar 2 [.key "spec", .key "resources", .index 1] "id" "db"
        ⟨p, p.advance 2⟩) ∧
      ∃ p, find (Source.ofString (nestedResources.text 2)) (dotted "db" ["size", "port"]) = some p ∧
        nestedResources.PointsAfterColon 2
          [.key "spec", .key "resources", .index 1, .key "size"] "port" (.point p)) ∧
    ∃ p, find (Source.ofString (nestedResources.text 2)) (dotted "schema" ["resources", "id"]) =
        some p ∧
      nestedResources.PointsAfterColon 2
        [.key "spec", .key "schema", .key "resources"] "id" (.point p) := by
  have hroot : nestedResources.isWellFormed = true := by decide +kernel
  have hlines : splitLines (nestedResources.text 2).toList = nestedResources.lines 2 :=
    splitLines_text hroot
  have hnew : nestedResources.isNewKey 2 "spec" = true := by decide +kernel
  obtain ⟨hresources, hschema⟩ := find_printed (by decide) hroot hlines hnew rfl (by
    intro item hitem
    simp only [List.mem_cons, List.not_mem_nil, or_false] at hitem
    rcases hitem with rfl | rfl | rfl
    · exact ⟨"app", rfl, by decide⟩
    · exact ⟨"db", rfl, by decide⟩
    · exact ⟨"db", rfl, by decide⟩)
  obtain ⟨hid, hfield⟩ := hresources 1 _ "db" rfl rfl (by decide) (by
    -- the one resource before it has another id
    intro j hj other hother
    obtain rfl : j = 0 := by omega
    obtain rfl := Option.some.inj hother
    show some (Block.scalar "app") ≠ some (.scalar "db")
    simp)
  exact ⟨⟨by decide, hroot, hlines, hnew⟩, ⟨hid, hfield ["size"] "port" rfl⟩,
    hschema ["resources"] "id" rfl⟩

end Reference

end ResourceGraph

import ResourceGraph.Proofs.Layout.Rows

/-!
# The document tree of a block

The tree of a well-formed block, seen through the questions that checks ask: the value of a key is
the tree of the part that the key leads to, and it always counts as given (`present?_node`), since
no scalar is empty.
-/

set_option autoImplicit false

namespace ResourceGraph.Block

variable {b root : Block} {path : List Segment}

theorem entriesNode_eq_map (entries : List (String × Block)) :
    entriesNode entries = entries.map fun e => (e.1, e.2.node) := by
  induction entries with
  | nil => rfl
  | cons e entries ih =>
    obtain ⟨key, value⟩ := e
    rw [entriesNode, ih, List.map_cons]

theorem itemsNode_eq_map (items : List Block) : itemsNode items = items.map node := by
  induction items with
  | nil => rfl
  | cons item items ih => rw [itemsNode, ih, List.map_cons]

theorem lookup_entriesNode (key : String) (entries : List (String × Block)) :
    (entriesNode entries).lookup key = (entries.lookup key).map node := by
  induction entries with
  | nil => rfl
  | cons e entries ih =>
    obtain ⟨k, value⟩ := e
    rw [entriesNode, List.lookup_cons, List.lookup_cons, ih]
    cases key == k <;> rfl

/-- A key leads to the same part in a block and in its tree. -/
theorem get?_node (key : String) : b.node.get? key = (b.child? (.key key)).map node := by
  cases b with
  | scalar text => rfl
  | mapping entries => exact lookup_entriesNode key entries
  | list deeper items => rfl

theorem isPresent_node (hb : b.isWellFormed = true) : b.node.isPresent = true := by
  cases b with
  | scalar text =>
    obtain ⟨⟨c, rest, hcons, -⟩, -⟩ := isScalarText_iff.1 hb
    have hne : text ≠ "" := by
      rintro rfl
      simp at hcons
    simpa [node, Node.isPresent] using hne
  | mapping entries => rfl
  | list deeper items => rfl

theorem lookup_of_mem {entries : List (String × Block)} (hkeys : (entries.map Prod.fst).Nodup)
    {key : String} {value : Block} (h : (key, value) ∈ entries) :
    entries.lookup key = some value := by
  induction entries with
  | nil => simp at h
  | cons e entries ih =>
    obtain ⟨k, v⟩ := e
    rw [List.map_cons, List.nodup_cons] at hkeys
    rcases List.mem_cons.1 h with heq | hmem
    · -- the first entry is the wanted one; below, no other entry has its key
      obtain ⟨rfl, rfl⟩ := Prod.mk.inj heq
      simp
    · have hne : (key == k) = false := by
        rw [beq_eq_false_iff_ne]
        rintro rfl
        exact hkeys.1 (List.mem_map.2 ⟨(key, value), hmem, rfl⟩)
      rw [List.lookup_cons, hne]
      exact ih hkeys.2 hmem

theorem mem_of_lookup {entries : List (String × Block)} {key : String} {value : Block}
    (h : entries.lookup key = some value) : (key, value) ∈ entries := by
  obtain ⟨before, after, rfl, -⟩ := List.lookup_eq_some_iff.1 h
  exact List.mem_append_right before List.mem_cons_self

theorem isWellFormed_of_child? {segment : Segment} {part : Block}
    (h : b.child? segment = some part) (hb : b.isWellFormed = true) : part.isWellFormed = true := by
  cases segment with
  | key key =>
    cases b with
    | mapping entries => exact ((isWellFormed_mapping.1 hb).2.2 _ (mem_of_lookup h)).2
    | scalar text => simp [child?] at h
    | list deeper items => simp [child?] at h
  | index i =>
    cases b with
    | list deeper items => exact (isWellFormed_list.1 hb).2 _ (List.mem_of_getElem? h)
    | scalar text => simp [child?] at h
    | mapping entries => simp [child?] at h

theorem isWellFormed_of_at? (h : root.at? path = some b) (hroot : root.isWellFormed = true) :
    b.isWellFormed = true := by
  induction path generalizing root with
  | nil =>
    obtain rfl := Option.some.inj h
    exact hroot
  | cons segment path ih =>
    obtain ⟨part, hpart, hrest⟩ := Option.bind_eq_some_iff.1 h
    exact ih hrest (isWellFormed_of_child? hpart hroot)

theorem at?_nil (root : Block) : root.at? [] = some root := rfl

theorem at?_append (path rest : List Segment) :
    root.at? (path ++ rest) = (root.at? path).bind (at? rest) := by
  induction path generalizing root with
  | nil => rfl
  | cons segment path ih =>
    rw [List.cons_append, at?, at?, Option.bind_assoc]
    congr 1
    funext part
    exact ih

theorem at?_concat (h : root.at? path = some b) (segment : Segment) :
    root.at? (path ++ [segment]) = b.child? segment := by
  rw [at?_append, h, Option.bind_some, at?]
  cases b.child? segment <;> rfl

/-- The keys that lead somewhere are words. -/
theorem isWord_of_at?_keys {keys : List String} (hb : b.isWellFormed = true)
    (h : (b.at? (keys.map .key)).isSome = true) : ∀ key ∈ keys, isWord key.toList = true := by
  induction keys generalizing b with
  | nil => simp
  | cons key keys ih =>
    obtain ⟨value, hvalue⟩ := Option.isSome_iff_exists.1 h
    obtain ⟨part, hpart, hrest⟩ := Option.bind_eq_some_iff.1 hvalue
    have hword : isWord key.toList = true := by
      cases b with
      | mapping entries => exact ((isWellFormed_mapping.1 hb).2.2 _ (mem_of_lookup hpart)).1
      | scalar text => simp [child?] at hpart
      | list deeper items => simp [child?] at hpart
    intro other hother
    rcases List.mem_cons.1 hother with rfl | hother
    · exact hword
    · apply ih (isWellFormed_of_child? hpart hb) _ other hother
      rw [hrest]
      rfl

/-- In the tree of a well-formed block every value of a key counts as given. -/
theorem present?_node (hb : b.isWellFormed = true) (key : String) :
    b.node.present? key = (b.child? (.key key)).map node := by
  rw [Node.present?, get?_node]
  cases hpart : b.child? (.key key) with
  | none => rfl
  | some part =>
    rw [Option.map_some, Option.filter_some, isPresent_node (isWellFormed_of_child? hpart hb)]
    rfl

/-- A key of the tree that counts as given leads to a part of the block. -/
theorem exists_of_present? {key : String} {value : Node} (hroot : root.isWellFormed = true)
    (hat : root.at? path = some b) (h : b.node.present? key = some value) :
    ∃ part, root.at? (path ++ [.key key]) = some part ∧ value = part.node := by
  rw [present?_node (isWellFormed_of_at? hat hroot)] at h
  obtain ⟨part, hpart, rfl⟩ := Option.map_eq_some_iff.1 h
  exact ⟨part, by rw [at?_concat hat, hpart], rfl⟩

/-! ## Trees of other scalars -/

mutual

/-- The document tree of a block whose scalars are read by a function. -/
def tree (read : String → Node) : Block → Node
  | .scalar text => read text
  | .mapping entries => .mapping (entriesTree read entries)
  | .list _ items => .sequence (itemsTree read items)

/-- The entries of the tree of a mapping. -/
def entriesTree (read : String → Node) : List (String × Block) → List (String × Node)
  | [] => []
  | (key, value) :: rest => (key, tree read value) :: entriesTree read rest

/-- The items of the tree of a list. -/
def itemsTree (read : String → Node) : List Block → List Node
  | [] => []
  | item :: rest => tree read item :: itemsTree read rest

end

variable {read : String → Node}

theorem lookup_entriesTree (key : String) (entries : List (String × Block)) :
    (entriesTree read entries).lookup key = (entries.lookup key).map (tree read) := by
  induction entries with
  | nil => rfl
  | cons e entries ih =>
    obtain ⟨k, value⟩ := e
    rw [entriesTree, List.lookup_cons, List.lookup_cons, ih]
    cases key == k <;> rfl

/-- As long as no scalar reads as a mapping, a key leads to the same part in a block and in its
tree. -/
theorem get?_tree (hread : ∀ text key, (read text).get? key = none) (key : String) :
    (b.tree read).get? key = (b.child? (.key key)).map (tree read) := by
  cases b with
  | scalar text => exact hread text key
  | mapping entries => exact lookup_entriesTree key entries
  | list deeper items => rfl

theorem exists_of_present?_tree {key : String} {value : Node}
    (hread : ∀ text key, (read text).get? key = none)
    (h : (b.tree read).present? key = some value) :
    ∃ part, b.child? (.key key) = some part ∧ value = part.tree read := by
  obtain ⟨hget, -⟩ := Option.filter_eq_some_iff.1 h
  rw [get?_tree hread] at hget
  obtain ⟨part, hpart, rfl⟩ := Option.map_eq_some_iff.1 hget
  exact ⟨part, hpart, rfl⟩

end ResourceGraph.Block

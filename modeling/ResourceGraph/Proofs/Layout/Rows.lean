import ResourceGraph.Proofs.Layout.Block
import ResourceGraph.Proofs.Text.Word

/-!
# Rows of a printed block

What every printed row is like: it stands at or right of the column its block begins at
(`le_indent_of_mem_rows`), it is a solid line (`isPrinted_of_mem_rows`), and a row at the column of
a mapping is written with a key of that mapping or begins with a list marker
(`key_of_mem_entriesRows`). The entries of a text whose lines are printed are its rows
(`ofLines_lines`).
-/

set_option autoImplicit false

namespace ResourceGraph

open Text

namespace Block

/-- Induction over the parts of a block. -/
@[elab_as_elim]
theorem induct {P : Block → Prop} (scalar : ∀ text, P (.scalar text))
    (mapping : ∀ entries, (∀ e ∈ entries, P e.2) → P (.mapping entries))
    (list : ∀ deeper items, (∀ item ∈ items, P item) → P (.list deeper items)) : ∀ b, P b
  | .scalar text => scalar text
  | .mapping entries => mapping entries fun e he =>
    have : sizeOf e.2 < 1 + sizeOf entries := by
      have hmem := List.sizeOf_lt_of_mem he
      have hpair : sizeOf e = 1 + sizeOf e.1 + sizeOf e.2 := by cases e; rfl
      omega
    induct scalar mapping list e.2
  | .list deeper items => list deeper items fun item hitem =>
    have : sizeOf item < 1 + sizeOf deeper + sizeOf items := by
      have hmem := List.sizeOf_lt_of_mem hitem
      omega
    induct scalar mapping list item

/-! ## Well-formed collections -/

theorem entriesWellFormed_iff {entries : List (String × Block)} :
    entriesWellFormed entries = true ↔
      ∀ e ∈ entries, isWord e.1.toList = true ∧ e.2.isWellFormed = true := by
  induction entries with
  | nil => simp [entriesWellFormed]
  | cons e entries ih =>
    obtain ⟨key, value⟩ := e
    simp [entriesWellFormed, ih, and_assoc]

theorem itemsWellFormed_iff {items : List Block} :
    itemsWellFormed items = true ↔ ∀ item ∈ items, item.isWellFormed = true := by
  induction items with
  | nil => simp [itemsWellFormed]
  | cons item items ih => simp [itemsWellFormed, ih]

theorem isWellFormed_mapping {entries : List (String × Block)} :
    (mapping entries).isWellFormed = true ↔
      entries ≠ [] ∧ (entries.map Prod.fst).Nodup ∧
        ∀ e ∈ entries, isWord e.1.toList = true ∧ e.2.isWellFormed = true := by
  simp [isWellFormed, entriesWellFormed_iff, and_assoc]

theorem isWellFormed_list {deeper : Bool} {items : List Block} :
    (list deeper items).isWellFormed = true ↔
      items ≠ [] ∧ ∀ item ∈ items, item.isWellFormed = true := by
  simp [isWellFormed, itemsWellFormed_iff]

theorem isScalarText_iff {cs : List Char} : isScalarText cs = true ↔
    (∃ c rest, cs = c :: rest ∧ isBlank c = false ∧ c ≠ '-') ∧
      (∃ before c, cs = before ++ [c] ∧ isBlank c = false) ∧
        ':' ∉ cs ∧ '#' ∉ cs ∧ '\n' ∉ cs := by
  constructor
  · intro h
    simp only [isScalarText, Bool.and_eq_true, Option.any_eq_true, List.all_eq_true,
      Bool.not_eq_true', bne_iff_ne] at h
    obtain ⟨⟨⟨c, hc, hfirst⟩, d, hd, hlast⟩, hall⟩ := h
    obtain ⟨rest, hrest⟩ := List.head?_eq_some_iff.1 hc
    obtain ⟨before, hbefore⟩ := List.getLast?_eq_some_iff.1 hd
    refine ⟨⟨c, rest, hrest, hfirst⟩, ⟨before, d, hbefore, hlast⟩, ?_, ?_, ?_⟩
    · intro hmem
      exact (hall _ hmem).1.1 rfl
    · intro hmem
      exact (hall _ hmem).1.2 rfl
    · intro hmem
      exact (hall _ hmem).2 rfl
  · rintro ⟨⟨c, rest, hrest, hfirst, hdash⟩, ⟨before, d, hbefore, hlast⟩, hcolon, hhash, hfeed⟩
    have hhead : cs.head? = some c := by rw [hrest]; rfl
    have hd : cs.getLast? = some d := by rw [hbefore]; simp
    simp only [isScalarText, hhead, hd, Option.any_some, hfirst, hlast, Bool.and_eq_true,
      List.all_eq_true, bne_iff_ne, Bool.not_false]
    refine ⟨⟨⟨trivial, hdash⟩, trivial⟩, ?_⟩
    intro a ha
    refine ⟨⟨?_, ?_⟩, ?_⟩
    · rintro rfl
      exact hcolon ha
    · rintro rfl
      exact hhash ha
    · rintro rfl
      exact hfeed ha

theorem isSolid_of_isScalarText {cs : Line} (h : isScalarText cs = true) : cs.isSolid = true := by
  obtain ⟨⟨c, rest, hrest, hfirst, -⟩, hlast, -, hhash, -⟩ := isScalarText_iff.1 h
  refine Line.isSolid_iff.2 ⟨⟨c, rest, hrest, hfirst, ?_⟩, hlast⟩
  rintro rfl
  exact hhash (by simp [hrest])

/-! ## Which rows are printed -/

theorem mem_entriesRows {step column : Nat} {entries : List (String × Block)} {r : Row} :
    r ∈ entriesRows step column entries ↔
      ∃ e ∈ entries, r = keyRow column e.1 e.2 ∨ r ∈ rowsBelow step column e.2 := by
  induction entries with
  | nil => simp [entriesRows]
  | cons e entries ih =>
    obtain ⟨key, value⟩ := e
    simp [entriesRows, ih, or_assoc]

theorem mem_itemsRows {step column : Nat} {items : List Block} {r : Row} :
    r ∈ itemsRows step column items ↔
      ∃ item ∈ items, r ∈ markFirst column (rows step (column + 2) item) := by
  induction items with
  | nil => simp [itemsRows]
  | cons item items ih => simp [itemsRows, ih]

theorem mem_markFirst {column : Nat} {printed : List Row} {r : Row}
    (h : r ∈ markFirst column printed) :
    (∃ row ∈ printed, r = ⟨column, '-' :: ' ' :: row.content⟩) ∨ r ∈ printed := by
  cases printed with
  | nil => simp [markFirst] at h
  | cons row rest =>
    simp only [markFirst, List.mem_cons] at h
    rcases h with rfl | h
    · exact Or.inl ⟨row, by simp, rfl⟩
    · exact Or.inr (List.mem_cons_of_mem _ h)

theorem length_markFirst (column : Nat) (printed : List Row) :
    (markFirst column printed).length = printed.length := by
  cases printed <;> rfl

theorem entriesRows_append {step column : Nat} (xs ys : List (String × Block)) :
    entriesRows step column (xs ++ ys) =
      entriesRows step column xs ++ entriesRows step column ys := by
  induction xs with
  | nil => simp [entriesRows]
  | cons e xs ih =>
    obtain ⟨key, value⟩ := e
    simp [entriesRows, ih]

theorem itemsRows_append {step column : Nat} (xs ys : List Block) :
    itemsRows step column (xs ++ ys) = itemsRows step column xs ++ itemsRows step column ys := by
  induction xs with
  | nil => simp [itemsRows]
  | cons item xs ih => simp [itemsRows, ih]

/-- The rows below a key are the rows of its value at a column of their own, if the value is a
collection. -/
theorem rowsBelow_of_ne_scalar (step column : Nat) {value : Block}
    (h : ∀ text, value ≠ .scalar text) :
    rowsBelow step column value = rows step (columnBelow step column value) value := by
  cases value with
  | scalar text => exact absurd rfl (h text)
  | mapping entries => simp [rowsBelow, rows, columnBelow]
  | list deeper items => cases deeper <;> simp [rowsBelow, rows, columnBelow]

theorem mem_rowsBelow {step column : Nat} {value : Block} {r : Row}
    (h : r ∈ rowsBelow step column value) :
    r ∈ rows step (columnBelow step column value) value := by
  rwa [← rowsBelow_of_ne_scalar]
  rintro text rfl
  simp [rowsBelow] at h

theorem le_columnBelow (step column : Nat) (value : Block) :
    column ≤ columnBelow step column value := by
  unfold columnBelow
  split <;> omega

/-! ## Where rows stand -/

theorem le_indent_of_mem_rows {step : Nat} {b : Block} :
    ∀ {column : Nat} {r : Row}, r ∈ rows step column b → column ≤ r.indent := by
  induction b using induct with
  | scalar text =>
    intro column r hr
    simp only [rows, List.mem_singleton] at hr
    simp [hr]
  | mapping entries ih =>
    intro column r hr
    rw [rows] at hr
    obtain ⟨e, he, rfl | hr⟩ := mem_entriesRows.1 hr
    · exact Nat.le_refl column
    · exact Nat.le_trans (le_columnBelow step column e.2) (ih e he (mem_rowsBelow hr))
  | list deeper items ih =>
    intro column r hr
    rw [rows] at hr
    obtain ⟨item, hitem, hr⟩ := mem_itemsRows.1 hr
    rcases mem_markFirst hr with ⟨row, -, rfl⟩ | hr
    · exact Nat.le_refl column
    · have := ih item hitem hr
      omega

theorem le_indent_of_mem_entriesRows {step column : Nat} {entries : List (String × Block)}
    {r : Row} (hr : r ∈ entriesRows step column entries) : column ≤ r.indent :=
  have hrow : r ∈ rows step column (.mapping entries) := by rwa [rows]
  le_indent_of_mem_rows hrow

/-- A printed block has a first row, which stands at the column the block begins at. -/
theorem rows_eq_cons (step : Nat) {b : Block} (hb : b.isWellFormed = true) (column : Nat) :
    ∃ content rest, rows step column b = ⟨column, content⟩ :: rest := by
  induction b using induct generalizing column with
  | scalar text => exact ⟨text.toList, [], by rw [rows]⟩
  | mapping entries ih =>
    obtain ⟨⟨key, value⟩, rest, rfl⟩ := List.exists_cons_of_ne_nil (isWellFormed_mapping.1 hb).1
    exact ⟨_, _, by rw [rows, entriesRows]; rfl⟩
  | list deeper items ih =>
    obtain ⟨hne, hitems⟩ := isWellFormed_list.1 hb
    obtain ⟨item, rest, rfl⟩ := List.exists_cons_of_ne_nil hne
    obtain ⟨content, below, hrows⟩ := ih item (by simp) (hitems item (by simp)) (column + 2)
    exact ⟨_, _, by rw [rows, itemsRows, hrows]; rfl⟩

theorem key?_keyRow {column : Nat} {key : String} {value : Block}
    (hkey : isWord key.toList = true) :
    Line.key? (keyRow column key value).content = some ⟨key.toList, key.toList, value.inline⟩ := by
  apply Line.key?_word hkey
  cases value with
  | scalar text => simp [inline, Line.afterSeparator?, isBlank_space]
  | mapping entries => rfl
  | list deeper items => rfl

theorem key_ne_of_keyRow {column : Nat} {key name : String} {value : Block}
    (hkey : isWord key.toList = true) (hne : key ≠ name) {k : Line.Key}
    (hk : Line.key? (keyRow column key value).content = some k) : k.key ≠ name.toList := by
  rw [key?_keyRow hkey, Option.some.injEq] at hk
  rw [← hk]
  intro h
  exact hne (String.toList_inj.1 h)

/-- A row at the column of a mapping is the row of one of its keys, or begins with a list marker. -/
theorem key_of_mem_entriesRows {step column : Nat} (hstep : 0 < step)
    {entries : List (String × Block)} {r : Row} (hr : r ∈ entriesRows step column entries)
    (hcolumn : r.indent = column) :
    (∃ e ∈ entries, r = keyRow column e.1 e.2) ∨ ∃ content, r.content = '-' :: ' ' :: content := by
  obtain ⟨e, he, hrow | hbelow⟩ := mem_entriesRows.1 hr
  · exact Or.inl ⟨e, he, hrow⟩
  · right
    -- what is printed a step deeper does not stand at the column
    have hshallow : ∀ value : Block, r ∈ rows step (column + step) value → False := by
      intro value hr
      have := le_indent_of_mem_rows hr
      omega
    cases hvalue : e.2 with
    | scalar text => simp [hvalue, rowsBelow] at hbelow
    | mapping inner =>
      rw [hvalue, rowsBelow] at hbelow
      exact (hshallow (.mapping inner) (by rwa [rows])).elim
    | list deeper items =>
      rw [hvalue, rowsBelow] at hbelow
      cases deeper with
      | true => exact (hshallow (.list true items) (by rw [rows]; simpa using hbelow)).elim
      | false =>
        obtain ⟨item, -, hr⟩ := mem_itemsRows.1 hbelow
        -- below its first row an item is two columns deeper, so only a marker row is left
        rcases mem_markFirst hr with ⟨row, -, rfl⟩ | hr
        · exact ⟨row.content, rfl⟩
        · have := le_indent_of_mem_rows hr
          simp only [Bool.false_eq_true, if_false] at this
          omega

end Block

/-! ## Rows as entries of a text -/

namespace Row

/-- Whether a row holds a solid line without a line feed. -/
def IsPrinted (r : Row) : Prop := r.content.isSolid = true ∧ '\n' ∉ r.content

/-- The entries of some rows, numbered from `n` on. -/
def numbered : Nat → List Row → List Entry
  | _, [] => []
  | n, r :: rest => ⟨n, r.indent, r.content⟩ :: numbered (n + 1) rest

theorem numbered_append (n : Nat) (xs ys : List Row) :
    numbered n (xs ++ ys) = numbered n xs ++ numbered (n + xs.length) ys := by
  induction xs generalizing n with
  | nil => simp [numbered]
  | cons x xs ih =>
    have hlen : n + 1 + xs.length = n + (xs.length + 1) := by omega
    simp [numbered, ih, hlen]

theorem mem_numbered {n : Nat} {printed : List Row} {e : Entry} (h : e ∈ numbered n printed) :
    ∃ r ∈ printed, e.indent = r.indent ∧ e.content = r.content := by
  induction printed generalizing n with
  | nil => simp [numbered] at h
  | cons r rest ih =>
    rcases List.mem_cons.1 h with rfl | h
    · exact ⟨r, by simp, rfl, rfl⟩
    · obtain ⟨r', hr', heq⟩ := ih h
      exact ⟨r', List.mem_cons_of_mem _ hr', heq⟩

/-- The entries of printed lines are their rows. -/
theorem ofLines_map_line {printed : List Row} (h : ∀ r ∈ printed, r.IsPrinted) (n : Nat) :
    Entry.ofLines n (printed.map line) = numbered n printed := by
  induction printed generalizing n with
  | nil => rfl
  | cons r rest ih =>
    have hentry : Entry.ofLine? n r.line = some ⟨n, r.indent, r.content⟩ :=
      Entry.ofLine?_indented (h r (by simp)).1 n r.indent
    rw [List.map_cons, Entry.ofLines, hentry, numbered,
      ← ih fun r' hr' => h r' (List.mem_cons_of_mem _ hr')]

end Row

namespace Block

theorem isPrinted_of_isScalarText {column : Nat} {cs : Line} (h : isScalarText cs = true) :
    (⟨column, cs⟩ : Row).IsPrinted :=
  ⟨isSolid_of_isScalarText h, (isScalarText_iff.1 h).2.2.2.2⟩

theorem isPrinted_keyRow {column : Nat} {key : String} {value : Block}
    (hkey : isWord key.toList = true) (hvalue : value.isWellFormed = true) :
    (keyRow column key value).IsPrinted := by
  obtain ⟨c, rest, hcons, hblank, hmarks⟩ := exists_cons_of_isWord hkey
  simp only [List.mem_cons, not_or] at hmarks
  have hfeed : '\n' ∉ key.toList := by
    intro h
    exact (FieldType.of_isWordChar ((isWord_iff.1 hkey).2 _ h)).2 (by simp)
  -- the key begins the line, so only the end of the line depends on the value
  have hlast : ∀ before d, key.toList ++ ':' :: value.inline = before ++ [d] →
      isBlank d = false → Line.isSolid (key.toList ++ ':' :: value.inline) = true := by
    intro before d h hd
    exact Line.isSolid_iff.2 ⟨⟨c, rest ++ ':' :: value.inline, by simp [hcons], hblank,
      hmarks.2.2.2.2.1⟩, before, d, h, hd⟩
  cases value with
  | scalar text =>
    -- the line ends with the scalar, and else with the colon
    obtain ⟨-, ⟨before, d, htext, hd⟩, -, -, hfeed'⟩ := isScalarText_iff.1 hvalue
    refine ⟨hlast (key.toList ++ ':' :: ' ' :: before) d (by simp [inline, htext]) hd, ?_⟩
    simp [keyRow, inline, hfeed, hfeed']
  | mapping entries => exact ⟨hlast key.toList ':' rfl (by decide), by simp [keyRow, inline, hfeed]⟩
  | list deeper items =>
    exact ⟨hlast key.toList ':' rfl (by decide), by simp [keyRow, inline, hfeed]⟩

theorem isPrinted_marked {column : Nat} {row : Row} (h : row.IsPrinted) :
    (⟨column, '-' :: ' ' :: row.content⟩ : Row).IsPrinted := by
  obtain ⟨-, before, d, hcontent, hd⟩ := Line.isSolid_iff.1 h.1
  refine ⟨Line.isSolid_iff.2 ⟨⟨'-', ' ' :: row.content, rfl, by decide, by decide⟩,
    '-' :: ' ' :: before, d, by simp [hcontent], hd⟩, ?_⟩
  simp [h.2]

theorem isPrinted_of_mem_rows {step : Nat} {b : Block} (hb : b.isWellFormed = true) :
    ∀ {column : Nat} {r : Row}, r ∈ rows step column b → r.IsPrinted := by
  induction b using induct with
  | scalar text =>
    intro column r hr
    simp only [rows, List.mem_singleton] at hr
    rw [hr]
    exact isPrinted_of_isScalarText hb
  | mapping entries ih =>
    intro column r hr
    obtain ⟨-, -, hentries⟩ := isWellFormed_mapping.1 hb
    rw [rows] at hr
    obtain ⟨e, he, rfl | hr⟩ := mem_entriesRows.1 hr
    · exact isPrinted_keyRow (hentries e he).1 (hentries e he).2
    · exact ih e he (hentries e he).2 (mem_rowsBelow hr)
  | list deeper items ih =>
    intro column r hr
    obtain ⟨-, hitems⟩ := isWellFormed_list.1 hb
    rw [rows] at hr
    obtain ⟨item, hitem, hr⟩ := mem_itemsRows.1 hr
    rcases mem_markFirst hr with ⟨row, hrow, rfl⟩ | hr
    · exact isPrinted_marked (ih item hitem (hitems item hitem) hrow)
    · exact ih item hitem (hitems item hitem) hr

/-- The entries of a text whose lines are printed are the rows. -/
theorem ofLines_lines {step : Nat} {root : Block} (hroot : root.isWellFormed = true) :
    Entry.ofLines 0 (root.lines step) = Row.numbered 0 (rows step 0 root) := by
  apply Row.ofLines_map_line
  intro r hr
  exact isPrinted_of_mem_rows hroot hr

/-- The text of a document has the lines that are printed. -/
theorem splitLines_text {step : Nat} {root : Block} (hroot : root.isWellFormed = true) :
    splitLines (root.text step).toList = root.lines step := by
  rw [text, String.toList_ofList]
  apply splitLines_flatMap
  intro line hline
  obtain ⟨r, hr, rfl⟩ := List.mem_map.1 hline
  obtain ⟨hsolid, hfeed⟩ := isPrinted_of_mem_rows hroot hr
  -- the last character of a row is not blank, so no carriage return is lost with its feed
  obtain ⟨-, before, c, hcontent, hc⟩ := Line.isSolid_iff.1 hsolid
  refine ⟨?_, List.replicate r.indent ' ' ++ before, c, by simp [Row.line, hcontent], hc⟩
  simp [Row.line, hfeed]

end Block

end ResourceGraph

import ResourceGraph.Proofs.FieldType.Recording

/-!
# Printed field types

A field type is printed as its base and the settings of its modifiers, each with a backslash before
its bars, with ` | ` between them. Neither the base nor the values are restricted otherwise: they
may hold signs, brackets, bars and backslashes, and names may repeat.

Proves: reading a printed type gives its base, each name once with the value that was set last, and
a valid type exactly if the base is written as one (`read_print`).
-/

set_option autoImplicit false

namespace ResourceGraph.FieldType

open Text

/-- Whether a text is not empty and has no white space at either end. -/
def isTrimmed (cs : List Char) : Bool :=
  cs.head?.any (fun c => !isBlank c) && cs.getLast?.any fun c => !isBlank c

/-- A modifier as it is written: its name, a sign and its value. -/
def written (entry : String × String) : List Char := entry.1.toList ++ '=' :: entry.2.toList

/-- A field type with some modifiers as it is printed. -/
def print (base : String) (entries : List (String × String)) : String :=
  String.ofList (joinWith [' ', '|', ' '] ((base.toList :: entries.map written).map escapeBars))

/-- Whether an entry can be printed: its name is a word, and its value is not empty and has no white
space at either end. -/
def isPrintable (entry : String × String) : Bool :=
  Block.isWord entry.1.toList && isTrimmed entry.2.toList

theorem isTrimmed_iff {cs : List Char} : isTrimmed cs = true ↔
    (∃ c rest, cs = c :: rest ∧ isBlank c = false) ∧
      ∃ before c, cs = before ++ [c] ∧ isBlank c = false := by
  rw [isTrimmed, Bool.and_eq_true, Option.any_eq_true, Option.any_eq_true]
  constructor
  · rintro ⟨⟨c, hfirst, hc⟩, d, hlast, hd⟩
    obtain ⟨rest, hcons⟩ := List.head?_eq_some_iff.1 hfirst
    obtain ⟨before, happend⟩ := List.getLast?_eq_some_iff.1 hlast
    exact ⟨⟨c, rest, hcons, by simpa using hc⟩, before, d, happend, by simpa using hd⟩
  · rintro ⟨⟨c, rest, hcons, hc⟩, before, d, happend, hd⟩
    refine ⟨⟨c, by rw [hcons, List.head?_cons], by simpa using hc⟩, d, ?_, by simpa using hd⟩
    rw [happend, List.getLast?_concat]

theorem trimStart_of_isTrimmed {cs : List Char} (h : isTrimmed cs = true) : trimStart cs = cs := by
  obtain ⟨⟨c, rest, rfl, hc⟩, -⟩ := isTrimmed_iff.1 h
  rw [trimStart, List.dropWhile_cons_of_neg (by simp [hc])]

/-- Blanks at both ends of a trimmed text are all that trimming drops. -/
theorem trim_gap_append {cs gap : List Char} (h : isTrimmed cs = true)
    (hgap : ∀ c ∈ gap, isBlank c = true) {gap' : List Char} (hgap' : ∀ c ∈ gap', isBlank c = true) :
    trim (gap ++ (cs ++ gap')) = cs := by
  obtain ⟨⟨c, rest, hcons, hc⟩, before, d, happend, hd⟩ := isTrimmed_iff.1 h
  have hstart : trimStart (gap ++ (cs ++ gap')) = cs ++ gap' := by
    rw [trimStart, List.dropWhile_append_of_pos hgap, hcons, List.cons_append,
      List.dropWhile_cons_of_neg (by simp [hc])]
  rw [trim, hstart, trimEnd_append_blank cs hgap', trimEnd, happend]
  exact dropTail_append_singleton before hd

theorem escapeBars_of_forall_isBlank {gap : List Char} (h : ∀ c ∈ gap, isBlank c = true) :
    escapeBars gap = gap := by
  induction gap with
  | nil => rfl
  | cons c gap ih =>
    obtain ⟨hc, hgap⟩ := List.forall_mem_cons.1 h
    have hbar : c ≠ '|' := by
      rintro rfl
      exact absurd hc (by decide)
    rw [escapeBars_cons, if_neg hbar, ih hgap, List.singleton_append]

/-- Printed parts are the segments of what is printed, blanks before the first one aside. -/
theorem segments_gap_append {part gap : List Char} {parts : List (List Char)}
    (h : ∀ p ∈ part :: parts, isTrimmed p = true) (hgap : ∀ c ∈ gap, isBlank c = true) :
    segments (gap ++ joinWith [' ', '|', ' '] ((part :: parts).map escapeBars)) =
      part :: parts := by
  induction parts generalizing part gap with
  | nil =>
    have hpart : trim (gap ++ (part ++ [])) = part :=
      trim_gap_append (h part List.mem_cons_self) hgap (by simp)
    rw [List.append_nil] at hpart
    show segments (gap ++ escapeBars part) = [part]
    rw [segments, ← escapeBars_of_forall_isBlank hgap, ← escapeBars_append, splitBars_escapeBars,
      List.map_singleton, hpart]
  | cons next parts ih =>
    obtain ⟨hpart, hparts⟩ := List.forall_mem_cons.1 h
    have hspace : ∀ c ∈ [' '], isBlank c = true := List.forall_mem_singleton.2 isBlank_space
    -- the space before the bar ends the part, so no backslash of the part takes the bar
    have hwritten : gap ++ joinWith [' ', '|', ' '] ((part :: next :: parts).map escapeBars) =
        escapeBars (gap ++ (part ++ [' '])) ++
          '|' :: ([' '] ++ joinWith [' ', '|', ' '] ((next :: parts).map escapeBars)) := by
      rw [escapeBars_append, escapeBars_append, escapeBars_of_forall_isBlank hgap,
        escapeBars_of_forall_isBlank hspace]
      show gap ++ (escapeBars part ++ [' ', '|', ' '] ++ _) = _
      simp
    have hend : (gap ++ (part ++ [' '])).getLast? ≠ some '\\' := by
      rw [← List.append_assoc, List.getLast?_concat]
      decide
    have hrest := ih hparts hspace
    rw [segments] at hrest ⊢
    rw [hwritten, splitBars_append (getLast?_escapeBars_ne hend), splitBars_escapeBars,
      List.map_append, hrest, List.map_singleton, trim_gap_append hpart hgap hspace,
      List.singleton_append]

theorem isTrimmed_written {e : String × String} (h : isPrintable e = true) :
    isTrimmed (written e) = true := by
  obtain ⟨hname, hvalue⟩ := Bool.and_eq_true_iff.1 h
  obtain ⟨c, rest, hcons, hc, -⟩ := Block.exists_cons_of_isWord hname
  obtain ⟨-, before, d, happend, hd⟩ := isTrimmed_iff.1 hvalue
  refine isTrimmed_iff.2 ⟨⟨c, rest ++ '=' :: e.2.toList, ?_, hc⟩,
    e.1.toList ++ '=' :: before, d, ?_, hd⟩
  · rw [written, hcons, List.cons_append]
  · rw [written, happend, List.append_assoc, List.cons_append]

theorem modifier?_written {e : String × String} (h : isPrintable e = true) :
    modifier? (written e) = some e := by
  obtain ⟨hname, hvalue⟩ := Bool.and_eq_true_iff.1 h
  obtain ⟨⟨c, rest, hcons, hc⟩, -⟩ := isTrimmed_iff.1 hvalue
  have hmem : c ∈ e.2.toList := by
    rw [hcons]
    exact List.mem_cons_self
  have hread := modifier?_setting hname (List.forall_mem_nil _) ⟨c, hmem, hc⟩
  rw [List.append_nil, trimStart_of_isTrimmed hvalue, String.ofList_toList,
    String.ofList_toList] at hread
  exact hread

theorem entriesOf_map_written {entries : List (String × String)}
    (h : ∀ e ∈ entries, isPrintable e = true) : entriesOf (entries.map written) = entries := by
  induction entries with
  | nil => rfl
  | cons e entries ih =>
    obtain ⟨he, hentries⟩ := List.forall_mem_cons.1 h
    rw [List.map_cons, entriesOf_cons_of_some (modifier?_written he), ih hentries]

theorem isModifier_of_mem_map_written {entries : List (String × String)}
    (h : ∀ e ∈ entries, isPrintable e = true) : ∀ part ∈ entries.map written, IsModifier part := by
  intro part hpart
  obtain ⟨e, he, rfl⟩ := List.mem_map.1 hpart
  apply modifier?_isSome_iff.1
  rw [modifier?_written (h e he)]
  rfl

/-- **Reading a printed type gives it back**: its base, and each name of a modifier once, in the
order in which the names first come, with the value that was set last. The field is required exactly
if the last value of `required` is `true`, and the type is valid exactly if its base is written as
one. -/
theorem read_print {base : String} {entries : List (String × String)}
    (hbase : isTrimmed base.toList = true) (hentries : ∀ e ∈ entries, isPrintable e = true) :
    (read (print base entries)).baseType = base ∧
      (read (print base entries)).modifiers.names = (entries.map Prod.fst).eraseDups ∧
      (∀ name, (read (print base entries)).modifiers.get? name = entries.reverse.lookup name) ∧
      ((read (print base entries)).isRequired = true ↔
        entries.reverse.lookup "required" = some "true") ∧
      ((read (print base entries)).isValid = true ↔ IsBase base.toList) := by
  have hparts : ∀ p ∈ base.toList :: entries.map written, isTrimmed p = true := by
    intro p hp
    rcases List.mem_cons.1 hp with rfl | hp
    · exact hbase
    · obtain ⟨e, he, rfl⟩ := List.mem_map.1 hp
      exact isTrimmed_written (hentries e he)
  have hsegments : segments (print base entries).toList = base.toList :: entries.map written := by
    rw [print, String.toList_ofList]
    exact segments_gap_append hparts (List.forall_mem_nil _)
  have hmodifiers : (read (print base entries)).modifiers = Modifiers.empty.insertAll entries := by
    rw [read_eq hsegments, modifiers_readModifiers, entriesOf_map_written hentries]
    rfl
  refine ⟨?_, ?_, ?_, ?_, ?_⟩
  · rw [read_eq hsegments, baseType_readModifiers]
    exact String.ofList_toList
  · rw [hmodifiers, Modifiers.names_insertAll]
  · intro name
    rw [hmodifiers, Modifiers.get?_insertAll]
  · have hrequired := agreesOnRequired_read (print base entries)
    rw [AgreesOnRequired, hmodifiers, Modifiers.get?_insertAll] at hrequired
    exact hrequired
  · rw [isValid_read_iff, IsExpression, hsegments]
    constructor
    · rintro ⟨first, rest, heq, hfirst, -⟩
      obtain ⟨rfl, -⟩ := List.cons.inj heq
      exact hfirst
    · intro hfirst
      exact ⟨_, _, rfl, hfirst, isModifier_of_mem_map_written hentries⟩

theorem read_print_repeatedName :
    isTrimmed "map[a|b]\\".toList = true ∧
      (∀ e ∈ [("size", "a=\\|b\\"), ("required", "no"), ("size", "|"), ("required", "true")],
        isPrintable e = true) ∧
      let printed := print "map[a|b]\\"
        [("size", "a=\\|b\\"), ("required", "no"), ("size", "|"), ("required", "true")]
      (read printed).baseType = "map[a|b]\\" ∧
        (read printed).modifiers.names = ["size", "required"] ∧
        (read printed).modifiers.get? "size" = some "|" ∧
        (read printed).isRequired = true ∧ (read printed).isValid = true := by
  have hbase : isTrimmed "map[a|b]\\".toList = true := by decide
  have hentries : ∀ e ∈ [("size", "a=\\|b\\"), ("required", "no"), ("size", "|"),
      ("required", "true")], isPrintable e = true := by decide
  have hmap : IsBase "map[a|b]\\".toList :=
    @IsBase.map ['a', '|', 'b'] ['\\'] (by simp) (by simp)
  obtain ⟨hread, hnames, hget, hrequired, hvalid⟩ := read_print hbase hentries
  exact ⟨hbase, hentries, hread, hnames.trans (by decide), (hget "size").trans (by decide),
    hrequired.2 (by decide), hvalid.2 hmap⟩

end ResourceGraph.FieldType

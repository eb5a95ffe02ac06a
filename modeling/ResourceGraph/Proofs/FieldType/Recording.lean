import Mathlib.Data.List.Induction
import Mathlib.Data.List.TakeWhile
import ResourceGraph.Proofs.FieldType.Grammar
import ResourceGraph.Proofs.FieldType.Segments

/-!
# Recorded modifiers

Reading a field type goes over the parts after its base and records what they set, up to the first
part that is no modifier (`modifiers_readModifiers`). A name keeps the place at which it was first
recorded and takes the value that was recorded last (`names_insertAll`, `get?_insertAll`), and
whether a field is required is what was recorded for `required` (`agreesOnRequired_read`).

Proves: a text that holds a malformed modifier is read as it is with anything after a further bar,
and one that holds none is read on, with what it recorded kept in its place (`read_append_bar`).
-/

set_option autoImplicit false

namespace ResourceGraph

open Text

namespace Modifiers

variable {name value : String} {m : Modifiers}

/-- The modifiers with the values of some entries set, one after another. -/
def insertAll (m : Modifiers) (entries : List (String × String)) : Modifiers :=
  entries.foldl (fun m e => m.insert e.1 e.2) m

theorem insertAll_append (m : Modifiers) (first second : List (String × String)) :
    m.insertAll (first ++ second) = (m.insertAll first).insertAll second :=
  List.foldl_append

/-- A name that is set anew stays where it is, and another one comes last. -/
theorem names_insert (m : Modifiers) (name value : String) :
    (m.insert name value).names = if name ∈ m.names then m.names else m.names ++ [name] := by
  obtain ⟨entries⟩ := m
  show (insertInto name value entries).map Prod.fst = if name ∈ entries.map Prod.fst then
    entries.map Prod.fst else entries.map Prod.fst ++ [name]
  induction entries with
  | nil => rfl
  | cons e entries ih =>
    obtain ⟨n, v⟩ := e
    rw [insertInto]
    by_cases hn : n = name
    · simp [hn]
    · rw [if_neg hn, List.map_cons, ih]
      by_cases hmem : name ∈ entries.map Prod.fst
      · have hmem' : name ∈ ((n, v) :: entries).map Prod.fst := List.mem_cons_of_mem n hmem
        rw [if_pos hmem, if_pos hmem']
        rfl
      · have hnew : name ∉ ((n, v) :: entries).map Prod.fst := by
          rw [List.map_cons, List.mem_cons, not_or]
          exact ⟨Ne.symm hn, hmem⟩
        rw [if_neg hmem, if_neg hnew]
        rfl

/-- Setting a value leaves those of other names as they are. -/
theorem get?_insert_of_ne {other : String} (h : other ≠ name) :
    (m.insert name value).get? other = m.get? other := by
  obtain ⟨entries⟩ := m
  show (insertInto name value entries).lookup other = entries.lookup other
  have hother : (other == name) = false := beq_eq_false_iff_ne.2 h
  induction entries with
  | nil => rw [insertInto, List.lookup_cons, hother]
  | cons e entries ih =>
    obtain ⟨n, v⟩ := e
    rw [insertInto]
    by_cases hn : n = name
    · rw [if_pos hn, List.lookup_cons, List.lookup_cons, hn, hother]
    · rw [if_neg hn, List.lookup_cons, List.lookup_cons, ih]

theorem names_prefix_insertAll (m : Modifiers) (entries : List (String × String)) :
    m.names <+: (m.insertAll entries).names := by
  induction entries generalizing m with
  | nil => exact List.prefix_rfl
  | cons e entries ih =>
    refine List.IsPrefix.trans ?_ (ih (m.insert e.1 e.2))
    rw [names_insert]
    split
    · exact List.prefix_rfl
    · exact List.prefix_append _ _

/-- **Each name is recorded once, in the order in which the names first come.** -/
theorem names_insertAll (entries : List (String × String)) :
    (empty.insertAll entries).names = (entries.map Prod.fst).eraseDups := by
  -- the last entry adds its name unless one of those before it has it
  induction entries using List.reverseRecOn with
  | nil => rfl
  | append_singleton entries e ih =>
    rw [insertAll_append, List.map_append, List.eraseDups_append, ← ih]
    show ((empty.insertAll entries).insert e.1 e.2).names =
      _ ++ ([e.1].removeAll (entries.map Prod.fst)).eraseDups
    have hmem : e.1 ∈ (empty.insertAll entries).names ↔ e.1 ∈ entries.map Prod.fst := by
      rw [ih, List.mem_eraseDups]
    rw [names_insert]
    by_cases h : e.1 ∈ entries.map Prod.fst
    · rw [if_pos (hmem.2 h)]
      have hdrop : [e.1].removeAll (entries.map Prod.fst) = [] := by simpa [List.removeAll] using h
      rw [hdrop, List.eraseDups_nil, List.append_nil]
    · rw [if_neg (mt hmem.1 h)]
      have hkeep : [e.1].removeAll (entries.map Prod.fst) = [e.1] := by
        simpa [List.removeAll] using h
      rw [hkeep]
      rfl

/-- **The value of a name is the one that was recorded last.** -/
theorem get?_insertAll (entries : List (String × String)) (name : String) :
    (empty.insertAll entries).get? name = entries.reverse.lookup name := by
  -- the last entry decides about its own name
  induction entries using List.reverseRecOn with
  | nil => rfl
  | append_singleton entries e ih =>
    rw [insertAll_append, List.reverse_append]
    show ((empty.insertAll entries).insert e.1 e.2).get? name = (e :: entries.reverse).lookup name
    by_cases h : name = e.1
    · rw [h, get?_insert_self, List.lookup_cons, beq_self_eq_true]
    · rw [get?_insert_of_ne h, ih, List.lookup_cons, beq_eq_false_iff_ne.2 h]

end Modifiers

namespace FieldType

variable {t : FieldType} {part : List Char} {parts : List (List Char)}

/-! ## What is recorded -/

/-- The entries of some parts, up to the first part that is no modifier. -/
def entriesOf (parts : List (List Char)) : List (String × String) :=
  (parts.takeWhile fun part => (modifier? part).isSome).filterMap modifier?

/-- A type with some entries recorded, one after another. -/
def recordAll (t : FieldType) (entries : List (String × String)) : FieldType :=
  entries.foldl (fun t e => t.record e.1 e.2) t

theorem entriesOf_cons_of_none (h : modifier? part = none) (parts : List (List Char)) :
    entriesOf (part :: parts) = [] := by
  rw [entriesOf, List.takeWhile_cons_of_neg (by simp [h])]
  rfl

theorem entriesOf_cons_of_some {e : String × String} (h : modifier? part = some e)
    (parts : List (List Char)) : entriesOf (part :: parts) = e :: entriesOf parts := by
  rw [entriesOf, List.takeWhile_cons_of_pos (by simp [h]), List.filterMap_cons_some h, entriesOf]

theorem modifier?_eq_none_iff : modifier? part = none ↔ ¬IsModifier part := by
  rw [← modifier?_isSome_iff, Option.not_isSome_iff_eq_none]

theorem exists_modifier?_of_isModifier (h : IsModifier part) : ∃ e, modifier? part = some e :=
  Option.isSome_iff_exists.1 (modifier?_isSome_iff.2 h)

theorem exists_malformed_of_cons (h : ∃ p ∈ part :: parts, ¬IsModifier p)
    (hpart : IsModifier part) : ∃ p ∈ parts, ¬IsModifier p := by
  obtain ⟨p, hmem, hp⟩ := h
  rcases List.mem_cons.1 hmem with rfl | hmem
  · exact absurd hpart hp
  · exact ⟨p, hmem, hp⟩

/-- What stands after a malformed modifier is not recorded. -/
theorem entriesOf_append_of_malformed (h : ∃ part ∈ parts, ¬IsModifier part)
    (more : List (List Char)) : entriesOf (parts ++ more) = entriesOf parts := by
  induction parts with
  | nil => exact absurd h (by simp)
  | cons part parts ih =>
    by_cases hpart : IsModifier part
    · obtain ⟨e, he⟩ := exists_modifier?_of_isModifier hpart
      rw [List.cons_append, entriesOf_cons_of_some he, entriesOf_cons_of_some he,
        ih (exists_malformed_of_cons h hpart)]
    · have hnone := modifier?_eq_none_iff.2 hpart
      rw [List.cons_append, entriesOf_cons_of_none hnone, entriesOf_cons_of_none hnone]

theorem entriesOf_append_of_forall (h : ∀ part ∈ parts, IsModifier part)
    (more : List (List Char)) : entriesOf (parts ++ more) = entriesOf parts ++ entriesOf more := by
  induction parts with
  | nil => rfl
  | cons part parts ih =>
    obtain ⟨hpart, hrest⟩ := List.forall_mem_cons.1 h
    obtain ⟨e, he⟩ := exists_modifier?_of_isModifier hpart
    rw [List.cons_append, entriesOf_cons_of_some he, entriesOf_cons_of_some he, ih hrest,
      List.cons_append]

theorem modifiers_recordAll (t : FieldType) (entries : List (String × String)) :
    (t.recordAll entries).modifiers = t.modifiers.insertAll entries := by
  induction entries generalizing t with
  | nil => rfl
  | cons e entries ih => exact ih (t.record e.1 e.2)

/-! ## Reading -/

theorem segments_ne_nil (text : List Char) : segments text ≠ [] := by
  rw [segments, Ne, List.map_eq_nil_iff]
  exact splitBars_ne_nil text

/-- Parts that are modifiers are all recorded, and the type is valid if its base is. -/
theorem readModifiers_of_forall (h : ∀ part ∈ parts, IsModifier part) (baseIsValid : Bool)
    (t : FieldType) : readModifiers baseIsValid parts t =
      { t.recordAll (entriesOf parts) with isValid := baseIsValid } := by
  induction parts generalizing t with
  | nil => rfl
  | cons part parts ih =>
    obtain ⟨hpart, hrest⟩ := List.forall_mem_cons.1 h
    obtain ⟨e, he⟩ := exists_modifier?_of_isModifier hpart
    rw [readModifiers, he, entriesOf_cons_of_some he]
    exact ih hrest (t.record e.1 e.2)

/-- Reading stops at a malformed modifier, with what was recorded before it. -/
theorem readModifiers_of_malformed (h : ∃ part ∈ parts, ¬IsModifier part) (baseIsValid : Bool)
    (t : FieldType) : readModifiers baseIsValid parts t = t.recordAll (entriesOf parts) := by
  induction parts generalizing t with
  | nil => exact absurd h (by simp)
  | cons part parts ih =>
    by_cases hpart : IsModifier part
    · obtain ⟨e, he⟩ := exists_modifier?_of_isModifier hpart
      rw [readModifiers, he, entriesOf_cons_of_some he]
      exact ih (exists_malformed_of_cons h hpart) (t.record e.1 e.2)
    · have hnone := modifier?_eq_none_iff.2 hpart
      rw [readModifiers, hnone, entriesOf_cons_of_none hnone]
      rfl

/-- **Reading records what the parts set, up to the first that is no modifier.** -/
theorem modifiers_readModifiers (baseIsValid : Bool) (parts : List (List Char)) (t : FieldType) :
    (readModifiers baseIsValid parts t).modifiers = t.modifiers.insertAll (entriesOf parts) := by
  rw [← modifiers_recordAll]
  by_cases h : ∀ part ∈ parts, IsModifier part
  · rw [readModifiers_of_forall h]
  · have hbad : ∃ part ∈ parts, ¬IsModifier part := by simpa using h
    rw [readModifiers_of_malformed hbad]

/-- A text is read as its first part and modifiers. A blank text has one part, and what is read from
it is no type. -/
theorem read_eq {text : String} {base : List Char} (h : segments text.toList = base :: parts) :
    read text = readModifiers (baseKind (String.ofList base) != .unknown) parts
      { blank with baseType := String.ofList base } := by
  rw [read]
  split
  · -- an empty base is no type, so the blank text agrees with its one part
    rename_i hblank
    have htrim := List.isEmpty_iff.1 hblank
    have hone : segments text.toList = [[]] := by
      rw [segments, splitBars_of_forall_isBlank (forall_isBlank_of_trim_eq_nil htrim),
        List.map_singleton, htrim]
    rw [hone] at h
    obtain ⟨rfl, rfl⟩ := List.cons.inj h
    rfl
  · rw [h]

/-- The names that the parts of a text after its first one set, in the order they are written in. -/
def writtenNames (text : String) : List String :=
  (segments text.toList).tail.filterMap fun part => (modifier? part).map Prod.fst

theorem entriesOf_of_forall (h : ∀ part ∈ parts, IsModifier part) :
    entriesOf parts = parts.filterMap modifier? := by
  have hall : (parts.takeWhile fun part => (modifier? part).isSome) = parts := by
    apply List.takeWhile_eq_self_iff.2
    intro part hpart
    exact modifier?_isSome_iff.2 (h part hpart)
  rw [entriesOf, hall]

/-- **A type expression records each name that is written in it once, in the order in which the
names first come.** -/
theorem names_read {text : String} (h : IsExpression text) :
    (read text).modifiers.names = (writtenNames text).eraseDups := by
  obtain ⟨base, parts, hparts, -, hall⟩ := h
  have hnames : writtenNames text = (entriesOf parts).map Prod.fst := by
    rw [writtenNames, hparts, entriesOf_of_forall hall, List.map_filterMap]
    rfl
  rw [read_eq hparts, modifiers_readModifiers, hnames]
  exact Modifiers.names_insertAll (entriesOf parts)

/-- Whether a field is required exactly if `true` is recorded for `required`. -/
def AgreesOnRequired (t : FieldType) : Prop :=
  t.isRequired = true ↔ t.modifiers.get? "required" = some "true"

theorem AgreesOnRequired.record (h : t.AgreesOnRequired) (name value : String) :
    (t.record name value).AgreesOnRequired := by
  rw [AgreesOnRequired, FieldType.record]
  by_cases hname : name = "required"
  · rw [if_pos hname, hname, Modifiers.get?_insert_self, beq_iff_eq, Option.some.injEq]
  · rw [if_neg hname, Modifiers.get?_insert_of_ne (Ne.symm hname)]
    exact h

theorem AgreesOnRequired.readModifiers (h : t.AgreesOnRequired) (baseIsValid : Bool)
    (parts : List (List Char)) : (readModifiers baseIsValid parts t).AgreesOnRequired := by
  induction parts generalizing t with
  | nil => exact h
  | cons part parts ih =>
    rw [FieldType.readModifiers]
    cases modifier? part with
    | none => exact h
    | some e => exact ih (h.record e.1 e.2)

/-- **Whether a field is required is what was recorded for `required`**, also for a text that does
not follow the grammar. -/
theorem agreesOnRequired_read (text : String) : (read text).AgreesOnRequired := by
  have hblank : ∀ base, AgreesOnRequired { blank with baseType := base } := by
    intro base
    simp [AgreesOnRequired, blank, Modifiers.get?, Modifiers.empty]
  obtain ⟨base, parts, hparts⟩ := List.exists_cons_of_ne_nil (segments_ne_nil text.toList)
  rw [read_eq hparts]
  exact (hblank _).readModifiers _ _

/-! ## Reading on -/

/-- **Reading commits at the first malformed modifier.** A text that holds one is read as it is with
anything after a further bar. A text that holds none is read on: its names stay the first ones, and
the longer text is valid exactly if the text is and what is added holds modifiers only. What is
recorded for `required` decides in every case whether a field is required. -/
theorem read_append_bar {s : String} (hs : s.toList.getLast? ≠ some '\\') (t : String) :
    ((∃ part ∈ (segments s.toList).tail, ¬IsModifier part) → read (s ++ "|" ++ t) = read s) ∧
      ((∀ part ∈ (segments s.toList).tail, IsModifier part) →
        (read s).modifiers.names <+: (read (s ++ "|" ++ t)).modifiers.names ∧
          ((read (s ++ "|" ++ t)).isValid = true ↔
            (read s).isValid = true ∧ ∀ part ∈ segments t.toList, IsModifier part)) ∧
      ∀ text : String, ((read text).isRequired = true ↔
        (read text).modifiers.get? "required" = some "true") := by
  have happend : segments (s ++ "|" ++ t).toList = segments s.toList ++ segments t.toList := by
    have htext : (s ++ "|" ++ t).toList = s.toList ++ '|' :: t.toList := by simp
    rw [segments, htext, splitBars_append hs, List.map_append, segments, segments]
  obtain ⟨base, parts, hparts⟩ := List.exists_cons_of_ne_nil (segments_ne_nil s.toList)
  rw [hparts, List.cons_append] at happend
  rw [hparts, List.tail_cons]
  refine ⟨?_, ?_, agreesOnRequired_read⟩
  · intro hbad
    have hlonger : ∃ part ∈ parts ++ segments t.toList, ¬IsModifier part := by
      obtain ⟨part, hmem, hpart⟩ := hbad
      exact ⟨part, List.mem_append_left _ hmem, hpart⟩
    rw [read_eq happend, read_eq hparts, readModifiers_of_malformed hlonger,
      readModifiers_of_malformed hbad, entriesOf_append_of_malformed hbad]
  · intro hall
    constructor
    · rw [read_eq happend, read_eq hparts, modifiers_readModifiers, modifiers_readModifiers,
        entriesOf_append_of_forall hall, Modifiers.insertAll_append]
      exact Modifiers.names_prefix_insertAll _ _
    · rw [isValid_read_iff, isValid_read_iff, IsExpression, IsExpression, happend, hparts]
      constructor
      · rintro ⟨first, rest, heq, hbase, hrest⟩
        obtain ⟨rfl, rfl⟩ := List.cons.inj heq
        rw [List.forall_mem_append] at hrest
        exact ⟨⟨base, parts, rfl, hbase, hrest.1⟩, hrest.2⟩
      · rintro ⟨⟨first, rest, heq, hbase, hrest⟩, hmore⟩
        obtain ⟨rfl, rfl⟩ := List.cons.inj heq
        exact ⟨base, parts ++ segments t.toList, rfl, hbase,
          List.forall_mem_append.2 ⟨hrest, hmore⟩⟩

theorem read_append_bar_malformedSize :
    ("string | size=1".toList.getLast? ≠ some '\\' ∧
      (∀ part ∈ (segments "string | size=1".toList).tail, IsModifier part) ∧
      (read "string | size=1").modifiers.names <+:
        (read ("string | size=1" ++ "|" ++ " default=a\\|b | size=2")).modifiers.names ∧
      (read ("string | size=1" ++ "|" ++ " default=a\\|b | size=2")).isValid = true) ∧
    "string | size | required".toList.getLast? ≠ some '\\' ∧
      (∃ part ∈ (segments "string | size | required".toList).tail, ¬IsModifier part) ∧
      read ("string | size | required" ++ "|" ++ " size=2") = read "string | size | required" := by
  have hsized : "string | size=1".toList.getLast? ≠ some '\\' := by decide
  have hunsized : "string | size | required".toList.getLast? ≠ some '\\' := by decide
  have hall : ∀ part ∈ (segments "string | size=1".toList).tail, IsModifier part := by
    simp only [← modifier?_isSome_iff]
    decide
  have hmore : ∀ part ∈ segments " default=a\\|b | size=2".toList, IsModifier part := by
    simp only [← modifier?_isSome_iff]
    decide
  have hbad : ∃ part ∈ (segments "string | size | required".toList).tail, ¬IsModifier part := by
    simp only [← modifier?_isSome_iff]
    decide
  obtain ⟨hnames, hvalid⟩ := (read_append_bar hsized " default=a\\|b | size=2").2.1 hall
  have hbefore : (read "string | size=1").isValid = true := by decide
  exact ⟨⟨hsized, hall, hnames, hvalid.2 ⟨hbefore, hmore⟩⟩, hunsized, hbad,
    (read_append_bar hunsized " size=2").1 hbad⟩

end FieldType

end ResourceGraph

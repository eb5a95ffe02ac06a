import ResourceGraph.Proofs.Text.Word

/-!
# The grammar of field types

A field type is a base type and modifiers between bars. `IsExpression` states the grammar of base
types and modifiers by what they are written of; reading a text decides it (`isValid_read_iff`), and
the base of a valid type has a known form (`kind_read_ne_unknown`).
-/

set_option autoImplicit false

namespace ResourceGraph

open Text

namespace Text

theorem forall_isBlank_of_trim_eq_nil {cs : List Char} (h : trim cs = []) :
    ∀ c ∈ cs, isBlank c = true := by
  induction cs with
  | nil => simp
  | cons c cs ih =>
    cases hc : isBlank c with
    | true =>
      have htrim : trim (c :: cs) = trim cs := by simp [trim, trimStart, hc]
      rw [htrim] at h
      intro d hd
      rcases List.mem_cons.1 hd with rfl | hd
      · exact hc
      · exact ih h d hd
    | false =>
      have htrim : trim (c :: cs) = dropTail isBlank (c :: cs) := by
        simp [trim, trimStart, trimEnd, hc]
      rw [htrim, dropTail] at h
      split at h
      · simp [hc] at h
      · simp at h

end Text

namespace FieldType

/-- How base types are written. Element, key and value types are not looked into. -/
inductive IsBase : List Char → Prop
  | primitive {name : String} : name ∈ primitives → IsBase name.toList
  | array {inner : List Char} : inner ≠ [] → IsBase ('[' :: ']' :: inner)
  | map {key value : List Char} : key ≠ [] → value ≠ [] →
    IsBase ('m' :: 'a' :: 'p' :: '[' :: key ++ ']' :: value)

/-- How modifiers are written: the word `required`, or a name and a value that is not blank. -/
inductive IsModifier : List Char → Prop
  | required : IsModifier "required".toList
  | setting {name gap value : List Char} : Block.isWord name = true →
    (∀ c ∈ gap, isBlank c = true) → (∃ c ∈ value, isBlank c = false) →
    IsModifier (name ++ gap ++ '=' :: value)

/-- A type expression: its first part is a base type, and its other parts are modifiers. -/
def IsExpression (text : String) : Prop :=
  ∃ base modifiers, segments text.toList = base :: modifiers ∧ IsBase base ∧
    ∀ m ∈ modifiers, IsModifier m

/-! ## Base types -/

theorem isArray_iff {cs : List Char} :
    isArray cs = true ↔ ∃ inner, inner ≠ [] ∧ cs = '[' :: ']' :: inner := by
  constructor
  · intro h
    unfold isArray at h
    split at h
    · rename_i inner
      exact ⟨inner, by simpa using h, rfl⟩
    · simp at h
  · rintro ⟨inner, hinner, rfl⟩
    simpa [isArray] using hinner

theorem closesKey_iff {cs : List Char} :
    closesKey cs = true ↔ ∃ key value, value ≠ [] ∧ cs = key ++ ']' :: value := by
  induction cs with
  | nil => simp [closesKey]
  | cons c cs ih =>
    rw [closesKey, Bool.or_eq_true, Bool.and_eq_true, beq_iff_eq, ih]
    constructor
    · rintro (⟨rfl, hne⟩ | ⟨key, value, hvalue, rfl⟩)
      · exact ⟨[], cs, by simpa using hne, rfl⟩
      · exact ⟨c :: key, value, hvalue, rfl⟩
    · rintro ⟨key, value, hvalue, hcs⟩
      cases key with
      | nil =>
        obtain ⟨rfl, rfl⟩ := List.cons.inj hcs
        exact Or.inl ⟨rfl, by simpa using hvalue⟩
      | cons d key =>
        obtain ⟨rfl, rfl⟩ := List.cons.inj hcs
        exact Or.inr ⟨key, value, hvalue, rfl⟩

theorem isMap_iff {cs : List Char} : isMap cs = true ↔
    ∃ key value, key ≠ [] ∧ value ≠ [] ∧
      cs = 'm' :: 'a' :: 'p' :: '[' :: key ++ ']' :: value := by
  constructor
  · intro h
    unfold isMap at h
    split at h
    · rename_i c rest
      obtain ⟨key, value, hvalue, rfl⟩ := closesKey_iff.1 h
      exact ⟨c :: key, value, by simp, hvalue, rfl⟩
    · simp at h
  · rintro ⟨key, value, hkey, hvalue, rfl⟩
    obtain ⟨c, key, rfl⟩ := List.exists_cons_of_ne_nil hkey
    exact closesKey_iff.2 ⟨key, value, hvalue, rfl⟩

/-- A base type has a known form exactly if it is written as one. -/
theorem baseKind_ne_unknown_iff {cs : List Char} :
    baseKind (String.ofList cs) ≠ .unknown ↔ IsBase cs := by
  rw [baseKind, String.toList_ofList]
  constructor
  · intro h
    split at h
    · rename_i hprimitive
      rw [← String.toList_ofList (l := cs)]
      exact .primitive (List.contains_iff_mem.1 hprimitive)
    · split at h
      · rename_i harray
        obtain ⟨inner, hinner, rfl⟩ := isArray_iff.1 harray
        exact .array hinner
      · split at h
        · rename_i hmap
          obtain ⟨key, value, hkey, hvalue, rfl⟩ := isMap_iff.1 hmap
          exact .map hkey hvalue
        · exact absurd rfl h
  · intro h
    cases h with
    | primitive hname =>
      rw [String.ofList_toList, if_pos (List.contains_iff_mem.2 hname)]
      simp
    | array hinner =>
      rw [isArray_iff.2 ⟨_, hinner, rfl⟩]
      split <;> simp
    | map hkey hvalue =>
      rw [isMap_iff.2 ⟨_, _, hkey, hvalue, rfl⟩]
      split
      · simp
      · split <;> simp

theorem ne_nil_of_isBase {cs : List Char} (h : IsBase cs) : cs ≠ [] := by
  cases h with
  | primitive hname =>
    simp only [primitives, List.mem_cons, List.not_mem_nil, or_false] at hname
    rcases hname with rfl | rfl | rfl | rfl <;> simp
  | array hinner => simp
  | map hkey hvalue => simp

/-! ## Modifiers -/

theorem isModifier_of_modifier? {cs : List Char} (h : (modifier? cs).isSome = true) :
    IsModifier cs := by
  unfold modifier? at h
  split at h
  · rename_i hrequired
    rw [hrequired]
    exact .required
  · split at h
    · simp at h
    · rename_i left right hcut
      -- the name is what stands before the sign, less the blanks at its end
      obtain ⟨gap, hleft, hgap⟩ := dropTail_append isBlank left
      simp only at h
      split at h
      · rename_i hform
        rw [Bool.and_eq_true, Bool.and_eq_true] at hform
        rw [cutAt?_eq_some hcut, hleft]
        refine .setting ?_ hgap ?_
        · rw [Block.isWord, Bool.and_eq_true]
          exact hform.1
        · have hvalue : trimStart right ≠ [] := by simpa using hform.2
          simpa [trimStart_eq_nil_iff] using hvalue
      · simp at h

/-- A name and a value are read from what is written as one. -/
theorem modifier?_setting {name gap value : List Char} (hname : Block.isWord name = true)
    (hgap : ∀ c ∈ gap, isBlank c = true) (hvalue : ∃ c ∈ value, isBlank c = false) :
    modifier? (name ++ gap ++ '=' :: value) =
      some (String.ofList name, String.ofList (trimStart value)) := by
  have hword := (Block.isWord_iff.1 hname).2
  -- neither a word nor blanks hold the sign, so the text is cut right after them
  have hequals : '=' ∉ name ++ gap := by
    intro hmem
    rcases List.mem_append.1 hmem with hmem | hmem
    · exact absurd (hword _ hmem) (by decide)
    · exact absurd (hgap _ hmem) (by decide)
  have htrim : trimEnd (name ++ gap) = name := by
    obtain ⟨before, c, happend, hc⟩ := Block.exists_append_of_isWord hname
    rw [trimEnd_append_blank name hgap, happend]
    exact dropTail_append_singleton before hc
  have hstart : trimStart value ≠ [] := by simpa [trimStart_eq_nil_iff] using hvalue
  have hform : (!name.isEmpty && name.all isWordChar && !(trimStart value).isEmpty) = true := by
    rw [Bool.and_eq_true]
    exact ⟨hname, by simpa using hstart⟩
  have hother : name ++ gap ++ '=' :: value ≠ "required".toList := by
    intro heq
    have hmem : '=' ∈ "required".toList := by
      rw [← heq]
      simp
    exact absurd hmem (by decide)
  rw [modifier?, if_neg hother, cutAt?_append hequals]
  simp only [htrim, hform, if_true]

/-- A modifier is read from a part exactly if the part is written as one. -/
theorem modifier?_isSome_iff {cs : List Char} : (modifier? cs).isSome = true ↔ IsModifier cs := by
  constructor
  · exact isModifier_of_modifier?
  · intro h
    cases h with
    | required => rfl
    | setting hname hgap hvalue =>
      rw [modifier?_setting hname hgap hvalue]
      rfl

/-! ## Reading -/

theorem isValid_readModifiers {baseIsValid : Bool} {parts : List (List Char)} {t : FieldType}
    (ht : t.isValid = false) :
    (readModifiers baseIsValid parts t).isValid = true ↔
      baseIsValid = true ∧ ∀ part ∈ parts, IsModifier part := by
  induction parts generalizing t with
  | nil => simp [readModifiers]
  | cons part parts ih =>
    -- reading stops at the first part that is no modifier, with the validity it began with
    rw [readModifiers, List.forall_mem_cons, ← modifier?_isSome_iff]
    cases hpart : modifier? part with
    | none => simp [ht]
    | some entry =>
      obtain ⟨name, value⟩ := entry
      have hrecord : (t.record name value).isValid = false := ht
      rw [ih hrecord]
      simp

theorem baseType_readModifiers (baseIsValid : Bool) (parts : List (List Char)) (t : FieldType) :
    (readModifiers baseIsValid parts t).baseType = t.baseType := by
  induction parts generalizing t with
  | nil => rfl
  | cons part parts ih =>
    rw [readModifiers]
    cases modifier? part with
    | none => rfl
    | some entry => exact ih (t.record entry.1 entry.2)

theorem splitBars_of_forall_isBlank {cs : List Char} (h : ∀ c ∈ cs, isBlank c = true) :
    splitBars cs = [cs] := by
  induction cs with
  | nil => rfl
  | cons c cs ih =>
    have hc := h c List.mem_cons_self
    have hrest : splitBars cs = [cs] := by
      apply ih
      intro d hd
      exact h d (List.mem_cons_of_mem _ hd)
    have hbar : c ≠ '|' := by
      rintro rfl
      exact absurd hc (by decide)
    have hescape : c ≠ '\\' := by
      rintro rfl
      exact absurd hc (by decide)
    -- neither of the marks that are looked for is a blank
    unfold splitBars
    split
    · contradiction
    · rename_i heq
      exact absurd (List.cons.inj heq).1 hescape
    · rename_i heq
      exact absurd (List.cons.inj heq).1 hbar
    · rename_i heq
      obtain ⟨rfl, rfl⟩ := List.cons.inj heq
      rw [hrest, consFirst]

/-- **Reading decides the grammar.** -/
theorem isValid_read_iff {text : String} : (read text).isValid = true ↔ IsExpression text := by
  unfold read IsExpression
  split
  · rename_i hblank
    -- a blank text has one part, the empty one, which is no base type
    have hall := forall_isBlank_of_trim_eq_nil (List.isEmpty_iff.1 hblank)
    have hsegments : segments text.toList = [[]] := by
      rw [segments, splitBars_of_forall_isBlank hall, List.map_singleton, List.isEmpty_iff.1 hblank]
    constructor
    · intro h
      simp [blank] at h
    · rintro ⟨base, modifiers, hparts, hbase, -⟩
      rw [hsegments] at hparts
      obtain ⟨rfl, -⟩ := List.cons.inj hparts
      exact absurd rfl (ne_nil_of_isBase hbase)
  · split
    · rename_i hsegments
      rw [hsegments]
      simp [blank]
    · rename_i first rest hsegments
      rw [isValid_readModifiers rfl, bne_iff_ne, baseKind_ne_unknown_iff, hsegments]
      constructor
      · rintro ⟨hbase, hrest⟩
        exact ⟨first, rest, rfl, hbase, hrest⟩
      · rintro ⟨base, modifiers, hparts, hbase, hmodifiers⟩
        obtain ⟨rfl, rfl⟩ := List.cons.inj hparts
        exact ⟨hbase, hmodifiers⟩

instance (text : String) : Decidable (IsExpression text) :=
  decidable_of_iff ((read text).isValid = true) isValid_read_iff

/-- The base of a valid type has a known form. -/
theorem kind_read_ne_unknown {text : String} (h : (read text).isValid = true) :
    (read text).kind ≠ .unknown := by
  unfold read at h ⊢
  split at h
  · simp [blank] at h
  · rename_i hblank
    rw [if_neg hblank]
    split at h
    · simp [blank] at h
    · rename_i first rest hsegments
      rw [kind, baseType_readModifiers]
      exact bne_iff_ne.1 ((isValid_readModifiers rfl).1 h).1

end FieldType

end ResourceGraph

/-!
# Splitting at a separator

Cutting a text at every occurrence of one character, and the text that joining the parts gives back.

Proves: joining the parts with the separator restores the text, no part holds the separator, and
parts without the separator are what their join splits into.
-/

set_option autoImplicit false

namespace ResourceGraph.Text

/-- The parts of a text between the occurrences of a separator; there is always at least one. -/
def splitOn (sep : Char) : List Char → List (List Char)
  | [] => [[]]
  | c :: cs =>
    if c = sep then [] :: splitOn sep cs
    else match splitOn sep cs with
      | [] => [[c]]
      | part :: parts => (c :: part) :: parts

/-- The parts, with a separator between each two. -/
def joinWith (sep : List Char) : List (List Char) → List Char
  | [] => []
  | [part] => part
  | part :: parts => part ++ sep ++ joinWith sep parts

/-- A text cut at the first occurrence of a separator, which is dropped. -/
def cutAt? (sep : Char) : List Char → Option (List Char × List Char)
  | [] => none
  | c :: cs =>
    if c = sep then some ([], cs)
    else (cutAt? sep cs).map fun (head, rest) => (c :: head, rest)

theorem splitOn_ne_nil (sep : Char) (cs : List Char) : splitOn sep cs ≠ [] := by
  cases cs with
  | nil => simp [splitOn]
  | cons c cs =>
    unfold splitOn
    split
    · simp
    · split <;> simp

/-- **Joining the parts restores the text.** -/
theorem joinWith_splitOn (sep : Char) (cs : List Char) :
    joinWith [sep] (splitOn sep cs) = cs := by
  induction cs with
  | nil => rfl
  | cons c cs ih =>
    unfold splitOn
    cases hparts : splitOn sep cs with
    | nil => exact absurd hparts (splitOn_ne_nil sep cs)
    | cons part parts =>
      rw [hparts] at ih
      by_cases hc : c = sep
      · simp [hc, joinWith, ih]
      · cases parts with
        | nil => simp_all [joinWith]
        | cons next parts => simp_all [joinWith]

/-- No part holds the separator. -/
theorem not_mem_of_mem_splitOn {sep : Char} {cs part : List Char} (h : part ∈ splitOn sep cs) :
    sep ∉ part := by
  induction cs generalizing part with
  | nil => simp_all [splitOn]
  | cons c cs ih =>
    unfold splitOn at h
    cases hparts : splitOn sep cs with
    | nil => exact absurd hparts (splitOn_ne_nil sep cs)
    | cons first rest =>
      rw [hparts] at h ih
      by_cases hc : c = sep
      · simp only [hc, if_true, List.mem_cons] at h
        rcases h with rfl | rfl | h
        · simp
        · exact ih (by simp)
        · exact ih (by simp [h])
      · simp only [hc, if_false, List.mem_cons] at h
        rcases h with rfl | h
        · simp only [List.mem_cons, not_or]
          exact ⟨fun heq => hc heq.symm, ih (by simp)⟩
        · exact ih (by simp [h])

theorem splitOn_of_not_mem {sep : Char} {part : List Char} (h : sep ∉ part) :
    splitOn sep part = [part] := by
  induction part with
  | nil => rfl
  | cons c part ih =>
    rw [List.mem_cons, not_or] at h
    rw [splitOn, if_neg (Ne.symm h.1), ih h.2]

/-- Splitting takes the part up to the first separator off. -/
theorem splitOn_append {sep : Char} {part : List Char} (h : sep ∉ part) (rest : List Char) :
    splitOn sep (part ++ sep :: rest) = part :: splitOn sep rest := by
  induction part with
  | nil => simp [splitOn]
  | cons c part ih =>
    rw [List.mem_cons, not_or] at h
    rw [List.cons_append, splitOn, if_neg (Ne.symm h.1), ih h.2]

/-- **Parts without the separator are what their join splits into.** -/
theorem splitOn_joinWith {sep : Char} {part : List Char} {parts : List (List Char)}
    (h : ∀ p ∈ part :: parts, sep ∉ p) :
    splitOn sep (joinWith [sep] (part :: parts)) = part :: parts := by
  induction parts generalizing part with
  | nil => exact splitOn_of_not_mem (h part List.mem_cons_self)
  | cons next parts ih =>
    have hrest : ∀ p ∈ next :: parts, sep ∉ p := fun p hp => h p (List.mem_cons_of_mem part hp)
    show splitOn sep (part ++ [sep] ++ joinWith [sep] (next :: parts)) = _
    rw [List.append_assoc, List.singleton_append, splitOn_append (h part List.mem_cons_self),
      ih hrest]

theorem cutAt?_eq_some {sep : Char} {cs head rest : List Char}
    (h : cutAt? sep cs = some (head, rest)) : cs = head ++ sep :: rest := by
  induction cs generalizing head with
  | nil => simp [cutAt?] at h
  | cons c cs ih =>
    unfold cutAt? at h
    split at h
    · rename_i hc
      simp only [Option.some.injEq, Prod.mk.injEq] at h
      obtain ⟨rfl, rfl⟩ := h
      simp [hc]
    · obtain ⟨⟨head', rest'⟩, hsplit, heq⟩ := Option.map_eq_some_iff.1 h
      simp only [Prod.mk.injEq] at heq
      obtain ⟨rfl, rfl⟩ := heq
      simp [ih hsplit]

theorem cutAt?_append {sep : Char} {head : List Char} (h : sep ∉ head) (rest : List Char) :
    cutAt? sep (head ++ sep :: rest) = some (head, rest) := by
  induction head with
  | nil => simp [cutAt?]
  | cons c head ih =>
    rw [List.mem_cons, not_or] at h
    have hc : c ≠ sep := by
      rintro rfl
      exact h.1 rfl
    rw [List.cons_append, cutAt?, if_neg hc, ih h.2]
    rfl

theorem not_mem_of_cutAt? {sep : Char} {cs head rest : List Char}
    (h : cutAt? sep cs = some (head, rest)) : sep ∉ head := by
  induction cs generalizing head with
  | nil => simp [cutAt?] at h
  | cons c cs ih =>
    unfold cutAt? at h
    split at h
    · simp only [Option.some.injEq, Prod.mk.injEq] at h
      simp [← h.1]
    · rename_i hc
      obtain ⟨⟨head', rest'⟩, hsplit, heq⟩ := Option.map_eq_some_iff.1 h
      simp only [Prod.mk.injEq] at heq
      obtain ⟨rfl, rfl⟩ := heq
      rw [List.mem_cons, not_or]
      exact ⟨fun heq => hc heq.symm, ih hsplit⟩

end ResourceGraph.Text

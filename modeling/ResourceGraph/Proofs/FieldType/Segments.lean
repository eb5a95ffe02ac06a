import ResourceGraph.FieldType
import ResourceGraph.Proofs.Text.Solid

/-!
# Segments of field types

A bar parts two segments unless a backslash stands before it. Written out, a segment has a backslash
before each of its own bars (`escapeBars`), and a written segment is read back from any text that
begins with it and the bar that ends it, if it does not end in a backslash itself.

Proves: two texts with a bar between them have the parts of both (`splitBars_append`), and the parts
of a text are the one list of parts that, written out with bars between them, give the text, with a
backslash at the end of none but the last (`splitBars_eq_iff`).
-/

set_option autoImplicit false

namespace ResourceGraph.FieldType

open Text

/-- A part of a text with a backslash before each of its bars. -/
def escapeBars (part : List Char) : List Char :=
  part.flatMap fun c => if c = '|' then ['\\', '|'] else [c]

theorem escapeBars_cons (c : Char) (cs : List Char) :
    escapeBars (c :: cs) = (if c = '|' then ['\\', '|'] else [c]) ++ escapeBars cs :=
  List.flatMap_cons

theorem escapeBars_append (as bs : List Char) :
    escapeBars (as ++ bs) = escapeBars as ++ escapeBars bs :=
  List.flatMap_append

/-- What is written out begins with no bar. -/
theorem escapeBars_ne_cons (cs rest : List Char) : escapeBars cs ≠ '|' :: rest := by
  cases cs with
  | nil => simp [escapeBars]
  | cons c cs =>
    rw [escapeBars_cons]
    by_cases hc : c = '|'
    · simp [hc]
    · simp [hc]

/-! ## Splitting -/

theorem splitBars_ne_nil (cs : List Char) : splitBars cs ≠ [] := by
  unfold splitBars
  split
  · exact List.cons_ne_nil _ _
  · rename_i cs
    cases splitBars cs <;> exact List.cons_ne_nil _ _
  · exact List.cons_ne_nil _ _
  · rename_i cs _ _
    cases splitBars cs <;> exact List.cons_ne_nil _ _

/-- A character that is no bar, and no backslash before one, belongs to its part. -/
theorem splitBars_cons {c : Char} {cs : List Char} (hbar : c ≠ '|')
    (hescape : ∀ rest, c = '\\' → cs ≠ '|' :: rest) :
    splitBars (c :: cs) = consFirst c (splitBars cs) := by
  rw [splitBars]
  · exact hescape
  · exact hbar

theorem consFirst_append (c : Char) {parts : List (List Char)} (h : parts ≠ [])
    (more : List (List Char)) : consFirst c (parts ++ more) = consFirst c parts ++ more := by
  cases parts with
  | nil => exact absurd rfl h
  | cons part parts => rfl

/-- **Two texts with a bar between them have the parts of both**, if no backslash takes the bar. -/
theorem splitBars_append {s : List Char} (h : s.getLast? ≠ some '\\') (t : List Char) :
    splitBars (s ++ '|' :: t) = splitBars s ++ splitBars t := by
  induction s using splitBars.induct with
  | case1 => rfl
  | case2 cs ih =>
    have hrest : cs.getLast? ≠ some '\\' := by
      intro hlast
      apply h
      rw [List.getLast?_cons, List.getLast?_cons, hlast]
      rfl
    rw [List.cons_append, List.cons_append, splitBars, splitBars, ih hrest,
      consFirst_append _ (splitBars_ne_nil cs)]
  | case3 cs ih =>
    have hrest : cs.getLast? ≠ some '\\' := by
      intro hlast
      apply h
      rw [List.getLast?_cons, hlast]
      rfl
    rw [List.cons_append, splitBars, splitBars, ih hrest, List.cons_append]
  | case4 c cs hescape hbar ih =>
    cases cs with
    | nil =>
      -- the last character of the first text is no backslash, so the bar after it parts
      have hc : c ≠ '\\' := by
        rintro rfl
        exact h rfl
      rw [List.singleton_append, splitBars_cons hbar (fun _ heq => absurd heq hc),
        splitBars_cons hbar hescape]
      rfl
    | cons d ds =>
      have hlonger : ∀ rest, c = '\\' → d :: (ds ++ '|' :: t) ≠ '|' :: rest := by
        intro rest hc heq
        rw [(List.cons.inj heq).1] at hescape
        exact hescape ds hc rfl
      have hrest : (d :: ds).getLast? ≠ some '\\' := by
        rwa [List.getLast?_cons_cons] at h
      rw [splitBars_cons hbar hescape, ← consFirst_append _ (splitBars_ne_nil (d :: ds)),
        ← ih hrest]
      exact splitBars_cons hbar hlonger

/-! ## Writing out and splitting -/

/-- A part that is written out is read back as the one part. -/
theorem splitBars_escapeBars (part : List Char) : splitBars (escapeBars part) = [part] := by
  induction part with
  | nil => rfl
  | cons c cs ih =>
    rw [escapeBars_cons]
    by_cases hc : c = '|'
    · rw [if_pos hc, hc]
      show consFirst '|' (splitBars (escapeBars cs)) = _
      rw [ih, consFirst]
    · have hescape : ∀ rest, c = '\\' → escapeBars cs ≠ '|' :: rest := by
        intro rest _
        exact escapeBars_ne_cons cs rest
      rw [if_neg hc, List.singleton_append, splitBars_cons hc hescape, ih, consFirst]

/-- Writing out keeps whether a part ends in a backslash. -/
theorem getLast?_escapeBars_ne {part : List Char} (h : part.getLast? ≠ some '\\') :
    (escapeBars part).getLast? ≠ some '\\' := by
  rcases List.eq_nil_or_concat part with rfl | ⟨before, c, rfl⟩
  · exact h
  · rw [List.concat_eq_append, List.getLast?_concat, Ne, Option.some.injEq] at h
    rw [List.concat_eq_append, escapeBars_append, List.getLast?_append]
    by_cases hc : c = '|'
    · simp [escapeBars, hc]
    · simp [escapeBars, hc, h]

/-- Parts that are written out with bars between them are read back, if none but the last ends in a
backslash. -/
theorem splitBars_joinWith {part : List Char} {parts : List (List Char)}
    (h : ∀ p ∈ (part :: parts).dropLast, p.getLast? ≠ some '\\') :
    splitBars (joinWith ['|'] ((part :: parts).map escapeBars)) = part :: parts := by
  induction parts generalizing part with
  | nil => exact splitBars_escapeBars part
  | cons next parts ih =>
    obtain ⟨hpart, hparts⟩ := List.forall_mem_cons.1 h
    show splitBars (escapeBars part ++ ['|'] ++ joinWith ['|'] ((next :: parts).map escapeBars)) = _
    rw [List.append_assoc, List.singleton_append, splitBars_append (getLast?_escapeBars_ne hpart),
      splitBars_escapeBars, ih hparts, List.singleton_append]

theorem joinWith_consFirst (c : Char) (parts : List (List Char)) (h : parts ≠ []) :
    joinWith ['|'] ((consFirst c parts).map escapeBars) =
      escapeBars [c] ++ joinWith ['|'] (parts.map escapeBars) := by
  obtain ⟨part, parts, rfl⟩ := List.exists_cons_of_ne_nil h
  have hcons : escapeBars (c :: part) = escapeBars [c] ++ escapeBars part := by
    rw [← escapeBars_append, List.singleton_append]
  cases parts with
  | nil => exact hcons
  | cons next parts =>
    show escapeBars (c :: part) ++ ['|'] ++ _ = escapeBars [c] ++ (escapeBars part ++ ['|'] ++ _)
    rw [hcons, List.append_assoc, List.append_assoc, List.append_assoc]

/-- The parts of a text give the text, written out with bars between them. -/
theorem joinWith_splitBars (text : List Char) :
    joinWith ['|'] ((splitBars text).map escapeBars) = text := by
  induction text using splitBars.induct with
  | case1 => rfl
  | case2 cs ih => rw [splitBars, joinWith_consFirst _ _ (splitBars_ne_nil cs), ih]; rfl
  | case3 cs ih =>
    obtain ⟨part, parts, hparts⟩ := List.exists_cons_of_ne_nil (splitBars_ne_nil cs)
    rw [hparts] at ih
    rw [splitBars, hparts]
    show [] ++ ['|'] ++ joinWith ['|'] ((part :: parts).map escapeBars) = _
    rw [ih]
    rfl
  | case4 c cs hescape hbar ih =>
    rw [splitBars_cons hbar hescape, joinWith_consFirst _ _ (splitBars_ne_nil cs), ih,
      escapeBars_cons, if_neg hbar]
    rfl

/-- Behind an empty first part stands the bar that ends it. -/
theorem exists_cons_of_splitBars {cs next : List Char} {parts : List (List Char)}
    (h : splitBars cs = [] :: next :: parts) : ∃ rest, cs = '|' :: rest := by
  have hjoin := joinWith_splitBars cs
  rw [h] at hjoin
  exact ⟨_, hjoin.symm⟩

theorem getLast?_ne_of_mem_consFirst {c : Char} {cs : List Char}
    (hescape : ∀ rest, c = '\\' → cs ≠ '|' :: rest)
    (h : ∀ p ∈ (splitBars cs).dropLast, p.getLast? ≠ some '\\') :
    ∀ p ∈ (consFirst c (splitBars cs)).dropLast, p.getLast? ≠ some '\\' := by
  cases hparts : splitBars cs with
  | nil => exact absurd hparts (splitBars_ne_nil cs)
  | cons part parts =>
    rw [hparts] at h
    cases parts with
    | nil => simp [consFirst]
    | cons next parts =>
      obtain ⟨hpart, hrest⟩ := List.forall_mem_cons.1 h
      refine List.forall_mem_cons.2 ⟨?_, hrest⟩
      cases part with
      | nil =>
        -- the character is the last one of its part, so it stands before the bar
        intro hlast
        obtain ⟨rest, hbar⟩ := exists_cons_of_splitBars hparts
        exact hescape rest (Option.some.inj hlast) hbar
      | cons d ds => rwa [List.getLast?_cons_cons]

/-- A backslash before a bar takes it, so no part that a bar ends has one at its end. -/
theorem getLast?_ne_of_mem_splitBars (text : List Char) :
    ∀ p ∈ (splitBars text).dropLast, p.getLast? ≠ some '\\' := by
  induction text using splitBars.induct with
  | case1 => simp [splitBars]
  | case2 cs ih =>
    rw [splitBars]
    exact getLast?_ne_of_mem_consFirst (fun _ heq => absurd heq (by decide)) ih
  | case3 cs ih =>
    rw [splitBars, List.dropLast_cons_of_ne_nil (splitBars_ne_nil cs)]
    exact List.forall_mem_cons.2 ⟨by simp, ih⟩
  | case4 c cs hescape hbar ih =>
    rw [splitBars_cons hbar hescape]
    exact getLast?_ne_of_mem_consFirst hescape ih

/-- **The parts of a text are the only ones that give it when they are written out**, with no
backslash at the end of a part that a bar ends. -/
theorem splitBars_eq_iff {text : List Char} {parts : List (List Char)} :
    splitBars text = parts ↔ parts ≠ [] ∧ (∀ p ∈ parts.dropLast, p.getLast? ≠ some '\\') ∧
      joinWith ['|'] (parts.map escapeBars) = text := by
  constructor
  · rintro rfl
    exact ⟨splitBars_ne_nil text, getLast?_ne_of_mem_splitBars text, joinWith_splitBars text⟩
  · rintro ⟨hne, hlast, rfl⟩
    obtain ⟨part, parts, rfl⟩ := List.exists_cons_of_ne_nil hne
    exact splitBars_joinWith hlast

end ResourceGraph.FieldType

import ResourceGraph.Proofs.Text.Replacement

/-!
# Edits that start at one place

Edits are put in order by their starts alone, so edits that share their start are carried out as they
are listed (`ordered_eq_self`), each at the same offset. An insertion thus comes to stand before the
texts inserted so far, and a replacement takes its stretch from what the insertions before it have
left, which begins with the texts they inserted (`foldl_insert`, `applyEdits_insertAll_replace`).

Proves: insertions at one place stand there in the order opposite to the listed one, and a
replacement that starts there replaces as many bytes as its range has, of the texts inserted before
it first (`applyEdits_sharedStart`). So texts that read the same in both orders, with the replacement
listed before them, are the case in which nothing is reversed and nothing is lost. Where these bytes
end inside a character of what the insertions have left, the edits cannot be carried out
(`isSome_applyEdits?_insertAll_replace_iff`).
-/

set_option autoImplicit false

namespace ResourceGraph

open Text

namespace Text

/-- A text is cut in one way only at a number of bytes. -/
theorem append_inj_of_bytes {before after before' after' : List Char}
    (h : before ++ after = before' ++ after') (hbytes : bytes before = bytes before') :
    before = before' ∧ after = after' := by
  obtain ⟨inside, rfl, rfl⟩ := exists_between h (Nat.le_of_eq hbytes)
  rw [bytes_append] at hbytes
  obtain rfl : inside = [] := eq_nil_of_bytes_eq_zero (by omega)
  exact ⟨(List.append_nil before).symm, rfl⟩

end Text

namespace TextEdit

variable {text : String} {p : Position} {before : List Char}

/-- Some texts one after another. -/
def joined (texts : List String) : List Char := (texts.map String.toList).flatten

theorem joined_append (first second : List String) :
    joined (first ++ second) = joined first ++ joined second := by
  simp [joined]

theorem joined_of_forall_empty {texts : List String} (h : ∀ s ∈ texts, s = "") :
    joined texts = [] := by
  apply List.flatten_eq_nil_iff.2
  intro cs hcs
  obtain ⟨s, hs, rfl⟩ := List.mem_map.1 hcs
  rw [h s hs, String.toList_empty]

theorem joined_reverse_cons (s : String) (texts : List String) :
    joined (s :: texts).reverse = joined texts.reverse ++ s.toList := by
  simp [joined]

/-- The edits that insert some texts at one place, as they are listed. -/
def insertAll (p : Position) (texts : List String) : List TextEdit := texts.map (insert p)

/-! ## The order of edits with one start -/

/-- Edits that share their start are carried out as they are listed. -/
theorem ordered_eq_self {edits : List TextEdit} (h : ∀ e ∈ edits, e.range.start = p) :
    ordered edits = edits := by
  induction edits with
  | nil => rfl
  | cons e rest ih =>
    obtain ⟨he, hrest⟩ := List.forall_mem_cons.1 h
    rw [ordered, ih hrest]
    cases rest with
    | nil => rfl
    | cons f rest =>
      -- the next edit starts no later, so the first one stays before it
      have hstart : f.range.start.isAtMost e.range.start = true := by
        rw [he, hrest f List.mem_cons_self]
        exact Position.isAtMost_iff.2 (Or.inr ⟨rfl, Nat.le_refl _⟩)
      rw [insertOrdered, if_pos hstart]

/-! ## Carrying them out -/

theorem start_of_mem_insertAll {texts : List String} {e : TextEdit} (h : e ∈ insertAll p texts) :
    e.range.start = p := by
  obtain ⟨s, -, rfl⟩ := List.mem_map.1 h
  rfl

theorem start_of_mem_insertAll_replace {earlier later : List String} {e f : TextEdit}
    (he : e.range.start = p) (hf : f ∈ insertAll p earlier ++ e :: insertAll p later) :
    f.range.start = p := by
  rcases List.mem_append.1 hf with hf | hf
  · exact start_of_mem_insertAll hf
  · rcases List.mem_cons.1 hf with rfl | hf
    · exact he
    · exact start_of_mem_insertAll hf

/-- An insertion replaces nothing at its place. -/
theorem span_insert (hp : offsetAt text.toList p = bytes before) (s : String) :
    (insert p s).span text = ⟨bytes before, bytes []⟩ := by
  show Span.mk (offsetAt text.toList p)
    (max (offsetAt text.toList p) (offsetAt text.toList p) - offsetAt text.toList p) = _
  rw [hp, Nat.max_self, Nat.sub_self]
  rfl

/-- An insertion puts its text before all that stands after the place. -/
theorem applyTo_insert (hp : offsetAt text.toList p = bytes before) (s : String)
    (rest : List Char) :
    applyTo text.toList (before ++ rest) (insert p s) = before ++ (s.toList ++ rest) := by
  have hspan := span_insert hp s
  -- nothing is cut out: the new text goes between what is before the place and the rest
  have hcut : before ++ rest = before ++ ([] ++ rest) := rfl
  rw [hcut]
  exact applyTo_append (by rw [hspan]) (by rw [hspan])

/-- Insertions at one place leave their texts there, the last one first. -/
theorem foldl_insert (hp : offsetAt text.toList p = bytes before) (texts : List String)
    (rest : List Char) :
    (insertAll p texts).foldl (applyTo text.toList) (before ++ rest) =
      before ++ (joined texts.reverse ++ rest) := by
  induction texts generalizing rest with
  | nil => rfl
  | cons s texts ih =>
    show (insertAll p texts).foldl _ (applyTo text.toList (before ++ rest) (insert p s)) = _
    rw [applyTo_insert hp, ih, joined_reverse_cons, List.append_assoc]

theorem applyEdits_insertAll (hp : offsetAt text.toList p = bytes before) {rest : List Char}
    (htext : text.toList = before ++ rest) (texts : List String) :
    (applyEdits text (insertAll p texts)).toList = before ++ (joined texts.reverse ++ rest) := by
  have hfold := foldl_insert hp texts rest
  rw [← htext] at hfold
  rw [applyEdits, String.toList_ofList, ordered_eq_self fun e he => start_of_mem_insertAll he,
    hfold]

/-- A replacement among insertions replaces what stands at its place when its turn comes. -/
theorem applyEdits_insertAll_replace (hp : offsetAt text.toList p = bytes before)
    {rest gone kept : List Char} (htext : text.toList = before ++ rest) (earlier later : List String)
    {e : TextEdit} (he : e.range.start = p) (hlength : (e.span text).length = bytes gone)
    (hcut : joined earlier.reverse ++ rest = gone ++ kept) :
    (applyEdits text (insertAll p earlier ++ e :: insertAll p later)).toList =
      before ++ (joined later.reverse ++ (e.newText.toList ++ kept)) := by
  have hoffset : (e.span text).offset = bytes before := by rw [offset_span, he, hp]
  have hearlier := foldl_insert hp earlier rest
  rw [← htext, hcut] at hearlier
  rw [applyEdits, String.toList_ofList,
    ordered_eq_self fun f hf => start_of_mem_insertAll_replace he hf, List.foldl_append, hearlier,
    List.foldl_cons, applyTo_append hoffset hlength, foldl_insert hp]

/-! ## Where they can be carried out -/

theorem foldlM_insert (hp : offsetAt text.toList p = bytes before) (texts : List String)
    (rest : List Char) :
    (insertAll p texts).foldlM (applyTo? text.toList) (before ++ rest) =
      some (before ++ (joined texts.reverse ++ rest)) := by
  induction texts generalizing rest with
  | nil => rfl
  | cons s texts ih =>
    have hfirst : applyTo? text.toList (before ++ rest) (insert p s) =
        some (before ++ (s.toList ++ rest)) := by
      refine applyTo?_eq_some_iff.2 ⟨?_, applyTo_insert hp s rest⟩
      rw [span_insert hp]
      exact ⟨before, [], rest, rfl, rfl, rfl⟩
    show (applyTo? text.toList (before ++ rest) (insert p s)).bind
      ((insertAll p texts).foldlM (applyTo? text.toList)) = _
    rw [hfirst, Option.bind_some, ih, joined_reverse_cons, List.append_assoc]

/-- Insertions alone can be carried out at any place. -/
theorem applyEdits?_insertAll (text : String) (p : Position) (texts : List String) :
    applyEdits? text (insertAll p texts) = some (applyEdits text (insertAll p texts)) := by
  obtain ⟨before, rest, htext, hp⟩ := exists_cut_at_offset text.toList p
  have hfold := foldlM_insert hp texts rest
  rw [← htext, ← ordered_eq_self fun e he => start_of_mem_insertAll he] at hfold
  exact applyEdits?_eq_some_iff.2 ⟨(foldlM_applyTo?_eq_some_iff.1 hfold).1, rfl⟩

/-- A stretch at a place is cut out of what stands there. -/
theorem cuts_append_iff {span : Span} {rest : List Char} (hoffset : span.offset = bytes before) :
    span.Cuts (before ++ rest) ↔
      ∃ gone kept, rest = gone ++ kept ∧ bytes gone = span.length := by
  constructor
  · rintro ⟨before', gone, kept, htext, hoffset', hlength⟩
    obtain ⟨rfl, rfl⟩ := append_inj_of_bytes htext (hoffset.symm.trans hoffset')
    exact ⟨gone, kept, rfl, hlength.symm⟩
  · rintro ⟨gone, kept, rfl, hlength⟩
    exact ⟨before, gone, kept, rfl, hoffset, hlength.symm⟩

/-- **A replacement among insertions can be carried out exactly if its range ends between characters
of what the insertions before it have left at its place.** -/
theorem isSome_applyEdits?_insertAll_replace_iff (hp : offsetAt text.toList p = bytes before)
    {rest : List Char} (htext : text.toList = before ++ rest) (earlier later : List String)
    {e : TextEdit} (he : e.range.start = p) :
    (applyEdits? text (insertAll p earlier ++ e :: insertAll p later)).isSome = true ↔
      ∃ gone kept, joined earlier.reverse ++ rest = gone ++ kept ∧
        bytes gone = (e.span text).length := by
  have hoffset : (e.span text).offset = bytes before := by rw [offset_span, he, hp]
  have hearlier := foldlM_insert hp earlier rest
  rw [← htext] at hearlier
  rw [applyEdits?, Option.isSome_map,
    ordered_eq_self fun f hf => start_of_mem_insertAll_replace he hf, List.foldlM_append, hearlier,
    Option.bind_eq_bind, Option.bind_some, List.foldlM_cons, Option.bind_eq_bind,
    ← cuts_append_iff hoffset, Option.isSome_iff_exists]
  constructor
  · rintro ⟨result, hresult⟩
    obtain ⟨next, hnext, -⟩ := Option.bind_eq_some_iff.1 hresult
    exact (applyTo?_eq_some_iff.1 hnext).1
  · intro hcuts
    obtain ⟨gone, kept, hrest, hlength⟩ := (cuts_append_iff hoffset).1 hcuts
    have hnext : applyTo? text.toList (before ++ (joined earlier.reverse ++ rest)) e =
        some (before ++ (e.newText.toList ++ kept)) := by
      refine applyTo?_eq_some_iff.2 ⟨hcuts, ?_⟩
      rw [hrest, applyTo_append hoffset hlength.symm]
    rw [hnext, Option.bind_some]
    exact ⟨_, foldlM_insert hp later _⟩

-- the replacement of one byte ends inside the character inserted before it
example : applyEdits? "ab" [insert ⟨0, 1⟩ "é", ⟨⟨⟨0, 1⟩, ⟨0, 2⟩⟩, "Y"⟩] = none := by decide

end TextEdit

open TextEdit

/-- **Edits that start at one place are carried out there as they are listed.** Of insertions alone
the last one comes to stand first, so they stand in their listed order exactly if the texts read the
same in both. A replacement among them replaces, with what the insertions before it have left, as
many bytes as its range has, and the texts inserted after it come to stand before its own. Where
nothing is inserted before it, these are the bytes of its range, and all comes out in the listed
order exactly if the inserted texts read the same in both. -/
theorem applyEdits_sharedStart (text : String) (p stop : Position) (new : String)
    (earlier later : List String) :
    ∃ before inside after, text.toList = before ++ (inside ++ after) ∧
      offsetAt text.toList p = bytes before ∧
      (span text ⟨⟨p, stop⟩, new⟩).length = bytes inside ∧
      ((applyEdits text (insertAll p later)).toList =
          before ++ (joined later.reverse ++ (inside ++ after)) ∧
        ((applyEdits text (insertAll p later)).toList =
            before ++ (joined later ++ (inside ++ after)) ↔
          joined later.reverse = joined later)) ∧
      (∀ gone kept, joined earlier.reverse ++ (inside ++ after) = gone ++ kept →
        bytes gone = bytes inside →
        (applyEdits text (insertAll p earlier ++ ⟨⟨p, stop⟩, new⟩ :: insertAll p later)).toList =
          before ++ (joined later.reverse ++ (new.toList ++ kept))) ∧
      ((∀ s ∈ earlier, s = "") →
        ((applyEdits text (insertAll p earlier ++ ⟨⟨p, stop⟩, new⟩ :: insertAll p later)).toList =
            before ++ (joined (earlier ++ later) ++ (new.toList ++ after)) ↔
          joined later.reverse = joined later)) := by
  obtain ⟨before, inside, after, htext, hoffset, hlength⟩ := cuts_span text ⟨⟨p, stop⟩, new⟩
  rw [offset_span] at hoffset
  have hinsert := applyEdits_insertAll hoffset htext later
  have hreplace : ∀ gone kept, joined earlier.reverse ++ (inside ++ after) = gone ++ kept →
      bytes gone = bytes inside →
      (applyEdits text (insertAll p earlier ++ ⟨⟨p, stop⟩, new⟩ :: insertAll p later)).toList =
        before ++ (joined later.reverse ++ (new.toList ++ kept)) := by
    intro gone kept hcut hbytes
    rw [← hbytes] at hlength
    exact applyEdits_insertAll_replace hoffset htext earlier later rfl hlength hcut
  refine ⟨before, inside, after, htext, hoffset, hlength, ⟨hinsert, ?_⟩, hreplace, ?_⟩
  · rw [hinsert, List.append_cancel_left_eq, List.append_cancel_right_eq]
  · intro hempty
    have hreverse : joined earlier.reverse = [] :=
      joined_of_forall_empty fun s hs => hempty s (List.mem_reverse.1 hs)
    have hown := hreplace inside after (by rw [hreverse, List.nil_append]) rfl
    rw [hown, joined_append, joined_of_forall_empty hempty, List.nil_append,
      List.append_cancel_left_eq, List.append_cancel_right_eq]

/-- A text inserted first is what a replacement at its place replaces, and the rest of its range
stays. -/
theorem applyEdits_sharedStart_overwritten :
    ("XY".toList ++ "éc".toList = joined ["XY"].reverse ++ ("é".toList ++ "c".toList) ∧
      bytes "XY".toList = bytes "é".toList ∧
      (applyEdits "aéc" (insertAll ⟨0, 1⟩ ["XY"] ++
        ⟨⟨⟨0, 1⟩, ⟨0, 2⟩⟩, "Z"⟩ :: insertAll ⟨0, 1⟩ ["1", "2"])).toList = "a21Zéc".toList) ∧
    (∀ s ∈ [""], s = "") ∧ joined ["1", "", "1"].reverse = joined ["1", "", "1"] ∧
      (applyEdits "aéc" (insertAll ⟨0, 1⟩ [""] ++
        ⟨⟨⟨0, 1⟩, ⟨0, 2⟩⟩, "Z"⟩ :: insertAll ⟨0, 1⟩ ["1", "", "1"])).toList = "a11Zc".toList := by
  have hcut : "XY".toList ++ "éc".toList = joined ["XY"].reverse ++ ("é".toList ++ "c".toList) := by
    decide
  have hbytes : bytes "XY".toList = bytes "é".toList := by decide
  have hempty : ∀ s ∈ [""], s = "" := by simp
  have hsame : joined ["1", "", "1"].reverse = joined ["1", "", "1"] := by decide
  -- the parts of the text are those around its second character
  have hparts : ∀ {before inside after : List Char}, "aéc".toList = before ++ (inside ++ after) →
      offsetAt "aéc".toList ⟨0, 1⟩ = bytes before →
      (span "aéc" ⟨⟨⟨0, 1⟩, ⟨0, 2⟩⟩, "Z"⟩).length = bytes inside →
      before = "a".toList ∧ inside = "é".toList ∧ after = "c".toList := by
    intro before inside after htext hoffset hlength
    have hwhole : before ++ (inside ++ after) = "a".toList ++ ("é".toList ++ "c".toList) :=
      htext.symm
    obtain ⟨hbefore, hrest⟩ := append_inj_of_bytes hwhole (hoffset.symm.trans (by decide))
    exact ⟨hbefore, append_inj_of_bytes hrest (hlength.symm.trans (by decide))⟩
  refine ⟨⟨hcut, hbytes, ?_⟩, hempty, hsame, ?_⟩
  · obtain ⟨before, inside, after, htext, hoffset, hlength, -, hreplace, -⟩ :=
      applyEdits_sharedStart "aéc" ⟨0, 1⟩ ⟨0, 2⟩ "Z" ["XY"] ["1", "2"]
    obtain ⟨rfl, rfl, rfl⟩ := hparts htext hoffset hlength
    exact hreplace _ _ hcut.symm hbytes
  · obtain ⟨before, inside, after, htext, hoffset, hlength, -, -, hlisted⟩ :=
      applyEdits_sharedStart "aéc" ⟨0, 1⟩ ⟨0, 2⟩ "Z" [""] ["1", "", "1"]
    obtain ⟨rfl, rfl, rfl⟩ := hparts htext hoffset hlength
    exact (hlisted hempty).2 hsame

end ResourceGraph

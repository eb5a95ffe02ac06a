import Mathlib.Data.List.Sort
import ResourceGraph.Proofs.Text.Edit

/-!
# Edits apart from one another

Edits are put in order by their positions in a text. They are carried out at byte offsets of the
text as it was, but on what the edits before them have left. Offsets follow positions
(`offsetAt_le_of_isAtMost`), also where these are past the end of a line or of the text, so edits of
stretches that are apart are carried out from the last stretch to the first, each of them in a part
of the text that none has changed yet (`exists_foldr_applyTo`).

Proves: such edits replace their stretches all at once, in whatever order they are listed, and each
of them is carried out between characters (`applyEdits_replaces`). That each is, is what carrying out
any list of edits takes (`applyEdits?_eq_some_iff`).
-/

set_option autoImplicit false

namespace ResourceGraph

open Text

/-! ## Offsets and positions -/

theorem Position.isAtMost_of_not {p q : Position} (h : ¬p.isAtMost q = true) :
    q.isAtMost p = true := by
  rw [isAtMost_iff] at h ⊢
  omega

theorem Position.isAtMost_trans {p q r : Position} (hpq : p.isAtMost q = true)
    (hqr : q.isAtMost r = true) : p.isAtMost r = true := by
  rw [isAtMost_iff] at hpq hqr ⊢
  omega

namespace Text

theorem eq_nil_of_bytes_eq_zero {cs : List Char} (h : bytes cs = 0) : cs = [] := by
  cases cs with
  | nil => rfl
  | cons c cs =>
    have hpos := charBytes_pos c
    rw [bytes] at h
    omega

/-- Of two places between characters, the part of the text up to the later one goes on from the part
up to the other. -/
theorem exists_between {before after before' after' : List Char}
    (h : before ++ after = before' ++ after') (hle : bytes before ≤ bytes before') :
    ∃ inside, before' = before ++ inside ∧ after = inside ++ after' := by
  rcases List.append_eq_append_iff.1 h with ⟨inside, hbefore, hafter⟩ | ⟨inside, hbefore, hafter⟩
  · exact ⟨inside, hbefore, hafter⟩
  · -- the first place is not the later one, so nothing is between them
    rw [hbefore, bytes_append] at hle
    have hnone : bytes inside = 0 := by omega
    obtain rfl := eq_nil_of_bytes_eq_zero hnone
    rw [List.append_nil] at hbefore
    exact ⟨[], by rw [hbefore, List.append_nil], hafter.symm⟩

/-- The offset of a position is a place between characters. -/
theorem exists_cut_at_offset (text : List Char) (p : Position) :
    ∃ before after, text = before ++ after ∧ offsetAt text p = bytes before := by
  obtain ⟨start, hline, hcolumn⟩ := columnOffset_eq_bytes p.character (onLine text p.line)
  have htext := above_append_onLine_append_below text p.line
  rw [hline] at htext
  refine ⟨above text p.line ++ start, fromColumn p.character (onLine text p.line) ++
    below text p.line, ?_, ?_⟩
  · refine htext.symm.trans ?_
    simp only [List.append_assoc]
  · rw [offsetAt_eq, hcolumn, bytes_append]

theorem columnOffset_le {m n : Nat} (h : m ≤ n) (cs : List Char) :
    columnOffset m cs ≤ columnOffset n cs := by
  obtain ⟨before, inside, -, -, hfirst, hsecond⟩ := exists_cut_at_columns h cs
  omega

theorem bytes_above_succ (text : List Char) (n : Nat) :
    bytes (above text n) + bytes (onLine text n) ≤ bytes (above text (n + 1)) := by
  rw [above, above, List.take_add_one, List.flatten_append, bytes_append, onLine]
  cases (rawLines text)[n]? with
  | none => exact Nat.le_refl _
  | some line =>
    obtain ⟨tail, htail, -⟩ := dropTail_append isLineEnd line
    have hline := congrArg bytes htail
    rw [bytes_append] at hline
    simp only [Option.getD_some, Option.toList_some, List.flatten_singleton]
    omega

theorem bytes_above_le {m n : Nat} (h : m ≤ n) (text : List Char) :
    bytes (above text m) ≤ bytes (above text n) := by
  induction h with
  | refl => exact Nat.le_refl _
  | @step n _ ih =>
    exact Nat.le_trans ih (Nat.le_trans (Nat.le_add_right _ _) (bytes_above_succ text n))

/-- Offsets are in the order of the positions, as far as these are told apart. -/
theorem offsetAt_le_of_isAtMost {p q : Position} (h : p.isAtMost q = true) (text : List Char) :
    offsetAt text p ≤ offsetAt text q := by
  obtain ⟨m, i⟩ := p
  obtain ⟨n, j⟩ := q
  rw [offsetAt_eq, offsetAt_eq]
  rcases Position.isAtMost_iff.1 h with hline | ⟨hline, hcolumn⟩
  · have hend := columnOffset_add_bytes_fromColumn i (onLine text m)
    have hsucc := bytes_above_succ text m
    have habove := bytes_above_le (show m + 1 ≤ n from hline) text
    omega
  · obtain rfl : m = n := hline
    have hle := columnOffset_le (show i ≤ j from hcolumn) (onLine text m)
    omega

end Text

/-! ## Stretches -/

namespace Span

/-- The offset at which a stretch ends. -/
def stop (span : Span) : Nat := span.offset + span.length

/-- Whether one of two stretches ends before the other one begins, or where it begins. An empty
stretch with bytes of the other one on both sides is not apart from it. -/
def IsApart (a b : Span) : Prop := a.stop ≤ b.offset ∨ b.stop ≤ a.offset

/-- Whether a stretch begins and ends within a text and between its characters. -/
def Cuts (span : Span) (text : List Char) : Prop :=
  ∃ before inside after, text = before ++ (inside ++ after) ∧ span.offset = bytes before ∧
    span.length = bytes inside

theorem IsApart.symm {a b : Span} (h : a.IsApart b) : b.IsApart a := Or.symm h

/-- A text can be cut at both ends of a stretch exactly if the stretch lies between characters. -/
theorem cuts_iff {span : Span} {text : List Char} : span.Cuts text ↔
    isBoundary span.offset text = true ∧ isBoundary span.stop text = true := by
  rw [isBoundary_iff, isBoundary_iff]
  constructor
  · rintro ⟨before, inside, after, rfl, hoffset, hlength⟩
    refine ⟨⟨before, inside ++ after, rfl, hoffset⟩, before ++ inside, after, ?_, ?_⟩
    · rw [List.append_assoc]
    · rw [stop, hoffset, hlength, bytes_append]
  · rintro ⟨⟨before, after, htext, hoffset⟩, ⟨upTo, rest, htext', hstop⟩⟩
    rw [stop] at hstop
    obtain ⟨inside, rfl, rfl⟩ := exists_between (htext.symm.trans htext') (by omega)
    rw [bytes_append] at hstop
    exact ⟨before, inside, rest, htext, hoffset, by omega⟩

end Span

/-- The second text is the first one with some of its stretches, listed in their order, each
replaced by a text of its own and everything else kept. The stretches count their bytes from a place
that is `n` bytes before the first text. -/
inductive Replaces : Nat → List (Span × String) → List Char → List Char → Prop
  | keep (n : Nat) (rest : List Char) : Replaces n [] rest rest
  | replace {n : Nat} {span : Span} {new : String} {more : List (Span × String)}
    {kept inside rest result : List Char} : span.offset = n + bytes kept →
    span.length = bytes inside → Replaces span.stop more rest result →
    Replaces n ((span, new) :: more) (kept ++ (inside ++ rest)) (kept ++ (new.toList ++ result))

namespace TextEdit

variable {text : String}

/-- The stretch of a text that an edit replaces. -/
def span (text : String) (e : TextEdit) : Span := (Source.ofString text).spanOf e.range

theorem offset_span (text : String) (e : TextEdit) :
    (e.span text).offset = offsetAt text.toList e.range.start := rfl

theorem stop_span (text : String) (e : TextEdit) : (e.span text).stop =
    max (offsetAt text.toList e.range.stop) (offsetAt text.toList e.range.start) := by
  show offsetAt text.toList e.range.start + (max (offsetAt text.toList e.range.stop)
    (offsetAt text.toList e.range.start) - offsetAt text.toList e.range.start) = _
  omega

theorem cuts_span (text : String) (e : TextEdit) : (e.span text).Cuts text.toList := by
  obtain ⟨before, after, hstart, hoffset⟩ := exists_cut_at_offset text.toList e.range.start
  -- a range that runs backwards ends where it starts
  obtain ⟨upTo, rest, hstop, hmax⟩ : ∃ upTo rest, text.toList = upTo ++ rest ∧
      (e.span text).stop = bytes upTo := by
    rw [stop_span]
    rcases Nat.le_total (offsetAt text.toList e.range.stop)
      (offsetAt text.toList e.range.start) with hle | hle
    · rw [Nat.max_eq_right hle]
      exact exists_cut_at_offset text.toList e.range.start
    · rw [Nat.max_eq_left hle]
      exact exists_cut_at_offset text.toList e.range.stop
  rw [← offset_span] at hoffset
  rw [Span.stop] at hmax
  obtain ⟨inside, rfl, rfl⟩ := exists_between (hstart.symm.trans hstop) (by omega)
  rw [bytes_append] at hmax
  exact ⟨before, inside, rest, hstart, hoffset, by omega⟩

/-- Where the stretch of an edit still begins and ends between characters, it is what the edit
replaces. -/
theorem applyTo_append {e : TextEdit} {before inside after : List Char}
    (hoffset : (e.span text).offset = bytes before)
    (hlength : (e.span text).length = bytes inside) :
    applyTo text.toList (before ++ (inside ++ after)) e =
      before ++ (e.newText.toList ++ after) := by
  have hstop := stop_span text e
  rw [Span.stop, hoffset, hlength] at hstop
  rw [offset_span] at hoffset
  rw [applyTo, ← hstop, hoffset]
  exact splice_append before inside after e.newText.toList

/-! ## Where edits can be carried out -/

/-- An edit can be carried out where its stretch still begins and ends between characters. -/
theorem applyTo?_eq_some_iff {e : TextEdit} {t result : List Char} :
    applyTo? text.toList t e = some result ↔
      (e.span text).Cuts t ∧ applyTo text.toList t e = result := by
  rw [Span.cuts_iff, stop_span, offset_span, ← Bool.and_eq_true]
  show (if _ then some (applyTo text.toList t e) else none) = some result ↔ _
  rw [Option.ite_none_right_eq_some, Option.some.injEq]

theorem foldlM_applyTo?_eq_some_iff {edits : List TextEdit} {t result : List Char} :
    edits.foldlM (applyTo? text.toList) t = some result ↔
      (∀ done e rest, edits = done ++ e :: rest →
        (e.span text).Cuts (done.foldl (applyTo text.toList) t)) ∧
        edits.foldl (applyTo text.toList) t = result := by
  induction edits generalizing t with
  | nil => simp
  | cons e edits ih =>
    rw [List.foldlM_cons, Option.bind_eq_bind, Option.bind_eq_some_iff]
    constructor
    · rintro ⟨next, hfirst, hrest⟩
      obtain ⟨hcuts, rfl⟩ := applyTo?_eq_some_iff.1 hfirst
      obtain ⟨hlater, hresult⟩ := ih.1 hrest
      refine ⟨?_, hresult⟩
      intro done f rest hsplit
      cases done with
      | nil =>
        obtain ⟨rfl, -⟩ := List.cons.inj hsplit
        exact hcuts
      | cons _ done =>
        obtain ⟨rfl, htail⟩ := List.cons.inj hsplit
        exact hlater done f rest htail
    · rintro ⟨hcuts, hresult⟩
      refine ⟨applyTo text.toList t e, applyTo?_eq_some_iff.2 ⟨hcuts [] e edits rfl, rfl⟩, ?_⟩
      refine ih.2 ⟨?_, hresult⟩
      intro done f rest hsplit
      exact hcuts (e :: done) f rest (by rw [hsplit, List.cons_append])

/-- **Some edits can be carried out exactly if each of them finds its stretch between characters of
what the ones before it have left**, and then they give what `applyEdits` does. -/
theorem applyEdits?_eq_some_iff {edits : List TextEdit} {result : String} :
    applyEdits? text edits = some result ↔
      (∀ done e rest, ordered edits = done ++ e :: rest →
        (e.span text).Cuts (done.foldl (applyTo text.toList) text.toList)) ∧
        applyEdits text edits = result := by
  rw [applyEdits?, Option.map_eq_some_iff]
  constructor
  · rintro ⟨t, hfold, rfl⟩
    obtain ⟨hcuts, rfl⟩ := foldlM_applyTo?_eq_some_iff.1 hfold
    exact ⟨hcuts, rfl⟩
  · rintro ⟨hcuts, rfl⟩
    exact ⟨_, foldlM_applyTo?_eq_some_iff.2 ⟨hcuts, rfl⟩, rfl⟩

/-! ## The order of edits -/

theorem insertOrdered_perm (e : TextEdit) (edits : List TextEdit) :
    (insertOrdered e edits).Perm (e :: edits) := by
  induction edits with
  | nil => exact List.Perm.refl _
  | cons f rest ih =>
    rw [insertOrdered]
    split
    · exact List.Perm.refl _
    · exact (ih.cons f).trans (List.Perm.swap e f rest)

theorem ordered_perm (edits : List TextEdit) : (ordered edits).Perm edits := by
  induction edits with
  | nil => exact List.Perm.refl _
  | cons e rest ih => exact (insertOrdered_perm e (ordered rest)).trans (ih.cons e)

theorem pairwise_insertOrdered {edits : List TextEdit} (e : TextEdit)
    (h : edits.Pairwise fun e f => f.range.start.isAtMost e.range.start = true) :
    (insertOrdered e edits).Pairwise fun e f => f.range.start.isAtMost e.range.start = true := by
  induction edits with
  | nil => exact List.pairwise_singleton _ e
  | cons f rest ih =>
    obtain ⟨hfirst, hrest⟩ := List.pairwise_cons.1 h
    rw [insertOrdered]
    split
    · rename_i hle
      refine List.pairwise_cons.2 ⟨?_, h⟩
      intro g hg
      rcases List.mem_cons.1 hg with rfl | hg
      · exact hle
      · exact Position.isAtMost_trans (hfirst g hg) hle
    · rename_i hle
      refine List.pairwise_cons.2 ⟨?_, ih hrest⟩
      intro g hg
      rcases List.mem_cons.1 ((insertOrdered_perm e rest).mem_iff.1 hg) with rfl | hg
      · exact Position.isAtMost_of_not hle
      · exact hfirst g hg

theorem pairwise_ordered (edits : List TextEdit) :
    (ordered edits).Pairwise fun e f => f.range.start.isAtMost e.range.start = true := by
  induction edits with
  | nil => exact List.Pairwise.nil
  | cons e rest ih => exact pairwise_insertOrdered e ih

/-! ## Edits apart from one another -/

/-- Whether the stretches that some edits replace are apart, and none begins where another does. -/
structure AreApart (text : String) (edits : List TextEdit) : Prop where
  apart : edits.Pairwise fun e f => (e.span text).IsApart (f.span text)
  starts : edits.Pairwise fun e f => (e.span text).offset ≠ (f.span text).offset

theorem AreApart.perm {edits edits' : List TextEdit} (h : AreApart text edits)
    (hperm : edits.Perm edits') : AreApart text edits' :=
  ⟨(hperm.pairwise_iff Span.IsApart.symm).1 h.apart, (hperm.pairwise_iff Ne.symm).1 h.starts⟩

/-- Edits apart from one another are carried out from the last stretch to the first. -/
theorem AreApart.pairwise_ordered {edits : List TextEdit} (h : AreApart text edits) :
    (ordered edits).Pairwise fun e f => (f.span text).stop ≤ (e.span text).offset ∧
      (f.span text).offset < (e.span text).offset := by
  have hordered := h.perm (ordered_perm edits).symm
  refine ((TextEdit.pairwise_ordered edits).and (hordered.apart.and hordered.starts)).imp ?_
  rintro e f ⟨hposition, hapart, hstarts⟩
  have hle : (f.span text).offset ≤ (e.span text).offset :=
    offsetAt_le_of_isAtMost hposition text.toList
  rw [Span.IsApart, Span.stop, Span.stop] at hapart
  rw [Span.stop]
  omega

/-- The order in which such edits are carried out does not depend on how they are listed. -/
theorem AreApart.ordered_eq {edits edits' : List TextEdit} (h : AreApart text edits)
    (hperm : edits'.Perm edits) : ordered edits' = ordered edits := by
  have hordered : (ordered edits').Perm (ordered edits) :=
    (ordered_perm edits').trans (hperm.trans (ordered_perm edits).symm)
  refine hordered.eq_of_pairwise ?_ (h.perm hperm.symm).pairwise_ordered h.pairwise_ordered
  rintro e f - - ⟨-, hlt⟩ ⟨-, hgt⟩
  exact absurd hlt (Nat.lt_asymm hgt)

/-- Edits carried out from the last one to the first, all of them after some place between
characters, leave the text up to that place as it is and replace their stretches in the rest. -/
theorem exists_foldr_applyTo {edits : List TextEdit}
    (hpairwise : edits.Pairwise fun e f => (e.span text).stop ≤ (f.span text).offset)
    {before rest : List Char} (htext : text.toList = before ++ rest)
    (hafter : ∀ e ∈ edits, bytes before ≤ (e.span text).offset) :
    ∃ result, edits.foldr (fun e t => applyTo text.toList t e) text.toList = before ++ result ∧
      Replaces (bytes before) (edits.map fun e => (e.span text, e.newText)) rest result := by
  -- the first edit of the list is carried out last, on what the others have left
  induction edits generalizing before rest with
  | nil => exact ⟨rest, htext, .keep _ _⟩
  | cons e edits ih =>
    obtain ⟨hfirst, hpairwise⟩ := List.pairwise_cons.1 hpairwise
    obtain ⟨upTo, inside, after, hcut, hoffset, hlength⟩ := cuts_span text e
    have hle := hafter e List.mem_cons_self
    rw [hoffset] at hle
    obtain ⟨kept, rfl, rfl⟩ := exists_between (htext.symm.trans hcut) hle
    -- what the later edits leave as it is reaches to the end of this one's stretch
    have hstop : (e.span text).stop = bytes (before ++ kept ++ inside) := by
      rw [Span.stop, hoffset, hlength, ← bytes_append]
    rw [← List.append_assoc] at hcut
    obtain ⟨result, hfold, hreplaces⟩ := ih hpairwise hcut (by rwa [← hstop])
    rw [← hstop] at hreplaces
    refine ⟨kept ++ (e.newText.toList ++ result), ?_, ?_⟩
    · rw [List.foldr_cons, hfold, List.append_assoc, applyTo_append hoffset hlength,
        List.append_assoc]
    · rw [bytes_append] at hoffset
      exact .replace hoffset hlength hreplaces

/-- Each of some edits apart from one another finds its stretch between characters. -/
theorem AreApart.cuts {edits : List TextEdit} (h : AreApart text edits) {done rest : List TextEdit}
    {e : TextEdit} (hsplit : ordered edits = done ++ e :: rest) :
    (e.span text).Cuts (done.foldl (applyTo text.toList) text.toList) := by
  have hascending : (ordered edits).reverse.Pairwise fun e f =>
      (e.span text).stop ≤ (f.span text).offset :=
    List.pairwise_reverse.2 (h.pairwise_ordered.imp And.left)
  rw [hsplit, List.reverse_append, List.reverse_cons, List.append_assoc,
    List.singleton_append] at hascending
  -- what was carried out before the edit is what stands after it in the text
  obtain ⟨hfirst, hdone⟩ := List.pairwise_cons.1 (List.pairwise_append.1 hascending).2.1
  obtain ⟨before, inside, after, hcut, hoffset, hlength⟩ := cuts_span text e
  have hstop : (e.span text).stop = bytes (before ++ inside) := by
    rw [Span.stop, hoffset, hlength, bytes_append]
  rw [← List.append_assoc] at hcut
  obtain ⟨result, hfold, -⟩ := exists_foldr_applyTo hdone hcut (by rwa [← hstop])
  rw [List.foldr_reverse, List.append_assoc] at hfold
  exact ⟨before, inside, result, hfold, hoffset, hlength⟩

/-- Edits apart from one another can be carried out. -/
theorem AreApart.applyEdits?_eq {edits : List TextEdit} (h : AreApart text edits) :
    applyEdits? text edits = some (applyEdits text edits) :=
  applyEdits?_eq_some_iff.2 ⟨fun _ _ _ hsplit => h.cuts hsplit, rfl⟩

end TextEdit

open TextEdit

/-- **Edits apart from one another replace their stretches all at once**: the text is changed in
these stretches and nowhere else, in whatever order the edits are listed. Each edit in turn finds
its stretch between characters of the text that it is carried out on. -/
theorem applyEdits_replaces {text : String} {edits : List TextEdit}
    (hapart : edits.Pairwise fun e f => (e.span text).IsApart (f.span text))
    (hstarts : edits.Pairwise fun e f => (e.span text).offset ≠ (f.span text).offset) :
    (∃ inOrder : List TextEdit, inOrder.Perm edits ∧
      Replaces 0 (inOrder.map fun e => (e.span text, e.newText)) text.toList
        (applyEdits text edits).toList) ∧
      (∀ edits' : List TextEdit, edits'.Perm edits →
        applyEdits text edits' = applyEdits text edits) ∧
      ∀ done e rest, ordered edits = done ++ e :: rest →
        (e.span text).Cuts (done.foldl (applyTo text.toList) text.toList) := by
  have h : AreApart text edits := ⟨hapart, hstarts⟩
  have hascending : (ordered edits).reverse.Pairwise fun e f =>
      (e.span text).stop ≤ (f.span text).offset :=
    List.pairwise_reverse.2 (h.pairwise_ordered.imp And.left)
  refine ⟨⟨(ordered edits).reverse, ?_, ?_⟩, ?_, ?_⟩
  · exact (List.reverse_perm _).trans (ordered_perm edits)
  · obtain ⟨result, hfold, hreplaces⟩ :=
      exists_foldr_applyTo hascending (List.nil_append text.toList).symm fun e _ => Nat.zero_le _
    rw [List.foldr_reverse, List.nil_append] at hfold
    rw [applyEdits, String.toList_ofList, hfold]
    exact hreplaces
  · intro edits' hperm
    rw [applyEdits, applyEdits, h.ordered_eq hperm]
  · intro done e rest hsplit
    exact h.cuts hsplit

theorem applyEdits_replaces_pastLineEnd :
    let edits : List TextEdit :=
      [⟨⟨⟨0, 0⟩, ⟨0, 2⟩⟩, "k"⟩, .insert ⟨7, 3⟩ "!", ⟨⟨⟨0, 3⟩, ⟨0, 9⟩⟩, "é"⟩]
    (edits.Pairwise fun e f => (e.span "😀: b\r\nc").IsApart (f.span "😀: b\r\nc")) ∧
      (edits.Pairwise fun e f => (e.span "😀: b\r\nc").offset ≠ (f.span "😀: b\r\nc").offset) ∧
      applyEdits "😀: b\r\nc" edits = "k:é\r\nc!" ∧
      applyEdits "😀: b\r\nc" edits.reverse = applyEdits "😀: b\r\nc" edits := by
  intro edits
  have hapart : edits.Pairwise fun e f => (e.span "😀: b\r\nc").IsApart (f.span "😀: b\r\nc") := by
    simp only [Span.IsApart]
    decide
  have hstarts : edits.Pairwise fun e f =>
      (e.span "😀: b\r\nc").offset ≠ (f.span "😀: b\r\nc").offset := by decide
  obtain ⟨-, hperm, -⟩ := applyEdits_replaces hapart hstarts
  exact ⟨hapart, hstarts, by decide, hperm edits.reverse (List.reverse_perm edits)⟩

end ResourceGraph

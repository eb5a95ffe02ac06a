import ResourceGraph.Yaml.Token.Plain

/-!
# Plain words

A word that begins with a letter or digit is read whole as a plain scalar, as a key up to its colon
(`Cursor.plain_key`) or as a value up to the end of its line (`Cursor.plain_value`). A value goes on
in a later line that is indented; `endsScalar` tells from the text after a word that none does.
-/

set_option autoImplicit false

namespace ResourceGraph.Yaml

/-- Whether a text is a word that begins with a letter or digit and holds no colon. -/
def isPlainWord (cs : List Char) : Bool :=
  cs.head?.any Char.isAlphanum && cs.all fun c => !isSeparation c && c != ':'

/-- Whether a plain scalar ends before a text at the latest when a line of it does: the next line
that is not blank is not indented, or is a comment. -/
def endsScalar (rest : List Char) : Bool :=
  startsSeparated rest &&
    ((rest.dropWhile isSeparation).head?.all fun c =>
      c == '#' || (rest.takeWhile isSeparation).getLast?.any isBreak)

theorem isPlainWord_iff {cs : List Char} : isPlainWord cs = true ↔
    (∃ c rest, cs = c :: rest ∧ c.isAlphanum = true) ∧
      ∀ c ∈ cs, isSeparation c = false ∧ c ≠ ':' := by
  rw [isPlainWord, Bool.and_eq_true]
  apply and_congr
  · cases cs <;> simp
  · simp

theorem isSeparation_of_isSpace {c : Char} (h : isSpace c = true) : isSeparation c = true := by
  rw [isSeparation, h, Bool.true_or]

theorem isSeparation_of_isBreak {c : Char} (h : isBreak c = true) : isSeparation c = true := by
  rw [isSeparation, h, Bool.or_true]

theorem isBreak_of_isSpace {c : Char} (h : isSpace c = true) : isBreak c = false := by
  rw [isSpace, Bool.or_eq_true, beq_iff_eq, beq_iff_eq] at h
  rcases h with rfl | rfl <;> decide

/-- A letter or digit is no indicator. -/
theorem ne_of_isAlphanum {c d : Char} (hc : c.isAlphanum = true) (hd : d.isAlphanum = false) :
    c ≠ d := by
  rintro rfl
  rw [hc] at hd
  exact absurd hd (by decide)

theorem isSeparation_of_isAlphanum {c : Char} (hc : c.isAlphanum = true) :
    isSeparation c = false := by
  have hne : ∀ d, d.isAlphanum = false → (c == d) = false := fun d hd =>
    beq_eq_false_iff_ne.2 (ne_of_isAlphanum hc hd)
  simp (disch := decide) [isSeparation, isSpace, isBreak, hne]

theorem exists_cons_of_isPlainWord {w : List Char} (hw : isPlainWord w = true)
    (rest : List Char) : ∃ c cs, w ++ rest = c :: cs ∧ c.isAlphanum = true := by
  obtain ⟨⟨c, cs, rfl, hc⟩, -⟩ := isPlainWord_iff.1 hw
  exact ⟨c, cs ++ rest, rfl, hc⟩

theorem takeWhile_append_cons {p : Char → Bool} {run cs : List Char} {c : Char}
    (h : ∀ d ∈ run, p d = true) (hc : p c = false) : (run ++ c :: cs).takeWhile p = run := by
  rw [List.takeWhile_append_of_pos h, List.takeWhile_cons_of_neg (by simp [hc]), List.append_nil]

theorem dropWhile_append_cons {p : Char → Bool} {run cs : List Char} {c : Char}
    (h : ∀ d ∈ run, p d = true) (hc : p c = false) :
    (run ++ c :: cs).dropWhile p = c :: cs := by
  rw [List.dropWhile_append_of_pos h, List.dropWhile_cons_of_neg (by simp [hc])]

theorem dropWhile_feed {gap : List Char} (h : ∀ c ∈ gap, isSeparation c = true)
    (rest : List Char) :
    (gap ++ '\n' :: rest).dropWhile isSeparation = rest.dropWhile isSeparation := by
  rw [List.dropWhile_append_of_pos h, List.dropWhile_cons_of_pos (by decide)]

theorem getLast?_takeWhile_feed {gap : List Char} (h : ∀ c ∈ gap, isSeparation c = true)
    (rest : List Char) : ((gap ++ '\n' :: rest).takeWhile isSeparation).getLast?.any isBreak =
      (rest.takeWhile isSeparation).getLast?.all isBreak := by
  rw [List.takeWhile_append_of_pos h, List.takeWhile_cons_of_pos (by decide),
    List.getLast?_append, List.getLast?_cons]
  cases (rest.takeWhile isSeparation).getLast? <;> rfl

/-- A scalar ends before a line feed, whatever blanks and breaks stand before that, if the lines
after the line feed do not go on with it. -/
theorem endsScalar_feed {gap : List Char} (h : ∀ c ∈ gap, isSeparation c = true)
    (rest : List Char) : endsScalar (gap ++ '\n' :: rest) =
      (rest.dropWhile isSeparation).head?.all fun c =>
        c == '#' || (rest.takeWhile isSeparation).getLast?.all isBreak := by
  have hstart : startsSeparated (gap ++ '\n' :: rest) = true := by
    cases gap with
    | nil => rfl
    | cons c gap => exact h c List.mem_cons_self
  rw [endsScalar, hstart, dropWhile_feed h, getLast?_takeWhile_feed h, Bool.true_and]

theorem endsScalar_append_feed {gap : List Char} (h : ∀ c ∈ gap, isSeparation c = true)
    (rest : List Char) : endsScalar (gap ++ '\n' :: rest) = endsScalar ('\n' :: rest) := by
  have hnone : ∀ c ∈ ([] : List Char), isSeparation c = true := by simp
  rw [endsScalar_feed h, ← endsScalar_feed hnone, List.nil_append]

/-! ## Breaks and gaps -/

namespace Cursor

theorem forward_append (cs rest : List Char) (m : Mark) :
    (⟨cs ++ rest, m⟩ : Cursor).forward cs.length = ⟨rest, m.past cs⟩ := by
  simp [forward]

/-- A line break is some characters that break lines, and a line begins after it. -/
theorem lineBreak?_eq_some {k after : Cursor} {text : List Char}
    (h : k.lineBreak? = some (text, after)) :
    ∃ b, b ≠ [] ∧ (∀ c ∈ b, isBreak c = true) ∧ k.rest = b ++ after.rest ∧
      after.mark.column = 0 := by
  unfold lineBreak? at h
  split at h
  · rename_i cs heq
    obtain ⟨-, rfl⟩ := Prod.mk.inj (Option.some.inj h)
    exact ⟨['\r', '\n'], by simp, by simp [isBreak], heq, rfl⟩
  · rename_i c cs _ heq
    have hone : ∀ {c : Char}, isBreak c = true → ∀ d ∈ [c], isBreak d = true := by
      intro c hc d hd
      rwa [List.mem_singleton.1 hd]
    split at h
    · rename_i hc
      obtain ⟨-, rfl⟩ := Prod.mk.inj (Option.some.inj h)
      have hbreak : isBreak c = true := by
        rw [Bool.or_eq_true] at hc
        simp only [isBreak, Bool.or_eq_true]
        rcases hc with hc | hc
        · exact Or.inl (Or.inr hc)
        · exact Or.inr hc
      exact ⟨[c], by simp, hone hbreak, heq, rfl⟩
    · split at h
      · rename_i hc
        obtain ⟨-, rfl⟩ := Prod.mk.inj (Option.some.inj h)
        exact ⟨[c], by simp, hone hc, heq, rfl⟩
      · exact absurd h.symm (Option.some_ne_none _)
  · exact absurd h.symm (Option.some_ne_none _)

theorem lineBreak?_eq_none_iff {k : Cursor} {c : Char} {cs : List Char} (hrest : k.rest = c :: cs) :
    k.lineBreak? = none ↔ isBreak c = false := by
  constructor
  · intro h
    unfold lineBreak? at h
    rw [hrest] at h
    split at h
    · exact absurd h (Option.some_ne_none _)
    · rename_i d ds _ heq
      rw [(List.cons.inj heq).1]
      split at h
      · exact absurd h (Option.some_ne_none _)
      · split at h
        · exact absurd h (Option.some_ne_none _)
        · rename_i hbreak
          exact Bool.eq_false_iff.2 hbreak
    · rename_i heq
      exact absurd heq (by simp)
  · intro hc
    cases hbreak : k.lineBreak? with
    | none => rfl
    | some found =>
      -- the first character of a break is the one at the cursor
      obtain ⟨text, after⟩ := found
      obtain ⟨b, hne, hall, hsplit, -⟩ := lineBreak?_eq_some hbreak
      obtain ⟨d, ds, rfl⟩ := List.exists_cons_of_ne_nil hne
      rw [hrest, List.cons_append] at hsplit
      have hd := hall d List.mem_cons_self
      rw [← (List.cons.inj hsplit).1, hc] at hd
      exact absurd hd (by decide)

theorem length_run_lt {p : Char → Bool} {k : Cursor} {c : Char} {cs : List Char}
    (hrest : k.rest = c :: cs) (hc : p c = true) :
    (k.run p).2.rest.length < k.rest.length := by
  have hsplit := congrArg List.length (k.run_append p)
  have htake : (k.run p).1 = c :: cs.takeWhile p := by
    show k.rest.takeWhile p = _
    rw [hrest, List.takeWhile_cons_of_pos hc]
  rw [htake, List.length_append, List.length_cons] at hsplit
  omega

theorem length_lineBreak_lt {k after : Cursor} {text : List Char}
    (h : k.lineBreak? = some (text, after)) : after.rest.length < k.rest.length := by
  obtain ⟨b, hne, -, hsplit, -⟩ := lineBreak?_eq_some h
  have hpos := List.length_pos_iff.2 hne
  rw [hsplit, List.length_append]
  omega

end Cursor

namespace Gap

theorem broken_addBreak (g : Gap) (text : List Char) : (g.addBreak text).broken = true := by
  rw [addBreak]
  split
  · assumption
  · rfl

/-- Whether a gap was read up to the next word: all separations are passed over, and if a line break
is the last of them, the gap is broken and the cursor at the start of a line. -/
structure Passes (g : Gap) (k : Cursor) (g' : Gap) (k' : Cursor) : Prop where
  rest : k'.rest = k.rest.dropWhile isSeparation
  same : k.rest.takeWhile isSeparation = [] → g' = g ∧ k' = k
  atLineStart : (k.rest.takeWhile isSeparation).getLast?.any isBreak = true →
    g'.broken = true ∧ k'.mark.column = 0

theorem passes_self (g : Gap) {k : Cursor} (h : k.rest.takeWhile isSeparation = []) :
    Passes g k g k := by
  have hrest := List.takeWhile_append_dropWhile (p := isSeparation) (l := k.rest)
  rw [h, List.nil_append] at hrest
  refine ⟨hrest.symm, fun _ => ⟨rfl, rfl⟩, ?_⟩
  rw [h]
  intro hlast
  exact absurd hlast (by decide)

/-- A run of separations may be passed over first. -/
theorem passes_append {g between g' : Gap} {k middle k' : Cursor} {b : List Char} (hne : b ≠ [])
    (hb : ∀ c ∈ b, isSeparation c = true) (hsplit : k.rest = b ++ middle.rest)
    (hlast : b.getLast?.any isBreak = true → between.broken = true ∧ middle.mark.column = 0)
    (h : Passes between middle g' k') : Passes g k g' k' := by
  have hdrop : k.rest.dropWhile isSeparation = middle.rest.dropWhile isSeparation := by
    rw [hsplit, List.dropWhile_append_of_pos hb]
  have htake : k.rest.takeWhile isSeparation = b ++ middle.rest.takeWhile isSeparation := by
    rw [hsplit, List.takeWhile_append_of_pos hb]
  refine ⟨h.rest.trans hdrop.symm, ?_, ?_⟩
  · intro hnone
    rw [htake, List.append_eq_nil_iff] at hnone
    exact absurd hnone.1 hne
  · -- the last separation is that of the first run, or one of the later ones
    rw [htake, List.getLast?_append]
    cases hrest : (middle.rest.takeWhile isSeparation).getLast? with
    | none =>
      intro hbreak
      obtain ⟨rfl, rfl⟩ := h.same (List.getLast?_eq_none_iff.1 hrest)
      exact hlast hbreak
    | some c =>
      intro hbreak
      apply h.atLineStart
      rw [hrest]
      exact hbreak

/-- A run of blanks may be passed over first. -/
theorem Passes.blanks {g between g' : Gap} {k k' : Cursor} {c : Char} {cs : List Char}
    (hrest : k.rest = c :: cs) (hc : isSpace c = true)
    (h : Passes between (k.run isSpace).2 g' k') : Passes g k g' k' := by
  have hall : ∀ d ∈ (k.run isSpace).1, isSpace d = true := List.all_eq_true.1 List.all_takeWhile
  have hne : (k.run isSpace).1 ≠ [] := by
    show k.rest.takeWhile isSpace ≠ []
    rw [hrest, List.takeWhile_cons_of_pos hc]
    exact List.cons_ne_nil _ _
  refine passes_append hne (fun d hd => isSeparation_of_isSpace (hall d hd))
    (k.run_append isSpace).symm ?_ h
  intro hbreak
  obtain ⟨d, hd, hdBreak⟩ := (Option.any_eq_true _ _).1 hbreak
  rw [isBreak_of_isSpace (hall d (List.mem_of_getLast? hd))] at hdBreak
  exact absurd hdBreak (by decide)

/-- A line break may be passed over first. -/
theorem Passes.lineBreak {g g' : Gap} {k after k' : Cursor} {text : List Char}
    (hbreak : k.lineBreak? = some (text, after)) (h : Passes (g.addBreak text) after g' k') :
    Passes g k g' k' := by
  obtain ⟨b, hne, hall, hsplit, hcolumn⟩ := Cursor.lineBreak?_eq_some hbreak
  exact passes_append hne (fun d hd => isSeparation_of_isBreak (hall d hd)) hsplit
    (fun _ => ⟨broken_addBreak g text, hcolumn⟩) h

theorem passes_of_read {limit n : Nat} {g g' : Gap} {k k' : Cursor} (hn : k.rest.length ≤ n)
    (h : Gap.read limit n g k = .ok (g', k')) : Passes g k g' k' := by
  -- on the number of runs; after each of them the rest is shorter
  induction n generalizing g k with
  | zero =>
    obtain ⟨rfl, rfl⟩ := Prod.mk.inj (Except.ok.inj h)
    apply passes_self
    rw [List.length_eq_zero_iff.1 (Nat.le_zero.1 hn)]
    rfl
  | succ n ih =>
    rw [Gap.read] at h
    split at h
    · rename_i hrest
      obtain ⟨rfl, rfl⟩ := Prod.mk.inj (Except.ok.inj h)
      apply passes_self
      rw [hrest]
      rfl
    · rename_i c cs hrest
      split at h
      · rename_i hspace
        simp only at h
        split at h
        · exact absurd h (by simp)
        · have hlength := Cursor.length_run_lt hrest hspace
          exact (ih (by omega) h).blanks hrest hspace
      · rename_i hspace
        split at h
        · rename_i hnone
          obtain ⟨rfl, rfl⟩ := Prod.mk.inj (Except.ok.inj h)
          apply passes_self
          have hword : isSeparation c = false := by
            rw [isSeparation, Bool.eq_false_iff.2 hspace,
              (Cursor.lineBreak?_eq_none_iff hrest).1 hnone]
            rfl
          rw [hrest, List.takeWhile_cons_of_neg (by simp [hword])]
        · rename_i text after hbreak
          have hlength := Cursor.length_lineBreak_lt hbreak
          exact (ih (by omega) h).lineBreak hbreak

theorem read_of_word {c : Char} {cs : List Char} {k : Cursor} (hrest : k.rest = c :: cs)
    (hc : isSeparation c = false) (limit n : Nat) (g : Gap) :
    Gap.read limit n g k = .ok (g, k) := by
  cases n with
  | zero => rfl
  | succ n =>
    rw [isSeparation, Bool.or_eq_false_iff] at hc
    have hbreak : k.lineBreak? = none := (Cursor.lineBreak?_eq_none_iff hrest).2 hc.2
    rw [Gap.read, hrest]
    simp [hc.1, hbreak]

end Gap

/-! ## Words -/

theorem Cursor.not_atDocumentIndicator {c : Char} {cs : List Char} {k : Cursor}
    (hrest : k.rest = c :: cs) (hc : c.isAlphanum = true) : k.atDocumentIndicator = false := by
  have hindicator : startsDocumentIndicator (c :: cs) = false := by
    unfold startsDocumentIndicator
    split
    · rename_i heq
      exact absurd (List.cons.inj heq).1 (ne_of_isAlphanum hc (by decide))
    · rename_i heq
      exact absurd (List.cons.inj heq).1 (ne_of_isAlphanum hc (by decide))
    · rfl
  rw [Cursor.atDocumentIndicator, hrest, hindicator, Bool.and_false]

namespace Plain

theorem word_of_startsSeparated {rest : List Char} (h : startsSeparated rest = true) :
    word false rest = ([], false) := by
  cases rest with
  | nil => rfl
  | cons c cs =>
    have hc : isSeparation c = true := h
    simp [word, endsBefore, hc]

theorem word_colon {rest : List Char} (h : startsSeparated rest = true) :
    word false (':' :: rest) = ([], false) := by
  simp [word, endsBefore, h]

theorem word_append {w rest : List Char} (hw : ∀ c ∈ w, isSeparation c = false ∧ c ≠ ':')
    (hrest : word false rest = ([], false)) : word false (w ++ rest) = (w, false) := by
  induction w with
  | nil => exact hrest
  | cons c w ih =>
    obtain ⟨hseparation, hcolon⟩ := hw c List.mem_cons_self
    have htail := ih fun d hd => hw d (List.mem_cons_of_mem c hd)
    simp [word, endsBefore, hseparation, hcolon, htail]

/-- Reading stops where no word begins. -/
theorem read_of_word_nil {k : Cursor} (h : word false k.rest = ([], false)) (indent n : Nat)
    (start : Mark) (text : List Char) (gap : Gap) :
    read false indent start n text gap k = .ok ⟨text, k, gap.broken⟩ := by
  cases n with
  | zero => rfl
  | succ n =>
    rw [read, h]
    simp

/-- Reading stops before a comment. -/
theorem read_of_comment {k : Cursor} (h : k.rest.head? = some '#') (indent n : Nat)
    (start : Mark) (text : List Char) (gap : Gap) :
    read false indent start n text gap k = .ok ⟨text, k, gap.broken⟩ := by
  cases n with
  | zero => rfl
  | succ n =>
    rw [read, h]
    simp

/-- The first word is read up to what ends it, and then the gap after it. -/
theorem read_word {w rest : List Char} {m : Mark} (hw : isPlainWord w = true)
    (hrest : word false rest = ([], false)) (indent n : Nat) (start : Mark) :
    read false indent start (n + 1) [] Gap.empty ⟨w ++ rest, m⟩ =
      match Gap.empty.read indent rest.length ⟨rest, m.past w⟩ with
      | .error mark => .error (.within .plainScalar start .tabBreaksIndentation mark)
      | .ok (gap, k) =>
        if k.mark.column < indent then .ok ⟨w, k, gap.broken⟩
        else read false indent start n w gap k := by
  obtain ⟨⟨c, cs, rfl, hc⟩, hall⟩ := isPlainWord_iff.1 hw
  have hindicator : (⟨c :: cs ++ rest, m⟩ : Cursor).atDocumentIndicator = false :=
    Cursor.not_atDocumentIndicator (List.cons_append) hc
  have hhash : ((c :: cs ++ rest).head? == some '#') = false := by
    simpa using ne_of_isAlphanum hc (by decide)
  rw [read, hindicator, hhash]
  have hfold : [] ++ Gap.empty.fold ++ c :: cs = c :: cs := rfl
  simp only [word_append hall hrest, Cursor.forward_append, hfold]
  cases Gap.empty.read indent rest.length ⟨rest, m.past (c :: cs)⟩ with
  | error mark => rfl
  | ok found => simp

end Plain

/-- A word before a colon is read as a key. -/
theorem Cursor.plain_key {w rest : List Char} {m : Mark} {indent : Nat} (hw : isPlainWord w = true)
    (hrest : startsSeparated rest = true) (hindent : indent ≤ 1) :
    (⟨w ++ ':' :: rest, m⟩ : Cursor).plain false indent =
      .ok ⟨w, ⟨':' :: rest, m.past w⟩, false⟩ := by
  have hcolon := Plain.word_colon hrest
  have hgap := Gap.read_of_word (k := ⟨':' :: rest, m.past w⟩) rfl (by decide) indent
    (':' :: rest).length Gap.empty
  have hlength : 0 < w.length := by
    obtain ⟨⟨c, cs, rfl, -⟩, -⟩ := isPlainWord_iff.1 hw
    exact Nat.succ_pos _
  have hcolumn : ¬(m.past w).column < indent := by
    show ¬m.column + w.length < indent
    omega
  rw [Cursor.plain, Plain.read_word hw hcolon, hgap]
  simp only
  rw [if_neg hcolumn, Plain.read_of_word_nil hcolon]
  rfl

/-- Whether a cursor stands past the separations at the start of a text: if a line break is the last
of them, it was noticed, and the cursor is at the start of a line. -/
structure Cursor.IsPast (k : Cursor) (broken : Bool) (rest : List Char) : Prop where
  passed : k.rest = rest.dropWhile isSeparation
  atLineStart : (rest.takeWhile isSeparation).getLast?.any isBreak = true →
    broken = true ∧ k.mark.column = 0

/-- A word at the end of a line is read as a value, if no later line goes on with it. -/
theorem Cursor.plain_value {w rest : List Char} {m : Mark} {scanned : Plain.Scanned}
    (hw : isPlainWord w = true) (hrest : endsScalar rest = true)
    (h : (⟨w ++ rest, m⟩ : Cursor).plain false 1 = .ok scanned) :
    scanned.text = w ∧ scanned.after.IsPast scanned.broken rest := by
  rw [endsScalar, Bool.and_eq_true] at hrest
  obtain ⟨hstart, hends⟩ := hrest
  rw [Cursor.plain, Plain.read_word hw (Plain.word_of_startsSeparated hstart)] at h
  split at h
  · exact absurd h (by simp)
  · rename_i gap k hgap
    have hpasses : Gap.empty.Passes ⟨rest, m.past w⟩ gap k :=
      Gap.passes_of_read (Nat.le_refl rest.length) hgap
    -- wherever reading stops, it is after the gap
    have hscanned : scanned = ⟨w, k, gap.broken⟩ := by
      split at h
      · exact (Except.ok.inj h).symm
      · rename_i hcolumn
        have hnotBreak : (rest.takeWhile isSeparation).getLast?.any isBreak = false := by
          apply Bool.eq_false_iff.2
          intro hbreak
          have hzero := (hpasses.atLineStart hbreak).2
          omega
        rw [hnotBreak] at hends
        cases hnext : (rest.dropWhile isSeparation).head? with
        | none =>
          have hempty : k.rest = [] := by
            rw [hpasses.rest]
            exact List.head?_eq_none_iff.1 hnext
          have hnil : Plain.word false k.rest = ([], false) := by
            rw [hempty]
            rfl
          rw [Plain.read_of_word_nil hnil] at h
          exact (Except.ok.inj h).symm
        | some c =>
          rw [hnext, Option.all_some, Bool.or_false, beq_iff_eq] at hends
          have hcomment : k.rest.head? = some '#' := by
            rw [hpasses.rest, ← hends]
            exact hnext
          rw [Plain.read_of_comment hcomment] at h
          exact (Except.ok.inj h).symm
    rw [hscanned]
    exact ⟨rfl, hpasses.rest, hpasses.atLineStart⟩

end ResourceGraph.Yaml

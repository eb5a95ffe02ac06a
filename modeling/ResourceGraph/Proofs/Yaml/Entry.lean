import ResourceGraph.Proofs.Yaml.WrittenScalar
import ResourceGraph.Yaml.Event

/-!
# Entries at the start of a line

An entry `key: value` at the start of a line, of a plain word and a word written in any style, is
read as three tokens of the key, up to its colon (`TokenQueue.fill_key`), and one of the value
(`TokenQueue.fill_value`). Behind a value, the blanks, the comment and the line breaks up to an entry
at the start of a later line are passed over (`TokenQueue.exists_skipToToken_follows`).
-/

set_option autoImplicit false

namespace ResourceGraph.Yaml

/-- Whether a computation, if it succeeds, gives a result with a property. -/
def Ensures {ε α : Type} (x : Except ε α) (P : α → Prop) : Prop := ∀ a, x = .ok a → P a

section Ensures

variable {ε α β : Type} {x : Except ε α} {P : α → Prop}

theorem ensures_ok {a : α} (h : P a) : Ensures (.ok a : Except ε α) P := by
  intro b hb
  rwa [← Except.ok.inj hb]

theorem ensures_error (e : ε) (P : α → Prop) : Ensures (.error e) P := by
  intro a ha
  exact absurd ha (by simp)

theorem Ensures.bind {f : α → Except ε β} {Q : β → Prop} (hx : Ensures x P)
    (hf : ∀ a, P a → Ensures (f a) Q) : Ensures (x >>= f) Q := by
  intro b hb
  cases x with
  | error e => exact absurd hb (by simp [bind, Except.bind])
  | ok a => exact hf a (hx a rfl) b hb

theorem Ensures.mono {Q : α → Prop} (hx : Ensures x P) (h : ∀ a, P a → Q a) : Ensures x Q :=
  fun a ha => h a (hx a ha)

end Ensures

namespace Cursor

variable {k : Cursor} {c : Char} {cs : List Char}

theorem skipComment_of_ne (hrest : k.rest = c :: cs) (hc : c ≠ '#') : k.skipComment = k := by
  unfold skipComment
  split
  · rename_i heq
    rw [hrest] at heq
    exact absurd (List.cons.inj heq).1 hc
  · rfl

theorem rest_skipRun (k : Cursor) (p : Char → Bool) : (k.skipRun p).rest = k.rest.dropWhile p :=
  drop_length_takeWhile p k.rest

/-- A comment is skipped up to the end of its line. -/
theorem rest_skipComment {comment brk next : List Char} (hrest : k.rest = comment ++ (brk ++ next))
    (hcomment : IsComment comment) (hbrk : ∀ c ∈ brk, isBreak c = true) (hne : brk ≠ []) :
    k.skipComment.rest = brk ++ next := by
  obtain ⟨b, brk, rfl⟩ := List.exists_cons_of_ne_nil hne
  have hb : isBreak b = true := hbrk b List.mem_cons_self
  cases hcomment with
  | none =>
    rw [skipComment_of_ne hrest, hrest]
    · rfl
    · rintro rfl
      exact absurd hb (by decide)
  | @text text htext =>
    have hskip : k.skipComment = k.skipRun fun c => !isBreak c := by
      unfold skipComment
      split
      · rfl
      · rename_i hother
        exact absurd hrest (hother _)
    have hall : ∀ c ∈ '#' :: text, (!isBreak c) = true := by
      intro c hc
      rcases List.mem_cons.1 hc with rfl | hc
      · decide
      · rw [htext c hc]
        rfl
    rw [hskip, rest_skipRun, hrest]
    exact dropWhile_append_cons hall (by simp [hb])

/-- Where the rest begins with breaks, the first of them is read and the others are left. -/
theorem exists_lineBreak {brk next : List Char} (hrest : k.rest = brk ++ next)
    (hbrk : ∀ c ∈ brk, isBreak c = true) (hne : brk ≠ [])
    (hnext : ∀ c ∈ next.head?, isBreak c = false) :
    ∃ text brk' m, k.lineBreak? = some (text, ⟨brk' ++ next, m⟩) ∧ m.column = 0 ∧
      (∀ c ∈ brk', isBreak c = true) ∧ brk'.length < brk.length := by
  cases hbreak : k.lineBreak? with
  | none =>
    obtain ⟨b, more, rfl⟩ := List.exists_cons_of_ne_nil hne
    rw [lineBreak?_eq_none_iff hrest, hbrk b List.mem_cons_self] at hbreak
    exact absurd hbreak (by decide)
  | some found =>
    obtain ⟨text, after, m⟩ := found
    obtain ⟨b, hb, hall, hsplit, hcolumn⟩ := lineBreak?_eq_some hbreak
    rw [hrest] at hsplit
    -- the break that is read ends before the next line does, since that begins with no break
    rcases List.append_eq_append_iff.1 hsplit with ⟨more, rfl, hmore⟩ | ⟨brk', rfl, hafter⟩
    · cases more with
      | nil =>
        obtain rfl : after = next := hmore.symm
        exact ⟨text, [], m, rfl, hcolumn, by simp, List.length_pos_iff.2 hne⟩
      | cons c more =>
        have hc : isBreak c = true := hall c (by simp)
        rw [hnext c (by rw [hmore]; rfl)] at hc
        exact absurd hc (by decide)
    · obtain rfl : after = brk' ++ next := hafter
      have hpos := List.length_pos_iff.2 hb
      refine ⟨text, brk', m, rfl, hcolumn, fun c hc => hbrk c (List.mem_append_right _ hc), ?_⟩
      rw [List.length_append]
      omega

end Cursor

namespace TokenQueue

variable {q : TokenQueue} {c : Char} {cs : List Char} {P : TokenQueue → Prop}

/-! ## Steps that change nothing -/

/-- Whether a queue stands outside of brackets and its key candidate, if it has one, still counts. -/
structure IsFresh (q : TokenQueue) : Prop where
  outer : q.outerCandidates = []
  candidate : ∀ c, q.candidate = some c → q.isStale c = false

theorem IsFresh.inFlow (h : q.IsFresh) : q.inFlow = false := by
  rw [TokenQueue.inFlow, h.outer]
  rfl

theorem IsFresh.dropStale (h : q.IsFresh) : q.dropStale = .ok q := by
  have houter : q.checkOuter q.outerCandidates = .ok q.outerCandidates := by
    rw [h.outer]
    rfl
  have hcandidate : q.checkStale q.candidate = .ok q.candidate := by
    cases hc : q.candidate with
    | none => rfl
    | some c => rw [checkStale, if_neg (by simp [h.candidate c hc])]
  rw [TokenQueue.dropStale, houter, hcandidate]
  rfl

theorem isFresh_of_none (houter : q.outerCandidates = []) (h : q.candidate = none) : q.IsFresh := by
  refine ⟨houter, ?_⟩
  intro c hc
  rw [h] at hc
  exact absurd hc.symm (Option.some_ne_none c)

theorem guarded_ensures (q : TokenQueue) (ahead : Nat) : Ensures (q.guarded ahead) (· = q) := by
  rw [guarded]
  split
  · exact ensures_error _ _
  · exact ensures_ok rfl

theorem closeBlocks_of_le {column : Int} (h : q.indent ≤ column) : q.closeBlocks column = q := by
  rw [closeBlocks]
  split
  · rfl
  · cases q.outerIndents with
    | nil => rfl
    | cons outer rest => rw [closeBlocksTo, if_neg (by omega)]

/-! ## Reading one token -/

/-- What a queue reads is what it reads after the blanks and breaks before the next token. -/
theorem readNext_ensures {q' : TokenQueue} (hstarted : q.started = true)
    (hskip : skipToToken (q.cursor.rest.length + 1) q = q') (hfresh : q'.IsFresh)
    (hindent : q'.indent ≤ q'.mark.column) (h : Ensures q'.readToken P) :
    Ensures q.readNext P := by
  rw [readNext, if_pos hstarted, hskip]
  refine Ensures.bind (guarded_ensures q' 1) ?_
  intro q₁ h₁
  rw [h₁, hfresh.dropStale]
  show Ensures ((q'.closeBlocks q'.mark.column).guarded 4 >>= readGuarded) P
  rw [closeBlocks_of_le hindent]
  refine Ensures.bind (guarded_ensures q' 4) ?_
  intro q₂ h₂
  rw [h₂]
  intro after hafter
  rw [readGuarded] at hafter
  split at hafter
  · rename_i read hread
    rw [guarded_ensures read 0 after hafter]
    exact h read hread
  · split at hafter <;> exact absurd hafter (by simp)

/-! ## Up to the next token -/

/-- Whether a blank is passed over before a token: a tab is one only where no key may begin. -/
def skips (q : TokenQueue) (d : Char) : Bool :=
  d == ' ' || ((q.inFlow || !q.keyAllowed) && d == '\t')

theorem skipRun_skips {gap : List Char} (hrest : q.cursor.rest = gap ++ c :: cs)
    (hgap : ∀ d ∈ gap, isSpace d = true) (hallowed : gap ≠ [] → q.keyAllowed = false)
    (hc : isSpace c = false) : q.cursor.skipRun q.skips = ⟨c :: cs, q.mark.past gap⟩ := by
  rw [isSpace, Bool.or_eq_false_iff] at hc
  have hblanks : ∀ d ∈ gap, q.skips d = true := by
    intro d hd
    rw [skips, hallowed (List.ne_nil_of_mem hd), Bool.not_false, Bool.or_true, Bool.true_and]
    exact hgap d hd
  have htake : (gap ++ c :: cs).takeWhile q.skips = gap :=
    takeWhile_append_cons hblanks (by simp [skips, hc.1, hc.2])
  rw [Cursor.skipRun, Cursor.run, hrest, htake, Cursor.forward, hrest, List.take_left,
    List.drop_left]
  rfl

theorem head?_ne_of_blanks {gap : List Char} (hgap : ∀ d ∈ gap, isSpace d = true) (hne : gap ≠ []) :
    (gap ++ cs).head? ≠ some '\ufeff' := by
  obtain ⟨d, gap, rfl⟩ := List.exists_cons_of_ne_nil hne
  intro hhead
  have hd := hgap d List.mem_cons_self
  rw [Option.some.inj hhead] at hd
  exact absurd hd (by decide)

section Skip

variable (hmark : q.cursor.rest.head? ≠ some '\ufeff')
include hmark

/-- Where a token comes next on the line, the queue moves there. -/
theorem skipToToken_of_none {k : Cursor} (hk : (q.cursor.skipRun q.skips).skipComment = k)
    (hbreak : k.lineBreak? = none) (n : Nat) : skipToToken (n + 1) q = q.moveTo k := by
  have hfirst : (q.mark.column == 0 && q.cursor.rest.head? == some '\ufeff') = false := by
    simp [hmark]
  have hmoved : (q.cursor.skipRun fun d =>
      d == ' ' || ((q.inFlow || !q.keyAllowed) && d == '\t')).skipComment = k := hk
  rw [skipToToken, hfirst]
  simp [hmoved, hbreak]

/-- Where a line ends before the next token, the queue goes on behind its break. -/
theorem skipToToken_of_some {after : Cursor} {text : List Char}
    (hbreak : (q.cursor.skipRun q.skips).skipComment.lineBreak? = some (text, after)) (n : Nat) :
    skipToToken (n + 1) q =
      skipToToken n { q with cursor := after, keyAllowed := q.keyAllowed || !q.inFlow } := by
  have hfirst : (q.mark.column == 0 && q.cursor.rest.head? == some '\ufeff') = false := by
    simp [hmark]
  have hmoved : (q.cursor.skipRun fun d =>
      d == ' ' || ((q.inFlow || !q.keyAllowed) && d == '\t')).skipComment.lineBreak? =
      some (text, after) := hbreak
  rw [skipToToken, hfirst]
  simp only [Bool.false_eq_true, if_false, hmoved]

/-- Blanks before a token are passed over where no key may begin. -/
theorem skipToToken_of_blanks {gap : List Char} (hrest : q.cursor.rest = gap ++ c :: cs)
    (hgap : ∀ d ∈ gap, isSpace d = true) (hallowed : gap ≠ [] → q.keyAllowed = false)
    (hc : isSeparation c = false) (hhash : c ≠ '#') (n : Nat) :
    skipToToken (n + 1) q = q.moveTo ⟨c :: cs, q.mark.past gap⟩ := by
  rw [isSeparation, Bool.or_eq_false_iff] at hc
  apply skipToToken_of_none hmark
  · rw [skipRun_skips hrest hgap hallowed hc.1]
    exact Cursor.skipComment_of_ne rfl hhash
  · exact (Cursor.lineBreak?_eq_none_iff rfl).2 hc.2

end Skip

/-- At the start of a token nothing is passed over. -/
theorem skipToToken_of_start (hrest : q.cursor.rest = c :: cs) (hc : isSeparation c = false)
    (hhash : c ≠ '#') (hmark : c ≠ '\ufeff') (n : Nat) : skipToToken n q = q := by
  cases n with
  | zero => rfl
  | succ n =>
    have hfirst : q.cursor.rest.head? ≠ some '\ufeff' := by
      rw [hrest]
      exact fun hhead => hmark (Option.some.inj hhead)
    have hnone : q.cursor.rest = [] ++ c :: cs := hrest
    rw [skipToToken_of_blanks hfirst hnone (by simp) (absurd rfl) hc hhash, moveTo, ← hrest]
    rfl

theorem eq_of_cursor (hrest : q.cursor.rest = cs) (hallowed : q.keyAllowed = true) :
    q = { q with cursor := ⟨cs, q.mark⟩, keyAllowed := true } := by
  obtain ⟨⟨rest, m⟩, _, _, _, _, _, _, _, _, _⟩ := q
  obtain rfl : rest = cs := hrest
  obtain rfl : _ = true := hallowed
  rfl

section Lines

variable {gap comment brk : List Char} (hflow : q.inFlow = false)
  (hbrk : ∀ d ∈ brk, isBreak d = true)

omit hflow in
include hbrk in
/-- What follows the blanks at the end of a line is a number sign or a break. -/
theorem exists_cons_lineEnd (hcomment : IsComment comment) (hne : brk ≠ []) (next : List Char) :
    ∃ c cs, comment ++ (brk ++ next) = c :: cs ∧ isSpace c = false ∧ c ≠ '\ufeff' := by
  cases hcomment with
  | none =>
    obtain ⟨b, more, rfl⟩ := List.exists_cons_of_ne_nil hne
    have hb : isBreak b = true := hbrk b List.mem_cons_self
    refine ⟨b, more ++ next, rfl, ?_, ?_⟩
    · apply Bool.eq_false_iff.2
      intro hspace
      rw [isBreak_of_isSpace hspace] at hb
      exact absurd hb (by decide)
    · rintro rfl
      exact absurd hb (by decide)
  | text _ => exact ⟨'#', _, rfl, by decide, by decide⟩

include hflow hbrk

/-- The end of a line is passed over: blanks, where no key may begin, a comment, and one break. -/
theorem exists_skipToToken_lineEnd {next : List Char}
    (hrest : q.cursor.rest = gap ++ (comment ++ (brk ++ next)))
    (hgap : ∀ d ∈ gap, isSpace d = true) (hallowed : gap ≠ [] → q.keyAllowed = false)
    (hcomment : IsComment comment) (hne : brk ≠ [])
    (hnext : ∀ d ∈ next.head?, isBreak d = false) (n : Nat) :
    ∃ brk' m, m.column = 0 ∧ (∀ d ∈ brk', isBreak d = true) ∧ brk'.length < brk.length ∧
      skipToToken (n + 1) q =
        skipToToken n { q with cursor := ⟨brk' ++ next, m⟩, keyAllowed := true } := by
  obtain ⟨c, cs, hstart, hspace, hc⟩ := exists_cons_lineEnd hbrk hcomment hne next
  have hmark : q.cursor.rest.head? ≠ some '\ufeff' := by
    rw [hrest, hstart]
    by_cases hnone : gap = []
    · rw [hnone]
      exact fun hhead => hc (Option.some.inj hhead)
    · exact head?_ne_of_blanks hgap hnone
  have hrun : (q.cursor.skipRun q.skips).rest = comment ++ (brk ++ next) := by
    rw [hstart] at hrest
    rw [skipRun_skips hrest hgap hallowed hspace, hstart]
  obtain ⟨text, brk', m, hbreak, hcolumn, hbrk', hlength⟩ :=
    Cursor.exists_lineBreak (Cursor.rest_skipComment hrun hcomment hbrk hne) hbrk hne hnext
  refine ⟨brk', m, hcolumn, hbrk', hlength, ?_⟩
  rw [skipToToken_of_some hmark hbreak, hflow, Bool.not_false, Bool.or_true]

variable (hc : c.isAlphanum = true)
include hc

/-- Breaks at the start of a line are passed over. -/
theorem exists_skipToToken_breaks (hrest : q.cursor.rest = brk ++ c :: cs)
    (hallowed : q.keyAllowed = true) (hcolumn : q.mark.column = 0) {n : Nat}
    (hn : brk.length ≤ n) :
    ∃ m, m.column = 0 ∧
      skipToToken n q = { q with cursor := ⟨c :: cs, m⟩, keyAllowed := true } := by
  have hseparation : isSeparation c = false := isSeparation_of_isAlphanum hc
  -- on the number of breaks; reading one leaves fewer of them
  induction n generalizing brk q with
  | zero =>
    obtain rfl := List.length_eq_zero_iff.1 (Nat.le_zero.1 hn)
    exact ⟨q.mark, hcolumn, eq_of_cursor hrest hallowed⟩
  | succ n ih =>
    by_cases hne : brk = []
    · rw [hne, List.nil_append] at hrest
      rw [skipToToken_of_start hrest hseparation (ne_of_isAlphanum hc (by decide))
        (ne_of_isAlphanum hc (by decide))]
      exact ⟨q.mark, hcolumn, eq_of_cursor hrest hallowed⟩
    · rw [isSeparation, Bool.or_eq_false_iff] at hseparation
      have hline : q.cursor.rest = [] ++ ([] ++ (brk ++ c :: cs)) := hrest
      obtain ⟨brk', m, hm, hbrk', hlength, hskip⟩ := exists_skipToToken_lineEnd hflow hbrk hline
        (by simp) (absurd rfl) .none hne (by simp [hseparation.2]) n
      rw [hskip]
      exact ih hflow hbrk' rfl rfl hm (by omega)

/-- The end of a line and the breaks after it are passed over. -/
theorem exists_skipToToken_line (hrest : q.cursor.rest = gap ++ (comment ++ (brk ++ c :: cs)))
    (hgap : ∀ d ∈ gap, isSpace d = true) (hallowed : gap ≠ [] → q.keyAllowed = false)
    (hcomment : IsComment comment) (hne : brk ≠ []) :
    ∃ m, m.column = 0 ∧ skipToToken (q.cursor.rest.length + 1) q =
      { q with cursor := ⟨c :: cs, m⟩, keyAllowed := true } := by
  have hseparation : isSeparation c = false := isSeparation_of_isAlphanum hc
  rw [isSeparation, Bool.or_eq_false_iff] at hseparation
  obtain ⟨brk', m, hm, hbrk', hlength, hskip⟩ := exists_skipToToken_lineEnd hflow hbrk hrest hgap
    hallowed hcomment hne (by simp [hseparation.2]) q.cursor.rest.length
  have hfuel : brk'.length ≤ q.cursor.rest.length := by
    rw [hrest]
    simp only [List.length_append]
    omega
  rw [hskip]
  exact exists_skipToToken_breaks
    (q := { q with cursor := ⟨brk' ++ c :: cs, m⟩, keyAllowed := true }) hflow hbrk' hc rfl rfl hm
    hfuel

/-- Behind a value, what is left of its line and the breaks after that are passed over. -/
theorem exists_skipToToken_follows {k : Cursor} {allowed : Bool} {tail : List Char}
    (h : k.Follows allowed (tail ++ (brk ++ c :: cs))) (htail : IsTail tail) (hne : brk ≠ [])
    (hcursor : q.cursor = k) (hallowed : q.keyAllowed = allowed) :
    ∃ m, m.column = 0 ∧ skipToToken (k.rest.length + 1) q =
      { q with cursor := ⟨c :: cs, m⟩, keyAllowed := true } := by
  subst hcursor hallowed
  have hseparation := isSeparation_of_isAlphanum hc
  obtain ⟨hgap, hcomment, -⟩ := htail
  rw [List.append_assoc] at h
  rcases h with hpast | ⟨hrest, hnone⟩
  · cases hcomment with
    | none =>
      -- the breaks are passed over already
      obtain ⟨hrest, hstart, hcolumn⟩ := hpast.of_breaks hgap hbrk hne hseparation
      refine ⟨q.mark, hcolumn, ?_⟩
      rw [skipToToken_of_start hrest hseparation (ne_of_isAlphanum hc (by decide))
        (ne_of_isAlphanum hc (by decide))]
      exact eq_of_cursor hrest hstart
    | @text text htext =>
      have hblanks := fun d hd => isSeparation_of_isSpace (hgap d hd)
      have hrest : q.cursor.rest = [] ++ ('#' :: text ++ (brk ++ c :: cs)) := by
        rw [hpast.passed, List.dropWhile_append_of_pos hblanks]
        rfl
      exact exists_skipToToken_line hflow hbrk hc hrest (by simp) (absurd rfl) (.text htext) hne
  · exact exists_skipToToken_line hflow hbrk hc hrest hgap (fun _ => hnone) hcomment hne

end Lines

/-! ## What a token begins with -/

theorem readToken_of_isAlphanum (hrest : q.cursor.rest = c :: cs) (hc : c.isAlphanum = true) :
    q.readToken = q.readPlainScalar := by
  have hne : ∀ d, d.isAlphanum = false → (c == d) = false := fun d hd =>
    beq_eq_false_iff_ne.2 (ne_of_isAlphanum hc hd)
  have hindicator := Cursor.not_atDocumentIndicator hrest hc
  rw [readToken]
  split
  · rename_i heq
    rw [hrest] at heq
    exact absurd heq (by simp)
  · rename_i d ds heq
    obtain ⟨rfl, rfl⟩ := List.cons.inj (hrest.symm.trans heq)
    have hplain : startsPlain q.inFlow c cs = true := by
      have hindicators : ['-', '?', ':', '#', '&', '*', '!', '|', '>', '\'', '"', '%', '@',
          '\x60'].any Char.isAlphanum = false := by decide
      have hcontains : ['-', '?', ':', '#', '&', '*', '!', '|', '>', '\'', '"', '%', '@',
          '\x60'].contains c = false := by
        rw [Bool.eq_false_iff, Ne, List.contains_iff_mem]
        intro hmem
        exact List.any_eq_false.1 hindicators c hmem hc
      have hseparation : isSeparation c = false := isSeparation_of_isAlphanum hc
      have hflow : isFlowIndicator c = false := by
        simp (disch := decide) [isFlowIndicator, hne]
      rw [startsPlain, hseparation, hflow, hcontains]
      rfl
    simp (disch := decide) [hne, hindicator, hplain]

theorem readToken_of_colon (hrest : q.cursor.rest = ':' :: cs) (hcs : startsSeparated cs = true) :
    q.readToken = q.readValue := by
  have hindicator : q.cursor.atDocumentIndicator = false := by
    rw [Cursor.atDocumentIndicator, hrest]
    simp [startsDocumentIndicator]
  rw [readToken, hrest]
  simp [hindicator, hcs]

theorem readToken_of_quote (single : Bool) (hrest : q.cursor.rest = Quoted.quote single :: cs) :
    q.readToken = q.readQuotedScalar single := by
  have hindicator : q.cursor.atDocumentIndicator = false := by
    rw [Cursor.atDocumentIndicator, hrest]
    cases single <;> simp [Quoted.quote, startsDocumentIndicator]
  rw [readToken, hrest]
  cases single <;> simp [Quoted.quote, hindicator]

/-! ## Filling the queue -/

theorem fillUpTo_of_nil (h : q.tokens = []) (n : Nat) :
    fillUpTo (n + 1) q = q.readNext >>= fillUpTo n := by
  rw [fillUpTo, h]
  rfl

theorem fillUpTo_of_ne_nil (h : q.tokens ≠ []) (hfresh : q.IsFresh) (n : Nat) :
    fillUpTo (n + 1) q = if q.headIsCandidate then q.readNext >>= fillUpTo n else .ok q := by
  rw [fillUpTo, if_neg (by simpa using h), hfresh.dropStale]
  rfl

/-- A queue outside of brackets without a key candidate. -/
def settled (k : Cursor) (tokens : List Token) (taken : Nat) (indent : Int) (outer : List Int)
    (keyAllowed : Bool) (r : Option Refusal) : TokenQueue :=
  ⟨k, true, tokens, taken, indent, outer, none, [], keyAllowed, r⟩

variable {k : Cursor} {tokens : List Token} {taken : Nat} {indent : Int} {outer : List Int}
  {allowed : Bool} {r : Option Refusal}

theorem isFresh_settled : (settled k tokens taken indent outer allowed r).IsFresh :=
  isFresh_of_none rfl rfl

theorem fillUpTo_settled (h : tokens ≠ []) (n : Nat) :
    fillUpTo (n + 1) (settled k tokens taken indent outer allowed r) =
      .ok (settled k tokens taken indent outer allowed r) := by
  rw [fillUpTo_of_ne_nil h isFresh_settled]
  rfl

/-- The tokens of a key and its colon. -/
def keyTokens (w : List Char) (m : Mark) : List Token :=
  [⟨.key, m⟩, ⟨.scalar w .plain, m⟩, ⟨.value, m.past w⟩]

/-- The queue after the word of a key, which is its key candidate. -/
def afterWord (w rest : List Char) (m : Mark) (taken : Nat) (indent : Int) (outer : List Int)
    (r : Option Refusal) : TokenQueue :=
  ⟨⟨':' :: rest, m.past w⟩, true, [⟨.scalar w .plain, m⟩], taken, indent, outer,
    some ⟨indent == 0, taken, m⟩, [], false, r⟩

/-- The queue after the colon of a key at the start of a line, which opens a mapping if there is
none. -/
def afterColon (w rest : List Char) (m : Mark) (taken : Nat) (indent : Int) (outer : List Int)
    (r : Option Refusal) : TokenQueue :=
  if indent < 0 then
    settled ⟨rest, (m.past w).past [':']⟩ (⟨.blockMappingStart, m⟩ :: keyTokens w m) taken 0
      (indent :: outer) false r
  else settled ⟨rest, (m.past w).past [':']⟩ (keyTokens w m) taken indent outer false r

variable {w rest : List Char} {m : Mark}

theorem readPlainScalar_key (hw : isPlainWord w = true) (hrest : startsSeparated rest = true)
    (hcolumn : m.column = 0) (hindent : indent ≤ 0) :
    (settled ⟨w ++ ':' :: rest, m⟩ [] taken indent outer true r).readPlainScalar =
      .ok (afterWord w rest m taken indent outer r) := by
  have hplain := Cursor.plain_key (m := m) hw hrest (show (indent + 1).toNat ≤ 1 by omega)
  have hsave : (settled ⟨w ++ ':' :: rest, m⟩ [] taken indent outer true r).saveCandidate =
      .ok ⟨⟨w ++ ':' :: rest, m⟩, true, [], taken, indent, outer, some ⟨indent == 0, taken, m⟩, [],
        true, r⟩ := by
    show (Except.ok (TokenQueue.mk _ true [] taken indent outer
      (some ⟨indent == (m.column : Int), taken, m⟩) [] true r) : Except Fault TokenQueue) = _
    rw [hcolumn]
    rfl
  rw [readPlainScalar, hsave]
  show (Cursor.plain ⟨w ++ ':' :: rest, m⟩ false (indent + 1).toNat >>= _) = _
  rw [hplain]
  rfl

theorem isFresh_afterWord (hshort : Text.bytes w ≤ 1024) :
    (afterWord w rest m taken indent outer r).IsFresh := by
  refine ⟨rfl, ?_⟩
  intro c hc
  obtain rfl := Option.some.inj hc
  have hnear : ¬m.offset + 1024 < m.offset + Text.bytes w := by omega
  show (m.line < m.line || m.offset + 1024 < m.offset + Text.bytes w) = false
  simp [hnear]

/-- The colon after the word makes a key of it. -/
theorem readValue_afterWord (hcolumn : m.column = 0) :
    (afterWord w rest m taken indent outer r).readValue =
      .ok (afterColon w rest m taken indent outer r) := by
  by_cases hindent : indent < 0
  · simp [readValue, afterWord, afterColon, insertAt, openBlock, inFlow, push, moveTo, settled,
      keyTokens, mark, Cursor.forward, hcolumn, hindent]
  · simp [readValue, afterWord, afterColon, insertAt, openBlock, inFlow, push, moveTo, settled,
      keyTokens, mark, Cursor.forward, hcolumn, hindent]

/-- A key that comes next, at the start of a line, is read up to its colon. -/
theorem fill_key (hw : isPlainWord w = true) (hshort : Text.bytes w ≤ 1024)
    (hrest : startsSeparated rest = true) (hcolumn : m.column = 0) (hindent : indent ≤ 0)
    (hskip : skipToToken (k.rest.length + 1) (settled k [] taken indent outer allowed r) =
      settled ⟨w ++ ':' :: rest, m⟩ [] taken indent outer true r) :
    Ensures (settled k [] taken indent outer allowed r).fill fun q =>
      q = afterColon w rest m taken indent outer r := by
  obtain ⟨c, cs, hstart, hc⟩ := exists_cons_of_isPlainWord hw (':' :: rest)
  show Ensures (fillUpTo (k.rest.length + 3) _) _
  rw [fillUpTo_of_nil rfl]
  refine Ensures.bind (P := fun q => q = afterWord w rest m taken indent outer r) ?_ ?_
  · refine readNext_ensures rfl hskip isFresh_settled ?_ ?_
    · show indent ≤ (m.column : Int)
      omega
    · rw [readToken_of_isAlphanum hstart hc, readPlainScalar_key hw hrest hcolumn hindent]
      exact ensures_ok rfl
  · intro q hq
    rw [hq, fillUpTo_of_ne_nil (List.cons_ne_nil _ _) (isFresh_afterWord hshort),
      if_pos (by simp [headIsCandidate, afterWord])]
    -- the word is a key candidate, so the queue reads on to the colon and is done
    refine Ensures.bind (P := fun q => q = afterColon w rest m taken indent outer r) ?_ ?_
    · have hcolon : (afterWord w rest m taken indent outer r).cursor.rest = ':' :: rest := rfl
      have hskip := skipToToken_of_start hcolon (by decide) (by decide) (by decide)
        ((':' :: rest).length + 1)
      refine readNext_ensures rfl hskip (isFresh_afterWord hshort) ?_ ?_
      · show indent ≤ ((m.column + w.length : Nat) : Int)
        omega
      · rw [readToken_of_colon rfl hrest, readValue_afterWord hcolumn]
        exact ensures_ok rfl
    · intro q hq
      rw [hq, afterColon]
      split
      · rw [fillUpTo_settled (List.cons_ne_nil _ _)]
        exact ensures_ok rfl
      · have hne : keyTokens w m ≠ [] := List.cons_ne_nil _ _
        rw [fillUpTo_settled hne]
        exact ensures_ok rfl

/-! ## Values -/

variable {style : ScalarStyle} {v written after gap : List Char}

/-- A word is read as a value in the style that it is written in. -/
theorem readToken_value (hv : style.Writes v written) (hafter : endsScalar after = true) :
    Ensures (settled ⟨written ++ after, m⟩ [] taken 0 outer false r).readToken fun q =>
      ∃ k allowed, q = settled k [⟨.scalar v style, m⟩] taken 0 outer allowed r ∧
        k.Follows allowed after := by
  -- no key may begin behind a colon, so the scalar is no key candidate
  cases hv with
  | plain hword =>
    obtain ⟨⟨c, cs, rfl, hc⟩, -⟩ := isPlainWord_iff.1 hword
    rw [readToken_of_isAlphanum rfl hc]
    show Ensures ((⟨c :: cs ++ after, m⟩ : Cursor).plain false 1 >>= _) _
    refine Ensures.bind (fun scanned h => Cursor.plain_value hword hafter h) ?_
    rintro ⟨text, k, broken⟩ ⟨htext, hk⟩
    obtain rfl : text = c :: cs := htext
    exact ensures_ok ⟨k, broken, rfl, Or.inl hk⟩
  | singleQuoted hword =>
    obtain ⟨m', hquoted⟩ :=
      Cursor.exists_quoted_single m hword (startsSeparated_of_endsScalar hafter)
    have hwritten : '\'' :: (v ++ ['\'']) ++ after = '\'' :: (v ++ '\'' :: after) := by simp
    rw [hwritten, readToken_of_quote true rfl]
    show Ensures ((⟨'\'' :: (v ++ '\'' :: after), m⟩ : Cursor).quoted true >>= _ >>= _) _
    rw [hquoted]
    exact ensures_ok ⟨_, _, rfl, Or.inr ⟨rfl, rfl⟩⟩
  | doubleQuoted hword =>
    obtain ⟨m', hquoted⟩ := Cursor.exists_quoted_double m hword after
    have hwritten : '"' :: (v ++ ['"']) ++ after = '"' :: (v ++ '"' :: after) := by simp
    rw [hwritten, readToken_of_quote false rfl]
    show Ensures ((⟨'"' :: (v ++ '"' :: after), m⟩ : Cursor).quoted false >>= _ >>= _) _
    rw [hquoted]
    exact ensures_ok ⟨_, _, rfl, Or.inr ⟨rfl, rfl⟩⟩

/-- The value after a key and some blanks is read. -/
theorem fill_value (hne : gap ≠ []) (hgap : ∀ c ∈ gap, isSpace c = true)
    (hv : style.Writes v written) (hafter : endsScalar after = true) :
    Ensures (settled ⟨gap ++ (written ++ after), m⟩ [] taken 0 outer false r).fill fun q =>
      ∃ k allowed, q = settled k [⟨.scalar v style, m.past gap⟩] taken 0 outer allowed r ∧
        k.Follows allowed after := by
  obtain ⟨c, cs, hstart, hseparation, hhash⟩ := hv.exists_cons
  have hskip : skipToToken ((gap ++ (written ++ after)).length + 1)
      (settled ⟨gap ++ (written ++ after), m⟩ [] taken 0 outer false r) =
      settled ⟨written ++ after, m.past gap⟩ [] taken 0 outer false r := by
    rw [hstart]
    exact skipToToken_of_blanks (head?_ne_of_blanks hgap hne) rfl hgap (fun _ => rfl) hseparation
      hhash _
  show Ensures (fillUpTo ((gap ++ (written ++ after)).length + 3) _) _
  rw [fillUpTo_of_nil rfl]
  refine Ensures.bind (readNext_ensures rfl hskip isFresh_settled ?_ (readToken_value hv hafter)) ?_
  · show (0 : Int) ≤ ((m.column + gap.length : Nat) : Int)
    omega
  · rintro q ⟨k, allowed, rfl, hk⟩
    rw [fillUpTo_settled (List.cons_ne_nil _ _)]
    exact ensures_ok ⟨k, allowed, rfl, hk⟩

end TokenQueue

end ResourceGraph.Yaml

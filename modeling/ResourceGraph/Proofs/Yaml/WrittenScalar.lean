import ResourceGraph.Proofs.Yaml.PlainWord
import ResourceGraph.Yaml.Token.Basic
import ResourceGraph.Yaml.Token.Quoted

/-!
# Scalars written on one line

A word is written plain or between quotes of either kind (`ScalarStyle.Writes`), and blanks and a
comment may stand behind it (`IsTail`). A quoted word is read up to its closing quote and no further
(`Cursor.exists_quoted_single`, `Cursor.exists_quoted_double`), a plain one up to the end of the
blanks and breaks after it; what comes behind either is described by `Cursor.Follows`.
-/

set_option autoImplicit false

namespace ResourceGraph.Yaml

/-! ## What is written -/

/-- Whether a word is written as a text in a style. Within the quotes stands the word as it is. -/
inductive ScalarStyle.Writes : ScalarStyle → List Char → List Char → Prop
  | plain {v : List Char} : isPlainWord v = true → Writes .plain v v
  | singleQuoted {v : List Char} : (∀ c ∈ v, isSeparation c = false ∧ c ≠ '\'') →
    Writes .singleQuoted v ('\'' :: (v ++ ['\'']))
  | doubleQuoted {v : List Char} : (∀ c ∈ v, isSeparation c = false ∧ c ≠ '"' ∧ c ≠ '\\') →
    Writes .doubleQuoted v ('"' :: (v ++ ['"']))

theorem ScalarStyle.Writes.exists_cons {style : ScalarStyle} {v written : List Char}
    (h : style.Writes v written) {rest : List Char} : ∃ c cs, written ++ rest = c :: cs ∧
      isSeparation c = false ∧ c ≠ '#' := by
  cases h with
  | plain hv =>
    obtain ⟨c, cs, hstart, hc⟩ := exists_cons_of_isPlainWord hv rest
    exact ⟨c, cs, hstart, isSeparation_of_isAlphanum hc, ne_of_isAlphanum hc (by decide)⟩
  | singleQuoted _ => exact ⟨'\'', _, rfl, by decide, by decide⟩
  | doubleQuoted _ => exact ⟨'"', _, rfl, by decide, by decide⟩

/-- Whether a text is a comment, or nothing. -/
inductive IsComment : List Char → Prop
  | none : IsComment []
  | text {text : List Char} : (∀ c ∈ text, isBreak c = false) → IsComment ('#' :: text)

/-- What may stand behind a scalar on its line: blanks, and a comment if there are any. -/
inductive IsTail : List Char → Prop
  | line {gap comment : List Char} : (∀ c ∈ gap, isSpace c = true) → IsComment comment →
    (comment ≠ [] → gap ≠ []) → IsTail (gap ++ comment)

theorem isTail_nil : IsTail [] := by
  have hgap : ∀ c ∈ ([] : List Char), isSpace c = true := by simp
  exact IsTail.line hgap .none (absurd rfl)

theorem startsSeparated_append {gap : List Char} (hne : gap ≠ [])
    (h : ∀ c ∈ gap, isSeparation c = true) (rest : List Char) :
    startsSeparated (gap ++ rest) = true := by
  obtain ⟨c, cs, rfl⟩ := List.exists_cons_of_ne_nil hne
  exact h c List.mem_cons_self

/-- Blanks before a text change nothing about where a scalar before them ends. -/
theorem endsScalar_blanks {gap rest : List Char} (hgap : ∀ c ∈ gap, isSpace c = true)
    (h : endsScalar rest = true) : endsScalar (gap ++ rest) = true := by
  have hseparation : ∀ c ∈ gap, isSeparation c = true :=
    fun c hc => isSeparation_of_isSpace (hgap c hc)
  rw [endsScalar, Bool.and_eq_true] at h
  obtain ⟨hstart, hends⟩ := h
  have hstart' : startsSeparated (gap ++ rest) = true := by
    by_cases hne : gap = []
    · rw [hne]
      exact hstart
    · exact startsSeparated_append hne hseparation rest
  rw [endsScalar, hstart', Bool.true_and, List.dropWhile_append_of_pos hseparation,
    List.takeWhile_append_of_pos hseparation]
  cases rest with
  | nil => rfl
  | cons c cs =>
    -- the last separation is one of those after the blanks
    have hc : isSeparation c = true := hstart
    rw [List.takeWhile_cons_of_pos hc] at hends ⊢
    rwa [List.getLast?_append, List.getLast?_cons, Option.some_or, ← List.getLast?_cons]

theorem IsTail.endsScalar {tail rest : List Char} (h : IsTail tail)
    (hrest : Yaml.endsScalar rest = true) : Yaml.endsScalar (tail ++ rest) = true := by
  obtain ⟨hgap, hcomment, hne⟩ := h
  cases hcomment with
  | none =>
    rw [List.append_nil]
    exact endsScalar_blanks hgap hrest
  | text _ =>
    have hseparation := fun c hc => isSeparation_of_isSpace (hgap c hc)
    rw [List.append_assoc, Yaml.endsScalar,
      startsSeparated_append (hne (List.cons_ne_nil _ _)) hseparation,
      List.dropWhile_append_of_pos hseparation]
    rfl

theorem startsSeparated_of_endsScalar {rest : List Char} (h : endsScalar rest = true) :
    startsSeparated rest = true := by
  rw [endsScalar, Bool.and_eq_true] at h
  exact h.1

/-- A line that begins with a letter or digit goes on with no scalar of a line above it. -/
theorem endsScalar_breaks {brk cs : List Char} {c : Char} (hne : brk ≠ [])
    (hbrk : ∀ d ∈ brk, isBreak d = true) (hc : c.isAlphanum = true) :
    endsScalar (brk ++ c :: cs) = true := by
  have hseparation : ∀ d ∈ brk, isSeparation d = true :=
    fun d hd => isSeparation_of_isBreak (hbrk d hd)
  have hword := isSeparation_of_isAlphanum hc
  have hlast : (brk.getLast?).any isBreak = true := by
    rw [List.getLast?_eq_some_getLast hne]
    exact hbrk _ (List.getLast_mem hne)
  rw [endsScalar, startsSeparated_append hne hseparation, dropWhile_append_cons hseparation hword,
    takeWhile_append_cons hseparation hword, hlast]
  simp

/-! ## Words between quotes -/

namespace Quoted

variable {v rest : List Char}

theorem exists_singleWord (hv : ∀ c ∈ v, isSeparation c = false ∧ c ≠ '\'')
    (hrest : startsSeparated rest = true) {n : Nat} (hn : v.length < n) (m : Mark) :
    ∃ m', singleWord n ⟨v ++ '\'' :: rest, m⟩ = ⟨v, ⟨'\'' :: rest, m'⟩, false⟩ := by
  induction v generalizing n m with
  | nil =>
    obtain ⟨n, rfl⟩ := Nat.exists_eq_add_of_lt hn
    refine ⟨m, ?_⟩
    -- a second quote right behind would be one in the word
    rw [singleWord]
    split
    · rfl
    · rename_i heq
      rw [(List.cons.inj heq).2] at hrest
      have hquote : isSeparation '\'' = true := hrest
      exact absurd hquote (by decide)
    · rfl
    · rename_i hother heq
      obtain ⟨rfl, rfl⟩ := List.cons.inj heq
      exact absurd rfl hother
  | cons c v ih =>
    obtain ⟨⟨hseparation, hquote⟩, hv⟩ := List.forall_mem_cons.1 hv
    obtain ⟨n, rfl⟩ : ∃ i, n = i + 1 := ⟨n - 1, by simp at hn; omega⟩
    obtain ⟨m', hword⟩ := ih hv (n := n) (by simpa using hn) (m.past [c])
    refine ⟨m', ?_⟩
    have hforward : (⟨c :: (v ++ '\'' :: rest), m⟩ : Cursor).forward 1 =
        ⟨v ++ '\'' :: rest, m.past [c]⟩ := rfl
    rw [List.cons_append, singleWord]
    split
    · rename_i heq
      exact absurd heq (List.cons_ne_nil _ _)
    · rename_i heq
      exact absurd (List.cons.inj heq).1 hquote
    · rename_i heq
      exact absurd (List.cons.inj heq).1 hquote
    · rename_i heq
      obtain ⟨rfl, -⟩ := List.cons.inj heq
      rw [if_neg (by simp [hseparation]), hforward, hword]
      rfl

theorem exists_doubleWord (hv : ∀ c ∈ v, isSeparation c = false ∧ c ≠ '"' ∧ c ≠ '\\')
    (rest : List Char) {n : Nat} (hn : v.length < n) (start m : Mark) :
    ∃ m', doubleWord start n ⟨v ++ '"' :: rest, m⟩ = .ok ⟨v, ⟨'"' :: rest, m'⟩, false⟩ := by
  induction v generalizing n m with
  | nil =>
    obtain ⟨n, rfl⟩ := Nat.exists_eq_add_of_lt hn
    exact ⟨m, rfl⟩
  | cons c v ih =>
    obtain ⟨⟨hseparation, hquote, hescape⟩, hv⟩ := List.forall_mem_cons.1 hv
    obtain ⟨n, rfl⟩ : ∃ i, n = i + 1 := ⟨n - 1, by simp at hn; omega⟩
    obtain ⟨m', hword⟩ := ih hv (n := n) (by simpa using hn) (m.past [c])
    refine ⟨m', ?_⟩
    have hforward : (⟨c :: (v ++ '"' :: rest), m⟩ : Cursor).forward 1 =
        ⟨v ++ '"' :: rest, m.past [c]⟩ := rfl
    rw [List.cons_append, doubleWord]
    split
    · rename_i heq
      exact absurd heq (List.cons_ne_nil _ _)
    · rename_i heq
      exact absurd (List.cons.inj heq).1 hquote
    · rename_i heq
      exact absurd (List.cons.inj heq).1 hescape
    · rename_i heq
      exact absurd (List.cons.inj heq).1 hescape
    · rename_i heq
      obtain ⟨rfl, -⟩ := List.cons.inj heq
      rw [if_neg (by simp [hseparation]), hforward, hword]
      rfl

/-- The character that quotes of a kind are. -/
def quote (single : Bool) : Char := if single then '\'' else '"'

/-- A word that is read up to a closing quote is all that is read. -/
theorem read_of_word (single : Bool) (start : Mark) (n : Nat) (text : List Char) {m m' : Mark}
    (hcolumn : m.column ≠ 0)
    (hword : word single start ⟨v ++ quote single :: rest, m⟩ =
      .ok ⟨v, ⟨quote single :: rest, m'⟩, false⟩) :
    read single start (n + 1) text ⟨v ++ quote single :: rest, m⟩ =
      .ok (text ++ v, ⟨rest, m'.past [quote single]⟩) := by
  have hindicator : (⟨v ++ quote single :: rest, m⟩ : Cursor).atDocumentIndicator = false := by
    simp [Cursor.atDocumentIndicator, hcolumn]
  have hfilled : (v ++ quote single :: rest).isEmpty = false := by simp
  rw [read, hindicator]
  simp only [hfilled, hword, Bool.false_eq_true, if_false, List.head?_cons]
  rw [if_pos (by simp [quote])]
  rfl

end Quoted

namespace Cursor

variable {v rest : List Char} (m : Mark)

theorem exists_quoted_single (hv : ∀ c ∈ v, isSeparation c = false ∧ c ≠ '\'')
    (hrest : startsSeparated rest = true) :
    ∃ m', (⟨'\'' :: (v ++ '\'' :: rest), m⟩ : Cursor).quoted true = .ok (v, ⟨rest, m'⟩) := by
  obtain ⟨m', hword⟩ := Quoted.exists_singleWord hv hrest
    (n := (v ++ '\'' :: rest).length) (by simp) (m.past ['\''])
  have hread := Quoted.read_of_word true m ('\'' :: (v ++ '\'' :: rest)).length []
    (Nat.succ_ne_zero m.column) (congrArg Except.ok hword)
  exact ⟨_, hread⟩

theorem exists_quoted_double (hv : ∀ c ∈ v, isSeparation c = false ∧ c ≠ '"' ∧ c ≠ '\\')
    (rest : List Char) :
    ∃ m', (⟨'"' :: (v ++ '"' :: rest), m⟩ : Cursor).quoted false = .ok (v, ⟨rest, m'⟩) := by
  obtain ⟨m', hword⟩ := Quoted.exists_doubleWord hv rest
    (n := (v ++ '"' :: rest).length) (by simp) m (m.past ['"'])
  have hread := Quoted.read_of_word false m ('"' :: (v ++ '"' :: rest)).length []
    (Nat.succ_ne_zero m.column) hword
  exact ⟨_, hread⟩

/-- Past blanks and breaks, a cursor stands at the start of the line after them. -/
theorem IsPast.of_breaks {k : Cursor} {allowed : Bool} {gap brk cs : List Char} {c : Char}
    (h : k.IsPast allowed (gap ++ (brk ++ c :: cs))) (hgap : ∀ d ∈ gap, isSpace d = true)
    (hbrk : ∀ d ∈ brk, isBreak d = true) (hne : brk ≠ []) (hc : isSeparation c = false) :
    k.rest = c :: cs ∧ allowed = true ∧ k.mark.column = 0 := by
  have hall : ∀ d ∈ gap ++ brk, isSeparation d = true := by
    intro d hd
    rcases List.mem_append.1 hd with hd | hd
    · exact isSeparation_of_isSpace (hgap d hd)
    · exact isSeparation_of_isBreak (hbrk d hd)
  rw [← List.append_assoc] at h
  constructor
  · rw [h.passed, dropWhile_append_cons hall hc]
  · apply h.atLineStart
    rw [takeWhile_append_cons hall hc, List.getLast?_append, List.getLast?_eq_some_getLast hne,
      Option.some_or]
    exact hbrk _ (List.getLast_mem hne)

/-- Whether a cursor stands behind a scalar that a text follows: a plain scalar is read with the
blanks and breaks after it, and a key may follow if the last of these is a break; behind a closing
quote no key may begin. -/
def Follows (k : Cursor) (allowed : Bool) (after : List Char) : Prop :=
  k.IsPast allowed after ∨ k.rest = after ∧ allowed = false

end Cursor

end ResourceGraph.Yaml

import ResourceGraph.Number.Text
import ResourceGraph.Yaml.Scalar

/-!
# The text of an integer

The text of an integer is its decimal digits, after a minus sign if it is negative. They have the
value of the integer (`digits?_toDigits`), and no leading zeros.

Proves: as a plain scalar the text of an integer stands for that integer, if it is one of 64 bits
(`Scalar.ofPlain_intText`).
-/

set_option autoImplicit false

namespace ResourceGraph

namespace Number

/-! ## Digits -/

theorem isDigit_of_mem_decimal {n : Nat} {c : Char} (h : c ∈ Nat.toDigits 10 n) :
    c.isDigit = true := Nat.isDigit_of_mem_toDigits (by decide) (by decide) h

theorem digitValue?_of_isDigit {c : Char} (h : c.isDigit = true) :
    digitValue? 10 c = some (c.toNat - '0'.toNat) := by
  have hrange : '0' ≤ c ∧ c ≤ '9' := by
    rw [Char.isDigit, Bool.and_eq_true, decide_eq_true_eq, decide_eq_true_eq] at h
    exact h
  have hbelow : c.toNat - '0'.toNat < 10 := by
    have hnine : c.toNat ≤ '9'.toNat := hrange.2
    have hzero : '9'.toNat = '0'.toNat + 9 := by decide
    omega
  rw [digitValue?, if_pos hrange, Option.filter_some, if_pos (decide_eq_true hbelow)]

theorem digitsFrom?_of_isDigit {cs : List Char} (h : ∀ c ∈ cs, c.isDigit = true) (value : Nat) :
    digitsFrom? 10 value cs = some (Nat.ofDigitChars 10 cs value) := by
  induction cs generalizing value with
  | nil => rfl
  | cons c cs ih =>
    obtain ⟨hc, hcs⟩ := List.forall_mem_cons.1 h
    rw [digitsFrom?, digitValue?_of_isDigit hc]
    show digitsFrom? 10 (value * 10 + (c.toNat - '0'.toNat)) cs = _
    rw [ih hcs, Nat.ofDigitChars_cons, Nat.mul_comm]

/-- The decimal digits of a number have its value. -/
theorem digits?_toDigits (n : Nat) : digits? 10 (Nat.toDigits 10 n) = some n := by
  rw [digits?, if_neg (by simp [Nat.toDigits_ne_nil]),
    digitsFrom?_of_isDigit fun c hc => isDigit_of_mem_decimal hc,
    Nat.ofDigitChars_toDigits (by decide) (by decide)]

/-- The digits of a positive number do not begin with a zero. -/
theorem head?_toDigits_ne {n : Nat} (h : 0 < n) : (Nat.toDigits 10 n).head? ≠ some '0' := by
  -- the first digit is that of the number without its last digit, down to a number of one digit
  induction n using Nat.strongRecOn with
  | ind n ih =>
    rw [Nat.toDigits_eq_if (by decide)]
    split
    · rename_i hn
      rw [List.head?_cons]
      intro heq
      have hcode := Nat.toNat_digitChar_of_lt_ten hn
      have hzero : '0'.toNat = 48 := by decide
      rw [Option.some.inj heq] at hcode
      omega
    · have hne : Nat.toDigits 10 (n / 10) ≠ [] := Nat.toDigits_ne_nil
      have hfirst := ih (n / 10) (by omega) (by omega)
      rw [List.head?_append, List.head?_eq_some_head hne, Option.some_or]
      rw [List.head?_eq_some_head hne] at hfirst
      exact hfirst

/-- A text of digits, of which more than one do not begin with a zero. -/
structure IsNumeral (cs : List Char) : Prop where
  ne_nil : cs ≠ []
  isDigit : ∀ c ∈ cs, c.isDigit = true
  head : ∀ c rest, cs ≠ '0' :: c :: rest

theorem isNumeral_toDigits (n : Nat) : IsNumeral (Nat.toDigits 10 n) := by
  refine ⟨Nat.toDigits_ne_nil, fun c hc => isDigit_of_mem_decimal hc, ?_⟩
  intro c rest hcons
  rcases Nat.eq_zero_or_pos n with rfl | hpos
  · rw [Nat.toDigits_zero] at hcons
    exact absurd (List.cons.inj hcons).2.symm (List.cons_ne_nil _ _)
  · exact head?_toDigits_ne hpos (by rw [hcons]; rfl)

theorem IsNumeral.exists_cons {cs : List Char} (h : IsNumeral cs) :
    ∃ c rest, cs = c :: rest ∧ c.isDigit = true := by
  obtain ⟨c, rest, rfl⟩ := List.exists_cons_of_ne_nil h.ne_nil
  exact ⟨c, rest, rfl, h.isDigit c List.mem_cons_self⟩

end Number

namespace Yaml.Scalar

open Number

variable {cs : List Char}

theorem isSigned_of_isNumeral (h : IsNumeral cs) : isSigned cs = false := by
  obtain ⟨c, rest, rfl, hc⟩ := h.exists_cons
  unfold isSigned
  split
  · rename_i heq
    rw [(List.cons.inj heq).1] at hc
    exact absurd hc (by decide)
  · rename_i heq
    rw [(List.cons.inj heq).1] at hc
    exact absurd hc (by decide)
  · rfl

theorem ne_plus_of_isNumeral (h : IsNumeral cs) (rest : List Char) : cs ≠ '+' :: rest := by
  rintro rfl
  exact absurd (isSigned_of_isNumeral h) (by simp [isSigned])

theorem hasLeadingZeros_of_isNumeral (h : IsNumeral cs) : hasLeadingZeros cs = false := by
  have hsign : (splitSign cs).2 = cs := by
    obtain ⟨c, rest, rfl, hc⟩ := h.exists_cons
    unfold splitSign
    split
    · rename_i heq
      rw [(List.cons.inj heq).1] at hc
      exact absurd hc (by decide)
    · exact absurd (by assumption) (ne_plus_of_isNumeral h _)
    · rfl
  rw [hasLeadingZeros, hsign]
  split
  · exact absurd rfl (h.head _ _)
  · rfl

theorem inBase?_of_isNumeral (h : IsNumeral cs) : inBase? cs = none := by
  unfold inBase?
  split
  · exact absurd rfl (h.head _ _)
  · exact absurd rfl (h.head _ _)
  · exact absurd rfl (h.head _ _)
  · rfl

/-- A numeral is read as the number that its digits have the value of. -/
theorem natural?_of_isNumeral {most n : Nat} (h : IsNumeral cs) (hvalue : digits? 10 cs = some n)
    (hn : n ≤ most) : natural? most cs = some n := by
  unfold natural?
  split
  · exact absurd rfl (ne_plus_of_isNumeral h _)
  · dsimp only
    rw [inBase?_of_isNumeral h, isSigned_of_isNumeral h, hasLeadingZeros_of_isNumeral h]
    show (digits? 10 cs).filter (· ≤ most) = some n
    rw [hvalue, Option.filter_some, if_pos (decide_eq_true hn)]

theorem natural?_minus (most : Nat) (cs : List Char) : natural? most ('-' :: cs) = none := rfl

/-- A numeral after a minus sign is read as the negative of its value. -/
theorem negative?_of_isNumeral {most n : Nat} (h : IsNumeral cs) (hvalue : digits? 10 cs = some n)
    (hn : n ≤ most) : negative? most ('-' :: cs) = some n := by
  rw [negative?, inBase?_of_isNumeral h, isSigned_of_isNumeral h, hasLeadingZeros_of_isNumeral h]
  show (digits? 10 cs).filter (· ≤ most) = some n
  rw [hvalue, Option.filter_some, if_pos (decide_eq_true hn)]

/-- **The text of an integer of 64 bits is read as that integer.** -/
theorem integer?_intText {i : Int} (hlow : -(twoTo 63 : Int) ≤ i) (hhigh : i < (twoTo 64 : Int)) :
    integer? (intText i) = some (.int i) := by
  have hnumeral := isNumeral_toDigits i.natAbs
  have hvalue := digits?_toDigits i.natAbs
  rw [intText]
  split
  · rename_i hnegative
    rw [integer?, natural?_minus, negative?_of_isNumeral hnumeral hvalue (by omega)]
    show some (int (-(i.natAbs : Int))) = some (int i)
    have hsize : -(i.natAbs : Int) = i := by omega
    rw [hsize]
  · rename_i hnegative
    rw [integer?, natural?_of_isNumeral hnumeral hvalue (by omega)]
    show some (int (i.natAbs : Int)) = some (int i)
    have hsize : (i.natAbs : Int) = i := by omega
    rw [hsize]

theorem exists_cons_intText (i : Int) :
    ∃ c rest, intText i = c :: rest ∧ (c = '-' ∨ c.isDigit = true) := by
  rw [intText]
  split
  · exact ⟨'-', _, rfl, Or.inl rfl⟩
  · obtain ⟨c, rest, hcons, hc⟩ := (isNumeral_toDigits i.natAbs).exists_cons
    exact ⟨c, rest, hcons, Or.inr hc⟩

/-- **As a plain scalar the text of an integer of 64 bits stands for that integer.** -/
theorem ofPlain_intText {i : Int} (hlow : -(twoTo 63 : Int) ≤ i) (hhigh : i < (twoTo 64 : Int)) :
    ofPlain (intText i) = .int i := by
  obtain ⟨c, rest, hcons, hc⟩ := exists_cons_intText i
  have hne : ∀ d, d ≠ '-' → d.isDigit = false → c ≠ d := by
    rintro d hminus hdigit rfl
    rcases hc with hc | hc
    · exact hminus hc
    · exact absurd (hdigit.symm.trans hc) Bool.false_ne_true
  -- no word for null or for a truth value begins as an integer does
  have hnull : isNullWord (intText i) = false := by
    rw [hcons]
    simp [isNullWord, hne '~' (by decide) (by decide), hne 'n' (by decide) (by decide),
      hne 'N' (by decide) (by decide)]
  have hbool : bool? (intText i) = none := by
    rw [hcons]
    simp [bool?, hne 't' (by decide) (by decide), hne 'T' (by decide) (by decide),
      hne 'f' (by decide) (by decide), hne 'F' (by decide) (by decide)]
  have hempty : (intText i).isEmpty = false := by
    rw [hcons]
    rfl
  rw [ofPlain, hempty, hnull, hbool, integer?_intText hlow hhigh]
  rfl

end Yaml.Scalar

end ResourceGraph

import ResourceGraph.Number.Text

/-!
# Integers as numbers

Every finite number is a multiple of the least positive one, so finite numbers and integers are
compared exactly as whole numbers of that unit (`Number.inLeastUnits?`). An integer is rounded on
the grid on which its significand has 53 bits, and all numbers either are on that grid or are
smaller than a point of it that does not pass the integer.

Proves: the number made of an integer of at most 64 bits is one of the nearest to it
(`Number.isNearest_ofInt`). So it is the integer itself below 2^53 in size, and it is never an
integer below 2^53 from there on (`Number.toSmallInt?_ofInt`, `Number.toSmallInt?_ofInt_of_le`).
-/

set_option autoImplicit false

namespace ResourceGraph.Number

/-! ## Powers of two -/

theorem twoTo_add (m n : Nat) : twoTo (m + n) = twoTo m * twoTo n := Nat.pow_add 2 m n

theorem twoTo_pos (n : Nat) : 0 < twoTo n := Nat.two_pow_pos n

theorem natCast_twoTo_ne_zero (n : Nat) : (twoTo n : Int) ≠ 0 := by
  have hpos := twoTo_pos n
  omega

theorem twoTo_le {m n : Nat} (h : m ≤ n) : twoTo m ≤ twoTo n := Nat.pow_le_pow_right (by decide) h

/-! ## Rounded quotients -/

/-- No multiple of the denominator is nearer to the numerator than the rounded quotient's. -/
theorem roundDiv_nearest (num q : Nat) {den : Nat} (h : 0 < den) :
    ((roundDiv num den * den : Nat) - num : Int).natAbs ≤ ((q * den : Nat) - num : Int).natAbs := by
  have hsplit : num / den * den + num % den = num := Nat.div_add_mod' num den
  have hrest : num % den < den := Nat.mod_lt num h
  have hup : (num / den + 1) * den = num / den * den + den := Nat.succ_mul _ _
  -- the candidate is at or below the quotient, or above it
  have hcandidate : q * den ≤ num / den * den ∨ (num / den + 1) * den ≤ q * den := by
    rcases Nat.lt_or_ge (num / den) q with hlt | hge
    · exact Or.inr (Nat.mul_le_mul_right den hlt)
    · exact Or.inl (Nat.mul_le_mul_right den hge)
  have hround : roundDiv num den = num / den ∧ 2 * (num % den) ≤ den ∨
      roundDiv num den = num / den + 1 ∧ den ≤ 2 * (num % den) := by
    unfold roundDiv
    simp only [gt_iff_lt, Bool.or_eq_true, decide_eq_true_eq, Bool.and_eq_true, beq_iff_eq]
    split <;> omega
  rcases hround with ⟨hround, hhalf⟩ | ⟨hround, hhalf⟩ <;> rw [hround] <;> omega

theorem roundDiv_le {num den q : Nat} (h : 0 < den) (hq : num < q * den) :
    roundDiv num den ≤ q := by
  have hdiv : num / den < q := (Nat.div_lt_iff_lt_mul h).2 hq
  unfold roundDiv
  dsimp only
  split <;> omega

/-! ## Values -/

/-- A magnitude with a sign. -/
def signed (negative : Bool) (n : Nat) : Int := if negative then -(n : Int) else n

theorem signed_mul (negative : Bool) (m n : Nat) :
    signed negative (m * n) = signed negative m * n := by
  cases negative
  · exact Int.natCast_mul m n
  · exact (congrArg Neg.neg (Int.natCast_mul m n)).trans (Int.neg_mul m n).symm

theorem signed_natAbs (i : Int) : signed (i < 0) i.natAbs = i := by
  unfold signed
  split
  · rename_i h
    have hneg : i < 0 := of_decide_eq_true h
    omega
  · rename_i h
    have hneg : ¬ i < 0 := fun hneg => h (decide_eq_true hneg)
    omega

theorem natAbs_signed (negative : Bool) (n : Nat) : (signed negative n).natAbs = n := by
  unfold signed
  split <;> omega

theorem natAbs_signed_sub (negative : Bool) (m n : Nat) :
    (signed negative m - signed negative n).natAbs = ((m : Int) - n).natAbs := by
  unfold signed
  split <;> omega

theorem natAbs_sub_le_natAbs_signed_sub (p q : Bool) (m n : Nat) :
    ((m : Int) - n).natAbs ≤ (signed p m - signed q n).natAbs := by
  unfold signed
  split <;> split <;> omega

/-- How many times one holds the least positive number. -/
def unitsPerOne : Nat := twoTo (-leastExponent).toNat

/-- A finite number in units of the least positive one. -/
def inLeastUnits? : Number → Option Int
  | finite negative m e => some (signed negative (m * twoTo (e - leastExponent).toNat))
  | _ => none

/-- Whether a number is of the format binary64: the significand has 53 bits at most, and the
exponent is in its range. -/
def IsBinary64 : Number → Prop
  | finite _ m e => m < twoTo 53 ∧ leastExponent ≤ e ∧ e ≤ greatestExponent
  | _ => True

/-- The integer that a number is, told by its multiple of the least positive number. -/
theorem toInt?_eq_some_iff {x : Number} (h : x.IsBinary64) {i : Int} :
    x.toInt? = some i ↔ x.inLeastUnits? = some (i * unitsPerOne) := by
  cases x with
  | nan => exact iff_of_false (Option.some_ne_none _).symm (Option.some_ne_none _).symm
  | infinite _ => exact iff_of_false (Option.some_ne_none _).symm (Option.some_ne_none _).symm
  | finite negative m e =>
    have hleast : leastExponent = -1074 := rfl
    obtain ⟨-, hlow, -⟩ := h
    by_cases he : 0 ≤ e
    · have hexp : (e - leastExponent).toNat = e.toNat + (-leastExponent).toNat := by omega
      rw [toInt?, if_pos he, inLeastUnits?, unitsPerOne, hexp, twoTo_add, ← Nat.mul_assoc,
        signed_mul, Option.some_inj, Int.mul_eq_mul_right_iff (natCast_twoTo_ne_zero _)]
      exact Option.some_inj
    · obtain ⟨t, ht⟩ : ∃ t, (-e).toNat = t := ⟨_, rfl⟩
      have hexp : (-leastExponent).toNat = t + (e - leastExponent).toNat := by omega
      rw [toInt?, if_neg he, ht, inLeastUnits?, signed_mul, unitsPerOne, hexp, twoTo_add,
        Int.natCast_mul, ← Int.mul_assoc, Option.some_inj,
        Int.mul_eq_mul_right_iff (natCast_twoTo_ne_zero _)]
      by_cases hrest : m % twoTo t = 0
      · obtain ⟨q, rfl⟩ := Nat.dvd_of_mod_eq_zero hrest
        rw [if_pos hrest, Nat.mul_div_cancel_left q (twoTo_pos t), Nat.mul_comm, signed_mul,
          Int.mul_eq_mul_right_iff (natCast_twoTo_ne_zero _)]
        exact Option.some_inj
      · rw [if_neg hrest]
        constructor
        · intro hnone
          exact absurd hnone (by simp)
        · intro hvalue
          have hmagnitude := congrArg Int.natAbs hvalue
          rw [natAbs_signed, Int.natAbs_mul, Int.natAbs_natCast] at hmagnitude
          exact absurd (hmagnitude ▸ Nat.mul_mod_left _ _) hrest

/-! ## Nearest numbers -/

/-- Whether a number is finite and no number is nearer to an integer. -/
structure IsNearest (x : Number) (i : Int) : Prop where
  isBinary64 : x.IsBinary64
  nearest : ∃ a, x.inLeastUnits? = some a ∧ ∀ y b, IsBinary64 y → y.inLeastUnits? = some b →
    (a - i * unitsPerOne).natAbs ≤ (b - i * unitsPerOne).natAbs

/-- An integer of at most 53 bits is a number. -/
theorem exists_number_of_natAbs_le {i : Int} (h : i.natAbs ≤ twoTo 53) :
    ∃ y : Number, y.IsBinary64 ∧ y.inLeastUnits? = some (i * unitsPerOne) := by
  rcases Nat.lt_or_eq_of_le h with hlt | heq
  · refine ⟨finite (i < 0) i.natAbs 0, ⟨hlt, by decide, by decide⟩, ?_⟩
    have hexp : ((0 : Int) - leastExponent).toNat = (-leastExponent).toNat := by decide
    rw [inLeastUnits?, hexp, signed_mul, signed_natAbs, unitsPerOne]
  · refine ⟨finite (i < 0) (twoTo 52) 1, ⟨by decide, by decide, by decide⟩, ?_⟩
    have hexp : ((1 : Int) - leastExponent).toNat = 1 + (-leastExponent).toNat := by decide
    have hdouble : twoTo 52 * twoTo 1 = i.natAbs := heq.symm
    rw [inLeastUnits?, hexp, twoTo_add, ← Nat.mul_assoc, hdouble, signed_mul, signed_natAbs,
      unitsPerOne]

theorem natAbs_sub_mul_unitsPerOne (i j : Int) :
    (i * unitsPerOne - j * unitsPerOne).natAbs = (i - j).natAbs * unitsPerOne := by
  rw [← Int.sub_mul, Int.natAbs_mul, Int.natAbs_natCast]

/-- What is nearest to an integer of at most 53 bits is that integer. -/
theorem IsNearest.toInt?_eq {x : Number} {i : Int} (h : x.IsNearest i)
    (hi : i.natAbs ≤ twoTo 53) : x.toInt? = some i := by
  obtain ⟨a, ha, hnearest⟩ := h.nearest
  obtain ⟨y, hy, hvalue⟩ := exists_number_of_natAbs_le hi
  have hdistance := hnearest y _ hy hvalue
  rw [Int.sub_self, Int.natAbs_zero, Nat.le_zero, Int.natAbs_eq_zero, Int.sub_eq_zero]
    at hdistance
  rw [toInt?_eq_some_iff h.isBinary64, ha, hdistance]

/-- What is nearest to an integer of more than 53 bits is no integer of 53 bits. -/
theorem IsNearest.toSmallInt?_eq_none {x : Number} {i : Int} (h : x.IsNearest i)
    (hi : twoTo 53 ≤ i.natAbs) : x.toSmallInt? = none := by
  obtain ⟨a, ha, hnearest⟩ := h.nearest
  rw [toSmallInt?, Option.filter_eq_none_iff]
  intro j hj
  rw [toInt?_eq_some_iff h.isBinary64, ha, Option.some_inj] at hj
  -- the power of two on the side of the integer is nearer than all below it
  have hpower : (signed (i < 0) (twoTo 53)).natAbs ≤ twoTo 53 := Nat.le_of_eq (natAbs_signed _ _)
  obtain ⟨y, hy, hvalue⟩ := exists_number_of_natAbs_le hpower
  have hdistance := hnearest y _ hy hvalue
  rw [hj, natAbs_sub_mul_unitsPerOne, natAbs_sub_mul_unitsPerOne] at hdistance
  have hle := Nat.le_of_mul_le_mul_right hdistance (twoTo_pos _)
  have hnear := natAbs_signed_sub (i < 0) (twoTo 53) i.natAbs
  have hfar := natAbs_sub_le_natAbs_signed_sub (j < 0) (i < 0) j.natAbs i.natAbs
  rw [signed_natAbs] at hnear
  rw [signed_natAbs, signed_natAbs] at hfar
  intro hsmall
  have hlt := of_decide_eq_true hsmall
  omega

/-! ## Rounding an integer -/

/-- The exponent of the numbers that are about as large as a positive integer. -/
def sizeExponent (n : Nat) : Int := (Nat.log2 n : Int) - 52

/-- A positive integer in units of a power of two holds `k + 1` bits of them if the exponent is `k`
below that of its first bit. -/
theorem inUnits_bounds {n : Nat} (hn : n ≠ 0) {k : Nat} {e : Int}
    (he : e = (Nat.log2 n : Int) - k) :
    twoTo k * (inUnits n 1 e).2 ≤ (inUnits n 1 e).1 ∧
      (inUnits n 1 e).1 < twoTo (k + 1) * (inUnits n 1 e).2 := by
  have hlow : twoTo n.log2 ≤ n := Nat.log2_self_le hn
  have hhigh : n < twoTo (n.log2 + 1) := Nat.lt_log2_self
  have hexp : k + e.toNat = n.log2 + (-e).toNat := by omega
  show twoTo k * (1 * twoTo e.toNat) ≤ n * twoTo (-e).toNat ∧
    n * twoTo (-e).toNat < twoTo (k + 1) * (1 * twoTo e.toNat)
  rw [Nat.one_mul, ← twoTo_add, ← twoTo_add, Nat.add_right_comm k, hexp, Nat.add_right_comm,
    twoTo_add, twoTo_add]
  exact ⟨Nat.mul_le_mul_right _ hlow, Nat.mul_lt_mul_of_pos_right hhigh (twoTo_pos _)⟩

theorem inUnits_den_pos (n : Nat) (e : Int) : 0 < (inUnits n 1 e).2 :=
  Nat.mul_pos Nat.one_pos (twoTo_pos _)

theorem exponentOf_one {n : Nat} (hn : n ≠ 0) : exponentOf n 1 = sizeExponent n := by
  have hlog : Nat.log2 1 = 0 := by decide
  have hlow : (Nat.log2 n : Int) - Nat.log2 1 - 53 = (Nat.log2 n : Int) - (53 : Nat) := by
    rw [hlog]
    omega
  obtain ⟨hle, -⟩ := inUnits_bounds hn (k := 53) rfl
  have hwide := (Nat.le_div_iff_mul_le (inUnits_den_pos n _)).2 hle
  have hleast : leastExponent = -1074 := rfl
  rw [exponentOf, hlow]
  simp only
  rw [if_neg (Nat.not_lt.2 hwide), sizeExponent]
  omega

/-- The distance of two numbers about as large as a positive integer, in units of the least positive
one. Its multiples are the grid of the integer's size. -/
def gridStep (n : Nat) : Nat := twoTo (sizeExponent n - leastExponent).toNat

/-- A positive integer in steps of its grid, as a numerator and a denominator. -/
def gridRatio (n : Nat) : Nat × Nat := inUnits n 1 (sizeExponent n)

theorem gridRatio_bounds {n : Nat} (hn : n ≠ 0) :
    twoTo 52 * (gridRatio n).2 ≤ (gridRatio n).1 ∧
      (gridRatio n).1 < twoTo 53 * (gridRatio n).2 :=
  inUnits_bounds hn rfl

theorem gridRatio_den_pos (n : Nat) : 0 < (gridRatio n).2 := inUnits_den_pos n _

theorem le_sizeExponent (n : Nat) : -52 ≤ sizeExponent n := by
  unfold sizeExponent
  omega

/-- The number made of an integer is the rounded quotient on its grid, whether or not the
significand is carried into the exponent. -/
theorem exists_ofInt_eq {i : Int} (hi : i ≠ 0) (hbits : i.natAbs < twoTo 64) :
    ∃ m e, ofInt i = finite (i < 0) m e ∧ (finite (i < 0) m e).IsBinary64 ∧
      m * twoTo (e - leastExponent).toNat =
        roundDiv (gridRatio i.natAbs).1 (gridRatio i.natAbs).2 * gridStep i.natAbs := by
  have hne : i.natAbs ≠ 0 := Int.natAbs_ne_zero.2 hi
  have hleast : leastExponent = -1074 := rfl
  have hgreatest : greatestExponent = 971 := rfl
  have hlog : Nat.log2 i.natAbs < 64 := (Nat.log2_lt hne).2 hbits
  have hround := roundDiv_le (gridRatio_den_pos i.natAbs) (gridRatio_bounds hne).2
  have hsize : leastExponent ≤ sizeExponent i.natAbs ∧ sizeExponent i.natAbs < 12 := by
    unfold sizeExponent
    omega
  unfold gridRatio gridStep at *
  rw [ofInt, ofRatio, if_neg hne, exponentOf_one hne]
  generalize hm : roundDiv (inUnits i.natAbs 1 (sizeExponent i.natAbs)).1
    (inUnits i.natAbs 1 (sizeExponent i.natAbs)).2 = m at hround ⊢
  generalize sizeExponent i.natAbs = e at hm hsize ⊢
  by_cases hcarry : m = twoTo 53
  · refine ⟨twoTo 52, e + 1, ?_, ⟨by decide, by omega, by omega⟩, ?_⟩
    · simp only [hm, hcarry, if_true]
      rw [if_neg (by omega)]
    · have hexp : (e + 1 - leastExponent).toNat = 1 + (e - leastExponent).toNat := by omega
      rw [hexp, twoTo_add, ← Nat.mul_assoc, hcarry]
      rfl
  · refine ⟨m, e, ?_, ⟨Nat.lt_of_le_of_ne hround hcarry, hsize.1, by omega⟩, rfl⟩
    simp only [hm, if_neg hcarry]
    rw [if_neg (by omega)]

/-- A step of the grid and the integer itself are so and so many times one number of units. -/
theorem exists_gridUnit (n : Nat) : ∃ u,
    gridStep n = (gridRatio n).2 * u ∧ n * unitsPerOne = (gridRatio n).1 * u := by
  have hleast : leastExponent = -1074 := rfl
  have hsize := le_sizeExponent n
  obtain ⟨t, ht⟩ : ∃ t, (-sizeExponent n).toNat = t := ⟨_, rfl⟩
  have hgrid : (sizeExponent n - leastExponent).toNat = (sizeExponent n).toNat + (1074 - t) := by
    omega
  have hone : (-leastExponent).toNat = t + (1074 - t) := by omega
  refine ⟨twoTo (1074 - t), ?_, ?_⟩
  · show _ = 1 * twoTo (sizeExponent n).toNat * twoTo (1074 - t)
    rw [gridStep, hgrid, twoTo_add, Nat.one_mul]
  · show _ = n * twoTo (-sizeExponent n).toNat * twoTo (1074 - t)
    rw [unitsPerOne, hone, twoTo_add, ht, Nat.mul_assoc]

/-- A number is on the grid of an integer's size, or it is smaller than the grid's point where the
integer's first bit is. -/
theorem exists_mul_or_lt (n : Nat) {y : Number} (hy : y.IsBinary64) {b : Int}
    (hb : y.inLeastUnits? = some b) :
    (∃ q, b.natAbs = q * gridStep n) ∨ b.natAbs < twoTo 52 * gridStep n := by
  cases y with
  | nan => exact absurd hb (by simp [inLeastUnits?])
  | infinite negative => exact absurd hb (by simp [inLeastUnits?])
  | finite negative m e =>
    obtain ⟨hm, hlow, -⟩ := hy
    obtain rfl := Option.some.inj hb
    have hleast : leastExponent = -1074 := rfl
    have hsize := le_sizeExponent n
    rw [natAbs_signed, gridStep]
    by_cases hlt : e < sizeExponent n
    · refine Or.inr (Nat.lt_of_lt_of_le (Nat.mul_lt_mul_of_pos_right hm (twoTo_pos _)) ?_)
      rw [← twoTo_add, ← twoTo_add]
      exact twoTo_le (by omega)
    · have hexp : (e - leastExponent).toNat =
          (e - sizeExponent n).toNat + (sizeExponent n - leastExponent).toNat := by
        omega
      refine Or.inl ⟨m * twoTo (e - sizeExponent n).toNat, ?_⟩
      rw [Nat.mul_assoc, ← twoTo_add, hexp]

/-- Some point of the grid of an integer's size is at least as near to the integer as a number. -/
theorem exists_nearer_point {n : Nat} (hn : n ≠ 0) {y : Number}
    (hy : y.IsBinary64) {b : Int} (hb : y.inLeastUnits? = some b) :
    ∃ q, ((q * gridStep n : Nat) - (n * unitsPerOne : Nat) : Int).natAbs ≤
      ((b.natAbs : Int) - (n * unitsPerOne : Nat)).natAbs := by
  rcases exists_mul_or_lt n hy hb with ⟨q, hq⟩ | hlt
  · exact ⟨q, Nat.le_of_eq (by rw [hq])⟩
  · -- the point of the first bit is between the number and the integer
    obtain ⟨u, hgrid, hself⟩ := exists_gridUnit n
    have hpoint := Nat.mul_le_mul_right u (gridRatio_bounds hn).1
    rw [Nat.mul_assoc, ← hgrid, ← hself] at hpoint
    have hnear : ∀ {small point large : Nat}, small < point → point ≤ large →
        ((point : Int) - large).natAbs ≤ ((small : Int) - large).natAbs := by
      intro small point large hsmall hlarge
      omega
    exact ⟨twoTo 52, hnear hlt hpoint⟩

/-- The point of the rounded quotient is the nearest one of the grid. -/
theorem roundDiv_gridStep_nearest (n q : Nat) :
    ((roundDiv (gridRatio n).1 (gridRatio n).2 * gridStep n : Nat) -
        (n * unitsPerOne : Nat) : Int).natAbs ≤
      ((q * gridStep n : Nat) - (n * unitsPerOne : Nat) : Int).natAbs := by
  obtain ⟨u, hgrid, hself⟩ := exists_gridUnit n
  have hpoint : ∀ p, ((p * gridStep n : Nat) - (n * unitsPerOne : Nat) : Int).natAbs =
      ((p * (gridRatio n).2 : Nat) - (gridRatio n).1 : Int).natAbs * u := by
    intro p
    rw [hgrid, hself, ← Nat.mul_assoc, Int.natCast_mul, Int.natCast_mul _ u, ← Int.sub_mul,
      Int.natAbs_mul, Int.natAbs_natCast]
  rw [hpoint, hpoint]
  exact Nat.mul_le_mul_right u (roundDiv_nearest _ q (gridRatio_den_pos n))

/-- **The number made of an integer of at most 64 bits is finite, and no number is nearer to the
integer.** -/
theorem isNearest_ofInt {i : Int} (h : i.natAbs < twoTo 64) : (ofInt i).IsNearest i := by
  by_cases hi : i = 0
  · subst hi
    refine ⟨⟨by decide, by decide, by decide⟩, 0, by decide, ?_⟩
    intro y b _ _
    rw [Int.zero_mul]
    exact Nat.zero_le _
  · have hne : i.natAbs ≠ 0 := Int.natAbs_ne_zero.2 hi
    obtain ⟨m, e, hnumber, hfits, hvalue⟩ := exists_ofInt_eq hi h
    have hsigned : i * unitsPerOne = signed (i < 0) (i.natAbs * unitsPerOne) := by
      rw [signed_mul, signed_natAbs]
    rw [hnumber]
    refine ⟨hfits, _, rfl, ?_⟩
    intro y b hy hb
    obtain ⟨q, hq⟩ := exists_nearer_point hne hy hb
    have hside := natAbs_sub_le_natAbs_signed_sub (b < 0) (i < 0) b.natAbs (i.natAbs * unitsPerOne)
    rw [signed_natAbs] at hside
    rw [hvalue, hsigned, natAbs_signed_sub]
    exact Nat.le_trans (roundDiv_gridStep_nearest _ q) (Nat.le_trans hq hside)

/-- An integer below 2^53 in size is the number made of it. -/
theorem toSmallInt?_ofInt {i : Int} (h : i.natAbs < twoTo 53) :
    (ofInt i).toSmallInt? = some i := by
  have hbits : i.natAbs < twoTo 64 := Nat.lt_trans h (by decide)
  rw [toSmallInt?, (isNearest_ofInt hbits).toInt?_eq (Nat.le_of_lt h)]
  exact if_pos (decide_eq_true h)

theorem toSmallInt?_ofInt_of_le {i : Int} (h : twoTo 53 ≤ i.natAbs) (hbits : i.natAbs < twoTo 64) :
    (ofInt i).toSmallInt? = none :=
  (isNearest_ofInt hbits).toSmallInt?_eq_none h

/-! ## Literals -/

/-- Whether a literal has a point or a power of ten, as no integer's has. -/
def IsFloatLiteral (cs : List Char) : Prop := '.' ∈ cs ∨ 'e' ∈ cs

theorem not_isFloatLiteral_intText (i : Int) : ¬ IsFloatLiteral (intText i) := by
  have hdigits : ∀ c, c.isDigit = false → c ∉ Nat.toDigits 10 i.natAbs := by
    intro c hc hmem
    rw [Nat.isDigit_of_mem_toDigits (by decide) (by decide) hmem] at hc
    exact Bool.noConfusion hc
  unfold IsFloatLiteral intText
  split <;> simp [hdigits '.' (by decide), hdigits 'e' (by decide)]

theorem isFloatLiteral_positionalText {tail : List Char} (h : '.' ∈ tail) (d : Decimal) :
    IsFloatLiteral (positionalText tail d) := by
  left
  unfold positionalText
  dsimp only
  split
  · simp
  · split <;> simp [h]

theorem isFloatLiteral_powerText (sign : List Char) (d : Decimal) :
    IsFloatLiteral (powerText sign d) := by
  right
  simp [powerText]

/-- Where whole numbers keep a point, every finite number has a literal that is no integer's. -/
theorem isFloatLiteral_text {s : Spelling} (h : '.' ∈ s.wholeTail) {x : Number}
    (hx : x.isFinite = true) : IsFloatLiteral (x.text s) := by
  cases x with
  | nan => exact absurd hx Bool.false_ne_true
  | infinite negative => exact absurd hx Bool.false_ne_true
  | finite negative m e =>
    have hmagnitude : IsFloatLiteral
        (if m = 0 then '0' :: s.wholeTail else decimalText s (shortest s.tie m e)) := by
      split
      · exact Or.inl (List.mem_cons_of_mem _ h)
      · unfold decimalText
        split
        · exact isFloatLiteral_positionalText h _
        · split
          · exact isFloatLiteral_positionalText h _
          · exact isFloatLiteral_powerText _ _
    rw [text]
    cases negative with
    | false => exact hmagnitude
    | true => exact hmagnitude.imp (List.mem_cons_of_mem _) (List.mem_cons_of_mem _)

theorem IsNearest.isFinite {x : Number} {i : Int} (h : x.IsNearest i) : x.isFinite = true := by
  obtain ⟨a, ha, -⟩ := h.nearest
  cases x with
  | nan => exact absurd ha (by simp [inLeastUnits?])
  | infinite negative => exact absurd ha (by simp [inLeastUnits?])
  | finite negative m e => rfl

end ResourceGraph.Number

import Abacus.Arithmetic

/-!
# Checked arithmetic is exact

Every operation on words gives the integer result reduced to a word. The checks look at that
reduced result only, and still find out whether it is the integer result: checked arithmetic
returns the exact result where a word can hold it, and reports an overflow everywhere else. For a
sum and a difference this is a matter of signs. A product is divided back, and what is left over by
a division is too small to stand for a multiple of the number of words.
-/
namespace Abacus

def IsWord (z : Int) : Prop :=
  Int64.minValue.toInt ≤ z ∧ z ≤ Int64.maxValue.toInt

instance (z : Int) : Decidable (IsWord z) :=
  inferInstanceAs (Decidable (_ ∧ _))

theorem isWord_iff {z : Int} :
    IsWord z ↔ -9223372036854775808 ≤ z ∧ z ≤ 9223372036854775807 := Iff.rfl

theorem isWord_toInt (a : Int64) : IsWord a.toInt :=
  ⟨Int64.minValue_le_toInt a, Int64.toInt_le a⟩

theorem IsWord.toInt_ofInt {z : Int} (h : IsWord z) : (Int64.ofInt z).toInt = z := by
  rw [isWord_iff] at h
  apply Int64.toInt_ofInt_of_le <;> omega

section Reduction

variable (a b : Int64)

/-- Reducing an integer to a word takes off a multiple of the number of words. -/
theorem exists_toInt_ofInt (z : Int) :
    ∃ k, (Int64.ofInt z).toInt = z + 18446744073709551616 * k := by
  refine ⟨-z.bdiv Int64.size, ?_⟩
  rw [Int64.toInt_ofInt, Int.bmod_eq_self_sub_mul_bdiv, Int.mul_neg]
  rfl

theorem add_eq_ofInt : a + b = Int64.ofInt (a.toInt + b.toInt) := by
  simp [Int64.ofInt_add]

theorem sub_eq_ofInt : a - b = Int64.ofInt (a.toInt - b.toInt) := by
  simp [Int64.ofInt_sub]

theorem mul_eq_ofInt : a * b = Int64.ofInt (a.toInt * b.toInt) := by
  simp [Int64.ofInt_mul]

theorem neg_eq_ofInt : -a = Int64.ofInt (-a.toInt) := by
  simp [Int64.ofInt_neg]

theorem div_eq_ofInt : a / b = Int64.ofInt (a.toInt.tdiv b.toInt) := by
  rw [eq_comm, Int64.ofInt_eq_iff_bmod_eq_toInt, Int64.toInt_div]

end Reduction

def narrow (z : Int) : Except ArithmeticError Int64 :=
  if IsWord z then .ok (Int64.ofInt z) else .error .overflow

theorem narrow_of_check {z : Int} {p : Prop} [Decidable p] (h : p ↔ IsWord z) :
    (if p then .ok (Int64.ofInt z) else .error .overflow) = narrow z := by
  simp only [narrow, h]

theorem narrow_toInt (a : Int64) : narrow a.toInt = .ok a := by
  rw [narrow, if_pos (isWord_toInt a), Int64.ofInt_toInt]

section Checks

variable {a b : Int64}

theorem isWord_add_iff :
    decide (a < a + b) = decide (0 < b) ↔ IsWord (a.toInt + b.toInt) := by
  obtain ⟨k, hk⟩ := exists_toInt_ofInt (a.toInt + b.toInt)
  have ha := isWord_toInt a
  have hb := isWord_toInt b
  have hc := isWord_toInt (Int64.ofInt (a.toInt + b.toInt))
  rw [decide_eq_decide, Int64.lt_iff_toInt_lt, Int64.lt_iff_toInt_lt, Int64.toInt_zero,
    add_eq_ofInt]
  rw [isWord_iff] at *
  omega

theorem isWord_sub_iff :
    decide (a - b < a) = decide (0 < b) ↔ IsWord (a.toInt - b.toInt) := by
  obtain ⟨k, hk⟩ := exists_toInt_ofInt (a.toInt - b.toInt)
  have ha := isWord_toInt a
  have hb := isWord_toInt b
  have hc := isWord_toInt (Int64.ofInt (a.toInt - b.toInt))
  rw [decide_eq_decide, Int64.lt_iff_toInt_lt, Int64.lt_iff_toInt_lt, Int64.toInt_zero,
    sub_eq_ofInt]
  rw [isWord_iff] at *
  omega

theorem isWord_neg_iff : IsWord (-a.toInt) ↔ a ≠ Int64.minValue := by
  have ha := isWord_toInt a
  have hmin : a = Int64.minValue ↔ a.toInt = -9223372036854775808 := Int64.toInt_inj.symm
  rw [isWord_iff] at *
  rw [ne_eq, hmin]
  omega

theorem isWord_tdiv_iff :
    IsWord (a.toInt.tdiv b.toInt) ↔ ¬ (a = Int64.minValue ∧ b = -1) := by
  constructor
  · rintro hword ⟨rfl, rfl⟩
    exact absurd hword (by decide)
  · intro hne
    have hdiv : (a / b).toInt = a.toInt.tdiv b.toInt := by
      by_cases ha : a = Int64.minValue
      · exact Int64.toInt_div_of_ne_right a b fun hb => hne ⟨ha, hb⟩
      · exact Int64.toInt_div_of_ne_left a b ha
    rw [← hdiv]
    exact isWord_toInt _

/-- An integer that differs from a product by a multiple of the number of words, and that its
factor divides back, is the product. -/
theorem eq_mul_of_tdiv_eq {c x y k : Int} (hy : IsWord y) (hzero : y ≠ 0)
    (hc : c = x * y + 18446744073709551616 * k) (hback : c.tdiv y = x) : c = x * y := by
  have hsplit := Int.tmod_add_mul_tdiv c y
  -- the remainder is the whole difference, and it is smaller than any multiple but zero
  have hrest : (c.tmod y).natAbs < y.natAbs := by
    rw [Int.natAbs_tmod]
    exact Nat.mod_lt _ (by omega)
  rw [hback, Int.mul_comm] at hsplit
  rw [isWord_iff] at hy
  omega

/-- The check of a product misses no overflow and reports none that did not happen. -/
theorem isWord_mul_iff (hb : b ≠ 0) :
    IsWord (a.toInt * b.toInt) ↔
      ¬ ((a = -1 ∧ b = Int64.minValue) ∨ (b = -1 ∧ a = Int64.minValue) ∨ a * b / b ≠ a) := by
  have hzero : b.toInt ≠ 0 := fun h => hb (Int64.toInt_inj.mp h)
  constructor
  · rintro hword (⟨rfl, rfl⟩ | ⟨rfl, rfl⟩ | hback)
    · exact absurd hword (by decide)
    · exact absurd hword (by decide)
    · apply hback
      rw [div_eq_ofInt, mul_eq_ofInt, hword.toInt_ofInt, Int.mul_tdiv_cancel _ hzero,
        Int64.ofInt_toInt]
  · simp only [not_or, Decidable.not_not]
    rintro ⟨_, hleast, hback⟩
    by_cases hone : b = -1
    · -- dividing by minus one may itself overflow, so this factor is looked at apart
      have hneg : a.toInt * b.toInt = -a.toInt := by
        rw [hone]
        exact Int.mul_neg_one _
      rw [hneg, isWord_neg_iff]
      exact fun ha => hleast ⟨hone, ha⟩
    · obtain ⟨k, hk⟩ := exists_toInt_ofInt (a.toInt * b.toInt)
      rw [← Int64.toInt_inj, Int64.toInt_div_of_ne_right _ _ hone, mul_eq_ofInt] at hback
      rw [← eq_mul_of_tdiv_eq (isWord_toInt b) hzero hk hback]
      exact isWord_toInt _

end Checks

section Operations

variable (a b : Int64)

theorem checked_add_eq : Checked.add a b = narrow (a.toInt + b.toInt) := by
  unfold Checked.add
  rw [← narrow_of_check isWord_add_iff, ← add_eq_ofInt]

theorem checked_sub_eq : Checked.sub a b = narrow (a.toInt - b.toInt) := by
  unfold Checked.sub
  rw [← narrow_of_check isWord_sub_iff, ← sub_eq_ofInt]

theorem checked_neg_eq : Checked.neg a = narrow (-a.toInt) := by
  rw [Checked.neg, narrow, ← neg_eq_ofInt]
  simp only [isWord_neg_iff, ite_not]

theorem checked_mul_eq : Checked.mul a b = narrow (a.toInt * b.toInt) := by
  unfold Checked.mul
  by_cases hzero : a = 0 ∨ b = 0
  · have hproduct : a.toInt * b.toInt = 0 := by
      rcases hzero with rfl | rfl
      · exact Int.zero_mul _
      · exact Int.mul_zero _
    rw [if_pos hzero, hproduct]
    rfl
  · have hb : b ≠ 0 := fun h => hzero (Or.inr h)
    rw [if_neg hzero, narrow, ← mul_eq_ofInt]
    simp only [isWord_mul_iff hb, ite_not]

variable {b}

theorem checked_div_eq (hb : b ≠ 0) : Checked.div a b = narrow (a.toInt.tdiv b.toInt) := by
  rw [Checked.div, if_neg hb, narrow, ← div_eq_ofInt]
  simp only [isWord_tdiv_iff, ite_not]

theorem wrapping_div_eq (hb : b ≠ 0) :
    Wrapping.div a b = .ok (Int64.ofInt (a.toInt.tdiv b.toInt)) := by
  rw [Wrapping.div, if_neg hb]
  by_cases hone : b = -1
  · have hneg : a.toInt.tdiv b.toInt = -a.toInt := by
      rw [hone]
      exact (Int.tdiv_neg _ _).trans (congrArg _ (Int.tdiv_one _))
    rw [if_pos hone, hneg, neg_eq_ofInt]
  · rw [if_neg hone, div_eq_ofInt]

end Operations

structure Exact (z : Int) (r : Except ArithmeticError Int64) : Prop where
  succeeds_iff : (∃ c, r = .ok c) ↔ IsWord z
  value : ∀ c, r = .ok c → c.toInt = z
  overflow_iff : r = .error .overflow ↔ ¬ IsWord z

theorem exact_narrow (z : Int) : Exact z (narrow z) := by
  unfold narrow
  by_cases hz : IsWord z
  · rw [if_pos hz]
    refine ⟨by simp [hz], ?_, by simp [hz]⟩
    intro c hc
    cases hc
    exact hz.toInt_ofInt
  · rw [if_neg hz]
    refine ⟨by simp [hz], ?_, by simp [hz]⟩
    intro c hc
    cases hc

/-- Sums, differences, products and opposites are the exact ones, and an overflow is reported just
where these are no words. A quotient is truncated toward zero; it fails on a zero divisor, and
overflows in one case only, in which the wrapping quotient is reduced to a word instead. -/
theorem checked_arithmetic_is_exact (a b : Int64) :
    Exact (a.toInt + b.toInt) (Checked.add a b) ∧
    Exact (a.toInt - b.toInt) (Checked.sub a b) ∧
    Exact (a.toInt * b.toInt) (Checked.mul a b) ∧
    Exact (-a.toInt) (Checked.neg a) ∧
    (Checked.div a b = .error .divisionByZero ↔ b = 0) ∧
    (Checked.div a b = .error .overflow ↔ a = Int64.minValue ∧ b = -1) ∧
    (b ≠ 0 → ¬ (a = Int64.minValue ∧ b = -1) →
      ∃ c, Checked.div a b = .ok c ∧ c.toInt = a.toInt.tdiv b.toInt) ∧
    (b ≠ 0 → ∃ c, Wrapping.div a b = .ok c ∧
      c.toInt = (a.toInt.tdiv b.toInt).bmod Int64.size) := by
  rw [checked_add_eq, checked_sub_eq, checked_mul_eq, checked_neg_eq]
  refine ⟨exact_narrow _, exact_narrow _, exact_narrow _, exact_narrow _, ?_, ?_, ?_, ?_⟩
  · by_cases hb : b = 0
    · simp [Checked.div, hb]
    · rw [checked_div_eq a hb, narrow]
      split <;> simp [hb]
  · by_cases hb : b = 0
    · simp [Checked.div, hb]
    · rw [checked_div_eq a hb, (exact_narrow _).overflow_iff, isWord_tdiv_iff, Decidable.not_not]
  · intro hb hne
    rw [checked_div_eq a hb]
    obtain ⟨c, hc⟩ := (exact_narrow _).succeeds_iff.mpr (isWord_tdiv_iff.mpr hne)
    exact ⟨c, hc, (exact_narrow _).value c hc⟩
  · intro hb
    exact ⟨_, wrapping_div_eq a hb, Int64.toInt_ofInt⟩

/-- The one quotient that overflows wraps to its dividend, and the next dividend has a quotient. -/
theorem quotients_at_least_word :
    Checked.div Int64.minValue (-1) = .error .overflow ∧
    (∃ c, Wrapping.div Int64.minValue (-1) = .ok c ∧ c = Int64.minValue ∧
      c.toInt = (Int64.minValue.toInt.tdiv (-1)).bmod Int64.size) ∧
    ∃ c, Checked.div (Int64.minValue + 1) (-1) = .ok c ∧
      c.toInt = (Int64.minValue + 1).toInt.tdiv (-1) := by
  obtain ⟨_, _, _, _, _, hoverflow, _, hwraps⟩ := checked_arithmetic_is_exact Int64.minValue (-1)
  obtain ⟨_, _, _, _, _, _, hquotient, _⟩ :=
    checked_arithmetic_is_exact (Int64.minValue + 1) (-1)
  obtain ⟨c, hc, hvalue⟩ := hwraps (by decide)
  refine ⟨hoverflow.mpr ⟨rfl, rfl⟩, ⟨c, hc, ?_, hvalue⟩, hquotient (by decide) (by decide)⟩
  cases hc
  rfl

end Abacus

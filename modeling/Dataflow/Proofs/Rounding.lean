import Mathlib
import Dataflow.Number.Double

/-! # Rounded arithmetic

Every number below a limit, half a step beyond the largest double, has a nearest double. Rounding
moves a number by half a step, which is one part in 2^53 where the number is not below one. Main
statements: these bounds for quotients, and ranges in which a product or a quotient of doubles is a
double.
-/

namespace Dataflow

theorem zpow_eq_div {b : ℚ} (nonzero : b ≠ 0) (n : ℤ) :
    b ^ n = b ^ n.toNat / b ^ (-n).toNat := by
  rw [eq_div_iff (pow_ne_zero _ nonzero), ← zpow_natCast, ← zpow_natCast, ← zpow_add₀ nonzero]
  congr 1
  omega

namespace Double

/-- The first number that is too large for a double: it lies half a step beyond the largest one. -/
def limit : ℚ := 2 ^ 1024 - 2 ^ 970

theorem limit_eq : limit = (2 ^ 55 - 2) * 2 ^ 969 := by
  rw [limit, sub_mul, ← pow_add, ← pow_succ']

theorem limit_eq_scaled : ((2 ^ 53 - 1 : ℕ) + 1 / 2 : ℚ) * 2 ^ (971 : ℤ) = limit := by
  rw [limit_eq, show (971 : ℤ) = (2 + 969 : ℕ) from rfl, zpow_natCast, pow_add, ← mul_assoc]
  congr 1
  norm_num

theorem limit_lt : limit < 2 ^ 1024 := sub_lt_self _ (by positivity)

theorem limit_lt_pow_ten : limit < 10 ^ 309 := by
  have small : (2 : ℚ) ^ 93 ≤ 10 ^ 28 := by norm_num
  calc limit < 2 ^ 1024 := limit_lt
    _ = 2 * (2 ^ 93) ^ 11 := by rw [← pow_mul, ← pow_succ']
    _ ≤ 2 * (10 ^ 28) ^ 11 := by gcongr
    _ = 2 * 10 ^ 308 := by rw [← pow_mul]
    _ ≤ 10 * 10 ^ 308 := by gcongr; norm_num
    _ = 10 ^ 309 := by rw [← pow_succ']

/-- The absolute value. -/
def value (d : Double) : ℚ := d.significand * 2 ^ d.exponent

theorem value_nonneg (d : Double) : 0 ≤ d.value := by
  unfold value
  positivity

theorem value_zero (negative : Bool) : (zero negative).value = 0 := by
  simp [value, significand, exponentField, zero]

theorem significand_lt (d : Double) : d.significand < 2 * fractionSize := by
  unfold significand
  split
  · next field =>
    have := Nat.lt_of_div_eq_zero (by decide) field
    omega
  · have := Nat.mod_lt d.magnitude (show fractionSize > 0 by decide)
    omega

theorem exponent_le (d : Double) : d.exponent ≤ 971 := by
  have field : d.exponentField < 2047 := Nat.div_lt_of_lt_mul d.magnitude_lt
  unfold exponent
  omega

theorem value_lt_limit (d : Double) : d.value < limit := by
  have significand : (d.significand : ℚ) + 1 ≤ 2 ^ 53 := mod_cast d.significand_lt
  rw [← limit_eq_scaled]
  calc (d.significand : ℚ) * 2 ^ d.exponent
      < ((2 ^ 53 - 1 : ℕ) + 1 / 2) * 2 ^ d.exponent := by
        gcongr
        push_cast
        linarith
    _ ≤ ((2 ^ 53 - 1 : ℕ) + 1 / 2) * 2 ^ (971 : ℤ) :=
        mul_le_mul_of_nonneg_left (zpow_le_zpow_right₀ one_le_two d.exponent_le) (by positivity)

/-- The value where the magnitude is put together from a rounded significand, which may have become
    a power of two with one bit more. -/
theorem value_of_magnitude {d : Double} {s e : Nat} (same : d.magnitude = s + e * fractionSize)
    (most : s ≤ 2 * fractionSize) (least : e = 0 ∨ fractionSize ≤ s) :
    d.value = s * 2 ^ ((e : ℤ) - 1074) := by
  unfold fractionSize at same most least
  unfold value significand exponent exponentField fractionSize
  rw [same]
  obtain rfl | inside := most.eq_or_lt
  · -- the next power of two, with no fraction
    have field : (2 * 0x10000000000000 + e * 0x10000000000000) / 0x10000000000000 = e + 2 := by
      omega
    have fraction : (2 * 0x10000000000000 + e * 0x10000000000000) % 0x10000000000000 = 0 := by
      omega
    rw [field, fraction, if_neg (by omega), show ((max (e + 2) 1 : ℕ) : ℤ) - 1075 = e - 1074 + 1 by
      omega, zpow_add_one₀ two_ne_zero]
    push_cast
    ring
  · obtain small | normal := Nat.lt_or_ge s 0x10000000000000
    · -- no exponent field
      obtain rfl : e = 0 := least.resolve_right (by omega)
      rw [zero_mul, add_zero, Nat.div_eq_of_lt small]
      rfl
    · have field : (s + e * 0x10000000000000) / 0x10000000000000 = e + 1 := by omega
      have fraction : (s + e * 0x10000000000000) % 0x10000000000000 + 0x10000000000000 = s := by
        omega
      rw [field, fraction, if_neg (by omega),
        show ((max (e + 1) 1 : ℕ) : ℤ) - 1075 = e - 1074 by omega]

/-- Rounding adds a half at most. -/
theorem two_mul_roundedQuotient_le (num den : Nat) :
    2 * (roundedQuotient num den * den) ≤ 2 * num + den := by
  have parts := Nat.div_add_mod num den
  unfold roundedQuotient
  dsimp only
  generalize num / den = floor, num % den = rest at parts ⊢
  subst parts
  split_ifs
  · nlinarith
  · nlinarith
  · have : floor % 2 ≤ 1 := Nat.le_of_lt_succ (Nat.mod_lt _ (by decide))
    have := Nat.mul_le_mul_right den this
    nlinarith

theorem div_le_roundedQuotient (num den : Nat) : num / den ≤ roundedQuotient num den := by
  unfold roundedQuotient
  dsimp only
  split_ifs <;> omega

/-- A quotient in units of a power of two, rounded. -/
def roundedAt (num den : Nat) (q : ℤ) : Nat :=
  roundedQuotient (num * Nat.pow 2 (-q).toNat) (den * Nat.pow 2 q.toNat)

section

variable {num den : Nat}

theorem scaled_div (q : ℤ) :
    ((num * Nat.pow 2 (-q).toNat : ℕ) : ℚ) / (den * Nat.pow 2 q.toNat : ℕ) = num / den / 2 ^ q := by
  rw [zpow_eq_div two_ne_zero]
  push_cast [Nat.pow_eq]
  field_simp

variable (positive : 0 < den)
include positive

/-- What is rounded is at most half a unit above the quotient. -/
theorem roundedAt_le (q : ℤ) : (roundedAt num den q : ℚ) ≤ num / den / 2 ^ q + 1 / 2 := by
  rw [← scaled_div, roundedAt]
  have scaled : 0 < den * Nat.pow 2 q.toNat := Nat.mul_pos positive (Nat.pow_pos (by decide))
  generalize num * Nat.pow 2 (-q).toNat = n, den * Nat.pow 2 q.toNat = m at scaled ⊢
  have scaled : (0 : ℚ) < m := Nat.cast_pos.2 scaled
  have bound : 2 * ((roundedQuotient n m : ℚ) * m) ≤ 2 * n + m :=
    mod_cast two_mul_roundedQuotient_le n m
  rw [div_add_div _ _ scaled.ne' two_ne_zero, le_div_iff₀ (by positivity)]
  linarith

theorem roundedAt_le_of_lt {q : ℤ} {k : Nat} (less : (num / den : ℚ) < (k + 1 / 2) * 2 ^ q) :
    roundedAt num den q ≤ k := by
  have rounded := @roundedAt_le num den positive q
  rw [← div_lt_iff₀ (by positivity)] at less
  have below : (roundedAt num den q : ℚ) < (k + 1 : ℕ) := by
    push_cast
    linarith
  exact Nat.le_of_lt_succ (mod_cast below)

theorem le_roundedAt {q : ℤ} {k : Nat} (least : (k : ℚ) * 2 ^ q ≤ num / den) :
    k ≤ roundedAt num den q := by
  rw [← le_div_iff₀ (by positivity), ← scaled_div] at least
  unfold roundedAt
  have scaled : 0 < den * Nat.pow 2 q.toNat := Nat.mul_pos positive (Nat.pow_pos (by decide))
  generalize num * Nat.pow 2 (-q).toNat = n, den * Nat.pow 2 q.toNat = m at scaled least ⊢
  refine le_trans ?_ (div_le_roundedQuotient n m)
  rw [le_div_iff₀ (Nat.cast_pos.2 scaled)] at least
  exact (Nat.le_div_iff_mul_le scaled).2 (mod_cast least)

/-- The binary logarithms place the quotient between two powers of two. -/
theorem quotient_log2 (number : 0 < num) :
    (2 : ℚ) ^ ((num.log2 : ℤ) - den.log2 - 1) < num / den ∧
      (num / den : ℚ) < 2 ^ ((num.log2 : ℤ) - den.log2 + 1) := by
  have power (a b : ℕ) : (2 : ℚ) ^ ((a : ℤ) - b) = 2 ^ a / 2 ^ b := by
    rw [zpow_sub₀ two_ne_zero, zpow_natCast, zpow_natCast]
  have lower := power num.log2 (den.log2 + 1)
  have upper := power (num.log2 + 1) den.log2
  push_cast at lower upper
  have number' : (0 : ℚ) < num := Nat.cast_pos.2 number
  have positive' : (0 : ℚ) < den := Nat.cast_pos.2 positive
  have least : (2 : ℚ) ^ num.log2 ≤ num := mod_cast Nat.log2_self_le number.ne'
  have most : (num : ℚ) < 2 ^ (num.log2 + 1) := mod_cast Nat.lt_log2_self
  have least' : (2 : ℚ) ^ den.log2 ≤ den := mod_cast Nat.log2_self_le positive.ne'
  have most' : (den : ℚ) < 2 ^ (den.log2 + 1) := mod_cast Nat.lt_log2_self
  rw [sub_sub, lower, sub_add_eq_add_sub, upper, div_lt_div_iff₀ (by positivity) positive',
    div_lt_div_iff₀ positive' (by positivity)]
  constructor
  · calc (2 : ℚ) ^ num.log2 * den ≤ num * den := by gcongr
      _ < num * 2 ^ (den.log2 + 1) := by gcongr
  · calc (num : ℚ) * 2 ^ den.log2 ≤ num * den := by gcongr
      _ < 2 ^ (num.log2 + 1) * den := by gcongr

/-- With the exponent of the quotient, its significand has 53 bits, or fewer at the least exponent
    there is. -/
theorem quotientExponent_spec (number : 0 < num) :
    -1074 ≤ quotientExponent num den ∧
      (num / den : ℚ) < 2 ^ (quotientExponent num den + 53) ∧
      (quotientExponent num den = -1074 ∨
        (2 : ℚ) ^ (quotientExponent num den + 52) ≤ num / den) := by
  obtain ⟨lower, upper⟩ := quotient_log2 positive number
  unfold quotientExponent
  dsimp only
  generalize (num.log2 : ℤ) - den.log2 = bits at lower upper ⊢
  have reached : (if bits < 0 then den ≤ num * Nat.pow 2 (-bits).toNat
      else den * Nat.pow 2 bits.toNat ≤ num) ↔ (2 : ℚ) ^ bits ≤ num / den := by
    have scaled : (0 : ℚ) < (den * Nat.pow 2 bits.toNat : ℕ) :=
      Nat.cast_pos.2 (Nat.mul_pos positive (Nat.pow_pos (by decide)))
    have power : (0 : ℚ) < 2 ^ bits := by positivity
    rw [← one_le_div₀ power, ← scaled_div, one_le_div₀ scaled, Nat.cast_le]
    split
    · next below => simp [Int.toNat_of_nonpos below.le]
    · next above => simp [Int.toNat_of_nonpos (neg_nonpos.2 (not_lt.1 above))]
  simp only [reached]
  -- the exponent that the bits ask for, below the least one or not
  have least (q : ℤ) (most : (num / den : ℚ) < 2 ^ (q + 53))
      (enough : (2 : ℚ) ^ (q + 52) ≤ num / den) :
      -1074 ≤ max (-1074) q ∧ (num / den : ℚ) < 2 ^ (max (-1074) q + 53) ∧
        (max (-1074) q = -1074 ∨ (2 : ℚ) ^ (max (-1074) q + 52) ≤ num / den) := by
    refine ⟨le_max_left _ _, most.trans_le ?_, ?_⟩
    · exact zpow_le_zpow_right₀ one_le_two (by omega)
    · obtain least | above := le_total q (-1074)
      · exact .inl (max_eq_left least)
      · exact .inr (by rwa [max_eq_right above])
  split
  · next enough =>
    apply least
    · rw [show bits - 52 + 53 = bits + 1 by ring]
      exact upper
    · rw [show bits - 52 + 52 = bits by ring]
      exact enough
  · next fewer =>
    apply least
    · rw [show bits - 53 + 53 = bits by ring]
      exact not_le.1 fewer
    · rw [show bits - 53 + 52 = bits - 1 by ring]
      exact lower.le

theorem quotientExponent_le (number : 0 < num) (below : (num / den : ℚ) < limit) :
    quotientExponent num den ≤ 971 := by
  obtain ⟨-, -, least | normal⟩ := quotientExponent_spec positive number
  · rw [least]
    decide
  · have := (normal.trans_lt below).trans limit_lt
    rw [← zpow_natCast, zpow_lt_zpow_iff_right₀ one_lt_two] at this
    omega

/-- A quotient below the limit has a nearest double, whose value is that of the rounded significand
    at the exponent of the quotient. -/
theorem exists_ofQuotient? (negative : Bool) (number : 0 < num) (below : (num / den : ℚ) < limit) :
    ∃ d, ofQuotient? negative num den = some d ∧
      d.value = roundedAt num den (quotientExponent num den) * 2 ^ quotientExponent num den := by
  obtain ⟨least, most, enough⟩ := quotientExponent_spec positive number
  have field := quotientExponent_le positive number below
  unfold ofQuotient?
  rw [if_neg number.ne']
  dsimp only
  generalize quotientExponent num den = q at least most enough field ⊢
  have top : roundedAt num den q ≤ 2 * fractionSize := by
    apply roundedAt_le_of_lt positive
    rw [zpow_add₀ two_ne_zero, mul_comm] at most
    refine most.trans ?_
    gcongr
    norm_num [fractionSize]
  have full (normal : (2 : ℚ) ^ (q + 52) ≤ num / den) : fractionSize ≤ roundedAt num den q := by
    apply le_roundedAt positive
    rw [zpow_add₀ two_ne_zero, mul_comm] at normal
    refine le_trans (le_of_eq ?_) normal
    norm_num [fractionSize]
  have inside : roundedAt num den q + (q + 1074).toNat * fractionSize < magnitudeBound := by
    obtain rfl | smaller := field.eq_or_lt
    · -- the limit is half a step away from the power of two after the largest exponent
      rw [← limit_eq_scaled] at below
      have most := roundedAt_le_of_lt positive below
      exact (Nat.add_le_add_right most _).trans_lt (by decide)
    · unfold fractionSize at top ⊢
      unfold magnitudeBound
      omega
  refine ⟨⟨negative, _, inside⟩, dif_pos inside, ?_⟩
  rw [value_of_magnitude (d := ⟨negative, _, inside⟩) rfl top (enough.imp (by omega) full),
    Int.toNat_of_nonneg (by omega), add_sub_cancel_right]

/-- Rounding adds one part in 2^53 at most to a quotient that is not below one, and does not take it
    below one. -/
theorem exists_ofQuotient?_of_one_le (negative : Bool) (least : (1 : ℚ) ≤ num / den)
    (below : (num / den : ℚ) < limit) : ∃ d, ofQuotient? negative num den = some d ∧
      1 ≤ d.value ∧ d.value ≤ num / den * (1 + 1 / 2 ^ 53) := by
  have number : 0 < num := by
    rw [one_le_div₀ (Nat.cast_pos.2 positive), Nat.cast_le] at least
    exact positive.trans_le least
  obtain ⟨d, found, value⟩ := exists_ofQuotient? positive negative number below
  obtain ⟨-, most, enough⟩ := quotientExponent_spec positive number
  refine ⟨d, found, ?_⟩
  rw [value]
  generalize quotientExponent num den = q at most enough ⊢
  have above : -52 ≤ q := by
    have := least.trans_lt most
    rw [← zpow_zero (2 : ℚ), zpow_lt_zpow_iff_right₀ one_lt_two] at this
    omega
  have normal : (2 : ℚ) ^ 52 * 2 ^ q ≤ num / den := by
    have enough := enough.resolve_left (by omega)
    rwa [zpow_add₀ two_ne_zero, mul_comm] at enough
  constructor
  · have rounded : 2 ^ 52 ≤ roundedAt num den q :=
      le_roundedAt positive (by push_cast; exact normal)
    calc (1 : ℚ) = 2 ^ (52 : ℕ) * 2 ^ (-52 : ℤ) := by norm_num
      _ ≤ roundedAt num den q * 2 ^ q := by
        gcongr
        · exact_mod_cast rounded
        · exact one_le_two
  · have rounded := @roundedAt_le num den positive q
    calc (roundedAt num den q : ℚ) * 2 ^ q
        ≤ (num / den / 2 ^ q + 1 / 2) * 2 ^ q := by gcongr
      _ = num / den + 2 ^ 52 * 2 ^ q / 2 ^ 53 := by field_simp
      _ ≤ num / den + num / den / 2 ^ 53 := by gcongr
      _ = num / den * (1 + 1 / 2 ^ 53) := by ring

/-- A quotient below the limit has a nearest double. -/
theorem isSome_ofQuotient? (negative : Bool) (below : (num / den : ℚ) < limit) :
    (ofQuotient? negative num den).isSome := by
  obtain rfl | number := num.eq_zero_or_pos
  · rfl
  obtain ⟨d, found, -⟩ := exists_ofQuotient? positive negative number below
  exact found ▸ rfl

end

variable {a b : Double}

theorem isSome_mul? (below : a.value * b.value < limit) : (a.mul? b).isSome := by
  apply isSome_ofQuotient? (Nat.pow_pos (by decide))
  refine lt_of_eq_of_lt ?_ below
  unfold value
  rw [mul_mul_mul_comm, ← zpow_add₀ two_ne_zero, zpow_eq_div two_ne_zero]
  push_cast [Nat.pow_eq]
  rw [mul_div_assoc]

theorem isSome_div? (least : 1 ≤ b.value) : (a.div? b).isSome := by
  have divisor : 0 < b.significand := by
    refine Nat.pos_of_ne_zero fun zero => ?_
    rw [value, zero, Nat.cast_zero, zero_mul] at least
    exact absurd least (by norm_num)
  apply isSome_ofQuotient? (Nat.mul_pos divisor (Nat.pow_pos (by decide)))
  refine lt_of_eq_of_lt ?_ ((div_le_self a.value_nonneg least).trans_lt a.value_lt_limit)
  unfold value
  rw [mul_div_mul_comm, ← zpow_sub₀ two_ne_zero, zpow_eq_div two_ne_zero]
  push_cast [Nat.pow_eq]
  rw [mul_div_mul_comm]

end Double

end Dataflow

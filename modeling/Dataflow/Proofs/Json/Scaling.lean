import Dataflow.Proofs.DoubleRange
import Dataflow.Proofs.Json.Numerals

/-! # Significands and powers of ten

A significand of 64 bits is scaled by powers of ten that are doubles themselves. Dividing never
leaves the range of doubles, and multiplying only near its end. Main statement: a number is read as
a double if it is so far below the limit that two roundings do not reach it.
-/

namespace Dataflow.Json

theorem pow_ten_lt_limit : (10 : ℚ) ^ largestPower < Double.limit := by
  have least : 10 ^ 308 + 2 ^ 970 < 2 ^ 1024 := by decide +kernel
  rw [Double.limit, largestPower, lt_sub_iff_add_lt]
  simpa only [Nat.cast_add, Nat.cast_pow, Nat.cast_ofNat] using Nat.cast_lt (α := ℚ).2 least

section

variable {k : Nat} (inside : k ≤ largestPower)
include inside

/-- The powers of ten are doubles, none of them below one. -/
theorem exists_powerOfTen? : ∃ p, powerOfTen? k = some p ∧ 1 ≤ p.value ∧
    p.value ≤ 10 ^ k * (1 + 1 / 2 ^ 53) := by
  have power : ((Nat.pow 10 k : ℕ) / (1 : ℕ) : ℚ) = 10 ^ k := by simp
  rw [← power]
  apply Double.exists_ofQuotient?_of_one_le one_pos
  · rw [power]
    exact one_le_pow₀ (by norm_num)
  · rw [power]
    exact (pow_le_pow_right₀ (by norm_num) inside).trans_lt pow_ten_lt_limit

theorem isSome_lower? (d : Double) : (lower? d k).isSome := by
  obtain ⟨p, power, least, -⟩ := exists_powerOfTen? inside
  rw [lower?, power]
  exact Double.isSome_div? least

theorem isSome_lowerTimes? (rounds : Nat) (d : Double) : (lowerTimes? rounds k d).isSome := by
  induction rounds generalizing d with
  | zero => exact isSome_lower? inside d
  | succ rounds ih =>
      unfold lowerTimes?
      split
      · rfl
      · obtain ⟨lowered, found⟩ := Option.isSome_iff_exists.1 (isSome_lower? le_rfl d)
        rw [found]
        exact ih lowered

theorem isSome_raise? {d : Double} (below : d.value * (10 ^ k * (1 + 1 / 2 ^ 53)) < Double.limit) :
    (raise? d k).isSome := by
  obtain ⟨p, power, -, most⟩ := exists_powerOfTen? inside
  rw [raise?, power]
  exact Double.isSome_mul? ((mul_le_mul_of_nonneg_left most d.value_nonneg).trans_lt below)

end

/-- A number with a digit and more places than a power of ten in range is beyond the limit. -/
theorem le_largestPower {significand k : Nat} (positive : 0 < significand)
    (below : (significand : ℚ) * 10 ^ k * Double.slack < Double.limit) : k ≤ largestPower := by
  by_contra! outside
  have one : (1 : ℚ) ≤ significand := mod_cast positive
  have reached : (10 : ℚ) ^ 309 < Double.limit := by
    calc (10 : ℚ) ^ 309 ≤ 10 ^ k := pow_le_pow_right₀ (by norm_num) outside
      _ ≤ significand * 10 ^ k := le_mul_of_one_le_left (by positivity) one
      _ ≤ significand * 10 ^ k * Double.slack :=
          le_mul_of_one_le_right (by positivity) Double.one_le_slack
      _ < Double.limit := below
  exact absurd Double.limit_lt_pow_ten reached.not_gt

section

variable {significand : Nat} (small : significand < 0x10000000000000000)
include small

/-- A significand of 64 bits has a nearest double. -/
theorem exists_start : ∃ d, Double.ofQuotient? false significand 1 = some d ∧
    d.value ≤ significand * (1 + 1 / 2 ^ 53) ∧ (significand = 0 → d.magnitude = 0) := by
  obtain rfl | positive := significand.eq_zero_or_pos
  · exact ⟨Double.zero false, rfl, by simp [Double.value_zero], fun _ => rfl⟩
  have whole : (significand / (1 : ℕ) : ℚ) = significand := by simp
  have below : (significand : ℚ) < Double.limit := by
    calc (significand : ℚ) < 2 ^ 64 := mod_cast small
      _ ≤ 10 ^ largestPower := by
        refine le_trans ?_ (pow_le_pow_right₀ (by norm_num) (show 20 ≤ largestPower by decide))
        norm_num
      _ < Double.limit := pow_ten_lt_limit
  obtain ⟨d, found, -, most⟩ := Double.exists_ofQuotient?_of_one_le one_pos false
    (by rw [whole]; exact_mod_cast positive) (by rwa [whole])
  exact ⟨d, found, by rwa [whole] at most, fun zero => absurd zero positive.ne'⟩

/-- What is scaled is a double if it is so far below the limit that two roundings do not reach
    it. -/
theorem isSome_ofParts? {exponent : ℤ}
    (below : significand * 10 ^ exponent * Double.slack < Double.limit) :
    (ofParts? significand exponent).isSome := by
  obtain ⟨start, found, most, zero⟩ := exists_start small
  rw [ofParts?, found]
  cases exponent with
  | negSucc k => exact isSome_lowerTimes? (Nat.mod_lt k (by decide)) _ start
  | ofNat k =>
      rw [Int.ofNat_eq_natCast, zpow_natCast] at below
      change Option.isSome (if k ≤ largestPower then raise? start k
        else if start.magnitude = 0 then some start else none)
      split
      · next inside =>
        apply isSome_raise? inside
        calc start.value * (10 ^ k * (1 + 1 / 2 ^ 53))
            ≤ significand * (1 + 1 / 2 ^ 53) * (10 ^ k * (1 + 1 / 2 ^ 53)) := by gcongr
          _ = significand * 10 ^ k * Double.slack := by
            unfold Double.slack
            ring
          _ < Double.limit := below
      · next outside =>
        obtain rfl | positive := significand.eq_zero_or_pos
        · rw [if_pos (zero rfl)]
          rfl
        · exact absurd (le_largestPower positive below) outside

end

end Dataflow.Json

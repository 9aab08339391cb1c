import Dataflow.Number.Shortest
import Dataflow.Proofs.Rounding

/-! # The range of doubles

The digits chosen for a double lie half a step above it at most. A reader rounds them more than
once, but only the largest doubles are near enough to the limit for that to matter. Main statement:
with what two roundings add, the digits of all other doubles stay below the limit.
-/

namespace Dataflow

/-- What a decimal stands for. -/
def Decimal.value (decimal : Decimal) : ℚ := decimal.digits * 10 ^ decimal.exponent

namespace Double

theorem significand_pos {d : Double} (nonzero : d.magnitude ≠ 0) : 0 < d.significand := by
  unfold significand
  split
  · exact Nat.pos_of_ne_zero nonzero
  · exact Nat.add_pos_right _ (by decide)

namespace Grid

theorem holds_of_nearest? {g : Grid} {tie : Tie} {multiple : Nat}
    (found : g.nearest? tie = some multiple) : g.holds multiple := by
  unfold nearest? at found
  dsimp only at found
  split at found
  · cases found
  · next here _ =>
    cases found
    exact here
  · next _ there =>
    cases found
    exact there
  · next here there =>
    split_ifs at found
    · cases found
      exact here
    · cases found
      exact there
    · cases tie <;> cases found
      · obtain even | odd := Nat.mod_two_eq_zero_or_one (g.center / g.step)
        · rwa [even]
        · rwa [odd]
      · exact there

theorem le_of_holds {g : Grid} {multiple : Nat} (holds : g.holds multiple) :
    g.low ≤ multiple * g.step ∧ multiple * g.step ≤ g.high := by
  unfold Grid.holds at holds
  cases closed : g.closed <;> simp [closed] at holds
  · exact ⟨holds.1.le, holds.2.le⟩
  · exact holds

variable {d : Double} {exponent : ℤ} {multiple : Nat}

/-- The upper end of the interval of a double lies half a step above it. -/
theorem value_le_of_holds (holds : (around d exponent).holds multiple) :
    Decimal.value ⟨multiple, exponent⟩ ≤ (4 * d.significand + 2) * 2 ^ (d.exponent - 2) := by
  have most := (le_of_holds holds).2
  -- one unit of the grid
  have unit : (0 : ℚ) < 2 ^ (-(d.exponent - 2)).toNat * 10 ^ (-exponent).toNat := by positivity
  have point : ((multiple * (around d exponent).step : ℕ) : ℚ) =
      Decimal.value ⟨multiple, exponent⟩ *
        (2 ^ (-(d.exponent - 2)).toNat * 10 ^ (-exponent).toNat) := by
    unfold Decimal.value
    rw [zpow_eq_div (by norm_num)]
    simp only [around]
    push_cast [Nat.pow_eq]
    field_simp
  have high : ((around d exponent).high : ℚ) = (4 * d.significand + 2) * 2 ^ (d.exponent - 2) *
      (2 ^ (-(d.exponent - 2)).toNat * 10 ^ (-exponent).toNat) := by
    rw [zpow_eq_div (by norm_num)]
    simp only [around]
    push_cast [Nat.pow_eq]
    field_simp
  rwa [← Nat.cast_le (α := ℚ), point, high, mul_le_mul_iff_left₀ unit] at most

theorem pos_of_holds (nonzero : d.magnitude ≠ 0) (holds : (around d exponent).holds multiple) :
    0 < multiple := by
  have least := (le_of_holds holds).1
  have low : 0 < (around d exponent).low := by
    have positive := significand_pos nonzero
    unfold around
    dsimp only
    refine Nat.mul_pos ?_ (Nat.mul_pos (Nat.pow_pos (by decide)) (Nat.pow_pos (by decide)))
    split <;> omega
  exact Nat.pos_of_mul_pos_right (low.trans_le least)

end Grid

theorem holds_of_searchGrids {d : Double} {tie : Tie} {count : Nat} {exponent : ℤ}
    {decimal : Decimal} (found : d.searchGrids tie count exponent = some decimal) :
    (Grid.around d decimal.exponent).holds decimal.digits := by
  induction count generalizing exponent with
  | zero => cases found
  | succ count ih =>
      unfold searchGrids at found
      split at found
      · next nearest =>
        cases found
        exact Grid.holds_of_nearest? nearest
      · exact ih found

theorem value_stripZeros (count : Nat) (decimal : Decimal) :
    (stripZeros count decimal).value = decimal.value := by
  induction count generalizing decimal with
  | zero => rfl
  | succ count ih =>
      unfold stripZeros
      split
      · next zero =>
        have parts : (10 : ℚ) * (decimal.digits / 10 : ℕ) = decimal.digits :=
          mod_cast Nat.mul_div_cancel' (Nat.dvd_of_mod_eq_zero zero.1)
        rw [ih, Decimal.value, Decimal.value, zpow_add_one₀ (by norm_num), ← parts]
        ring
      · rfl

theorem digits_stripZeros_pos {decimal : Decimal} (positive : 0 < decimal.digits) (count : Nat) :
    0 < (stripZeros count decimal).digits := by
  induction count generalizing decimal with
  | zero => exact positive
  | succ count ih =>
      unfold stripZeros
      split
      · exact ih (show 0 < decimal.digits / 10 by omega)
      · exact positive

/-- The digits of a double lie half a step above it at most. -/
theorem value_shortest_le (d : Double) (tie : Tie) :
    (d.shortest tie).value ≤ (4 * d.significand + 2) * 2 ^ (d.exponent - 2) := by
  unfold shortest
  split
  · rw [Decimal.value, Nat.cast_zero, zero_mul]
    positivity
  split
  · next found =>
    rw [value_stripZeros]
    exact Grid.value_le_of_holds (holds_of_searchGrids found)
  · have tens : min d.exponent 0 = -((-d.exponent).toNat : ℤ) := by omega
    have same : Decimal.value ⟨d.significand * Nat.pow 2 d.exponent.toNat *
        Nat.pow 5 (-d.exponent).toNat, min d.exponent 0⟩ = d.significand * 2 ^ d.exponent := by
      rw [Decimal.value, zpow_eq_div two_ne_zero, tens, zpow_neg, zpow_natCast]
      push_cast [Nat.pow_eq]
      rw [show (10 : ℚ) = 2 * 5 by norm_num, mul_pow]
      field_simp
    rw [same, zpow_sub₀ two_ne_zero, mul_div_left_comm]
    have power : (0 : ℚ) < 2 ^ d.exponent := by positivity
    linarith

theorem value_shortest_le_limit (d : Double) (tie : Tie) : (d.shortest tie).value ≤ limit := by
  have significand : (d.significand : ℚ) + 1 ≤ 2 ^ 53 := mod_cast d.significand_lt
  have power : (2 : ℚ) ^ (d.exponent - 2) ≤ 2 ^ 969 := by
    rw [← zpow_natCast]
    exact zpow_le_zpow_right₀ one_le_two (by have := d.exponent_le; omega)
  rw [limit_eq]
  exact (d.value_shortest_le tie).trans
    (mul_le_mul (by linarith) power (by positivity) (by norm_num))

/-- What the roundings of two factors add at most. -/
def slack : ℚ := (1 + 1 / 2 ^ 53) * (1 + 1 / 2 ^ 53)

theorem one_le_slack : 1 ≤ slack := by norm_num [slack]

theorem slack_nonneg : 0 ≤ slack := zero_le_one.trans one_le_slack

/-- For all but the two largest doubles, the digits leave room for two roundings below the limit. -/
theorem value_shortest_mul_slack_lt {d : Double} (inside : d.magnitude + 2 < magnitudeBound)
    (tie : Tie) : (d.shortest tie).value * slack < limit := by
  have room : (4 * d.significand + 2 : ℚ) * 2 ^ (d.exponent - 2) ≤ (2 ^ 55 - 10) * 2 ^ 969 := by
    have significand := d.significand_lt
    unfold fractionSize at significand
    obtain last | smaller := d.exponent_le.eq_or_lt
    · have few : d.significand + 3 ≤ 2 ^ 53 := by
        unfold Double.exponent exponentField fractionSize at last
        unfold Double.significand exponentField fractionSize
        unfold magnitudeBound at inside
        split <;> omega
      have few : (d.significand : ℚ) + 3 ≤ 2 ^ 53 := mod_cast few
      rw [last, show (971 - 2 : ℤ) = (969 : ℕ) from rfl, zpow_natCast]
      gcongr
      linarith
    · have significand : (d.significand : ℚ) + 1 ≤ 2 ^ 53 := mod_cast significand
      have exponent : d.exponent - 2 ≤ (968 : ℕ) := by omega
      calc (4 * d.significand + 2 : ℚ) * 2 ^ (d.exponent - 2)
          ≤ ((2 ^ 55 - 10) * 2) * 2 ^ ((968 : ℕ) : ℤ) := by
            gcongr
            · linarith
            · exact one_le_two
        _ = (2 ^ 55 - 10) * 2 ^ 969 := by rw [zpow_natCast, mul_assoc, ← pow_succ']
  rw [limit_eq]
  calc (d.shortest tie).value * slack
      ≤ (2 ^ 55 - 10) * 2 ^ 969 * slack :=
        mul_le_mul_of_nonneg_right ((d.value_shortest_le tie).trans room) slack_nonneg
    _ = (2 ^ 55 - 10) * slack * 2 ^ 969 := mul_right_comm _ _ _
    _ < (2 ^ 55 - 2) * 2 ^ 969 := by
        gcongr
        norm_num [slack]

/-- Only zero has no digit but zero, and then the exponent is zero as well. -/
theorem digits_shortest_pos {d : Double} (nonzero : d.magnitude ≠ 0) (tie : Tie) :
    0 < (d.shortest tie).digits := by
  unfold shortest
  rw [if_neg nonzero]
  split
  · next found =>
    exact digits_stripZeros_pos (Grid.pos_of_holds nonzero (holds_of_searchGrids found)) 20
  · exact Nat.mul_pos (Nat.mul_pos (significand_pos nonzero) (Nat.pow_pos (by decide)))
      (Nat.pow_pos (by decide))

end Double

end Dataflow

import Dataflow.Proofs.Json.Scaling

/-! # Numbers that are written

The number before the point of a double is written with sixteen digits at most, so that all of it
goes into the significand. Main statements: what is written of an integer or a double is read as a
number, and when it is cut off, the text runs out or a number is read, of an integer one of the same
sign.
-/

namespace Dataflow.Json

theorem gather_lt {significand : Nat} (small : significand < 0x10000000000000000) (bytes : Bytes) :
    (gather significand bytes).1 < 0x10000000000000000 := by
  induction bytes generalizing significand with
  | nil => exact small
  | cons b rest ih =>
      unfold gather
      dsimp only
      split
      · next fits => exact ih fits
      · exact small

/-- A digit may be counted to the significand or to the digits after it. -/
theorem spelled_cons (significand : Nat) (b : UInt8) (rest : Bytes) :
    significand * 10 ^ (b :: rest).length + digitsValue (b :: rest) =
      (10 * significand + (b.toNat - 0x30)) * 10 ^ rest.length + digitsValue rest := by
  rw [digitsValue_cons, List.length_cons]
  ring

/-- What is gathered, with zeros for what is left out, does not exceed the digits. -/
theorem gather_mul_le (significand : Nat) (bytes : Bytes) :
    (gather significand bytes).1 * 10 ^ (gather significand bytes).2 ≤
      significand * 10 ^ bytes.length + digitsValue bytes := by
  induction bytes generalizing significand with
  | nil => exact le_rfl
  | cons b rest ih =>
      unfold gather
      dsimp only
      split
      · rw [spelled_cons]
        exact ih _
      · exact Nat.le_add_right _ _

theorem gather_of_lt {significand : Nat} {bytes : Bytes}
    (fits : significand * 10 ^ bytes.length + digitsValue bytes < 0x10000000000000000) :
    gather significand bytes = (significand * 10 ^ bytes.length + digitsValue bytes, 0) := by
  induction bytes generalizing significand with
  | nil => simp [gather, digitsValue]
  | cons b rest ih =>
      rw [spelled_cons] at fits ⊢
      have first : 10 * significand + (b.toNat - 0x30) < 0x10000000000000000 := by
        refine lt_of_le_of_lt ?_ fits
        exact (Nat.le_mul_of_pos_right _ (Nat.pow_pos (by decide))).trans (Nat.le_add_right _ _)
      rw [gather, if_pos first]
      exact ih fits

namespace Numeral

variable {numeral : Numeral}

/-- What a number stands for, but for its sign. -/
def decimal (numeral : Numeral) : Decimal where
  digits := digitsValue (numeral.whole ++ numeral.fraction.getD [])
  exponent := numeral.shift - (numeral.fraction.getD []).length

/-- A number that stands for the decimal, with few digits before the point and no exponent beyond
    those of doubles. -/
structure Fits (numeral : Numeral) (decimal : Decimal) : Prop where
  valid : numeral.Valid
  short : numeral.whole.length ≤ 16
  shift_lt : numeral.shift < 309
  value_eq : numeral.decimal.value = decimal.value

/-- If all digits before the point are gathered, the parts of a number do not exceed it. -/
theorem parts_le (valid : numeral.Valid) (short : numeral.whole.length ≤ 16) :
    (numeral.parts.1 : ℚ) * 10 ^ numeral.parts.2 ≤ numeral.decimal.value := by
  have whole : gather 0 numeral.whole = (digitsValue numeral.whole, 0) := by
    have small : digitsValue numeral.whole < 10 ^ 16 :=
      (digitsValue_lt valid.whole.2).trans_le (Nat.pow_le_pow_right (by decide) short)
    rw [gather_of_lt (by omega), Nat.zero_mul, Nat.zero_add]
  have gathered := gather_mul_le (digitsValue numeral.whole) (numeral.fraction.getD [])
  rw [← digitsValue_append] at gathered
  unfold parts Decimal.value decimal
  simp only [whole]
  rw [Nat.zero_add, zpow_add₀ (by norm_num), zpow_natCast, mul_left_comm, mul_comm _ (_ : ℚ)]
  gcongr
  exact_mod_cast gathered

theorem isSome_value? (valid : numeral.Valid) (short : numeral.whole.length ≤ 16)
    (below : numeral.decimal.value * Double.slack < Double.limit) : numeral.value?.isSome := by
  unfold value?
  split
  · rfl
  · rw [double?, Option.isSome_map]
    apply isSome_ofParts? (gather_lt (gather_lt (by decide) _) _)
    exact (mul_le_mul_of_nonneg_right (parts_le valid short) Double.slack_nonneg).trans_lt below

/-- A number has as many digits before the point as are written there, and as many more as the
    exponent says. -/
theorem value_lt_pow (valid : numeral.Valid) :
    numeral.decimal.value < 10 ^ (numeral.whole.length + numeral.shift) := by
  have digits : ∀ b ∈ numeral.whole ++ numeral.fraction.getD [], isDigit b := by
    refine List.forall_mem_append.2 ⟨valid.whole.2, ?_⟩
    cases fraction : numeral.fraction with
    | none => simp
    | some found => exact (valid.fraction found fraction).2
  have small : (digitsValue (numeral.whole ++ numeral.fraction.getD []) : ℚ) <
      10 ^ (numeral.whole.length + (numeral.fraction.getD []).length) := by
    rw [← List.length_append]
    exact_mod_cast digitsValue_lt digits
  unfold Decimal.value decimal
  dsimp only
  calc (digitsValue (numeral.whole ++ numeral.fraction.getD []) : ℚ) *
        10 ^ (numeral.shift - (numeral.fraction.getD []).length)
      < 10 ^ (numeral.whole.length + (numeral.fraction.getD []).length) *
        10 ^ (numeral.shift - (numeral.fraction.getD []).length) := by gcongr
    _ = 10 ^ (numeral.whole.length + numeral.shift) := by
        rw [← zpow_natCast, ← zpow_add₀ (by norm_num)]
        congr 1
        push_cast
        ring

/-- A cut takes a digit of the exponent away, so that what is left of a number in range is small. -/
theorem Fits.shift_le_of_shortens {decimal : Decimal} (fits : numeral.Fits decimal)
    {shorter : Numeral} (shortens : numeral.Shortens shorter) : shorter.shift ≤ 30 := by
  cases shortens with
  | mantissa fewer => exact Int.zero_le_ofNat 30
  | @exponent negative found more proper whole =>
      have shift_lt := fits.shift_lt
      unfold shift at shift_lt ⊢
      rw [whole] at shift_lt
      cases negative with
      | true =>
          dsimp only
          omega
      | false =>
          have tenfold : digitsValue found * 10 ≤ digitsValue (found ++ more) := by
            rw [digitsValue_append]
            refine le_trans ?_ (Nat.le_add_right _ _)
            exact Nat.mul_le_mul_left _ (Nat.le_self_pow (List.length_pos_iff.2 proper).ne' 10)
          dsimp only at shift_lt ⊢
          omega

theorem Fits.isSome_value?_of_shortens {decimal : Decimal} (fits : numeral.Fits decimal)
    {shorter : Numeral} (valid : shorter.Valid) (shortens : numeral.Shortens shorter) :
    shorter.value?.isSome := by
  have short : shorter.whole.length ≤ 16 := by
    cases shortens with
    | mantissa fewer => exact fewer.trans fits.short
    | exponent => exact fits.short
  apply Numeral.isSome_value? valid short
  have shift := fits.shift_le_of_shortens shortens
  calc shorter.decimal.value * Double.slack
      ≤ 10 ^ ((46 : ℕ) : ℤ) * Double.slack := by
        refine mul_le_mul_of_nonneg_right ?_ Double.slack_nonneg
        refine (value_lt_pow valid).le.trans (zpow_le_zpow_right₀ (by norm_num) ?_)
        omega
    _ ≤ 10 ^ 47 := by
        rw [zpow_natCast]
        norm_num [Double.slack]
    _ ≤ 10 ^ largestPower := pow_le_pow_right₀ (by norm_num) (by decide)
    _ < Double.limit := pow_ten_lt_limit

end Numeral

section

variable {numeral : Numeral}

theorem number_of_scan {bytes : Bytes} (scanned : Numeral.scan bytes = .ok (numeral, []))
    (value : numeral.value?.isSome) : ∃ n, number bytes = .ok (n, []) := by
  obtain ⟨n, value⟩ := Option.isSome_iff_exists.1 value
  exact ⟨n, number_eq_ok_iff.2 ⟨numeral, scanned, value⟩⟩

variable {decimal : Decimal} (fits : numeral.Fits decimal)
include fits

theorem number_written (below : decimal.value * Double.slack < Double.limit) :
    ∃ n, number numeral.written = .ok (n, []) :=
  number_of_scan (Numeral.scan_written fits.valid)
    (Numeral.isSome_value? fits.valid fits.short (fits.value_eq ▸ below))

theorem number_cut {kept rest : Bytes} (cut : kept ++ rest = numeral.written)
    (proper : rest ≠ []) : number kept = .error .endOfText ∨ ∃ n, number kept = .ok (n, []) := by
  obtain ended | ⟨shorter, valid, shortens, scanned⟩ := Numeral.scan_cut fits.valid cut proper
  · exact .inl (by rw [number, ended]; rfl)
  · exact .inr (number_of_scan scanned (fits.isSome_value?_of_shortens valid shortens))

end

section

variable {m : Nat}

theorem digits_decimalDigits (m : Nat) : Digits (Bytes.ofAscii (decimalDigits m)) :=
  ⟨by simp [Bytes.ofAscii, decimalDigits, Nat.toDigits_ne_nil], isDigit_ofAscii m⟩

theorem digits_zero : Digits [0x30] := ⟨by simp, List.forall_mem_singleton.2 rfl⟩

theorem head?_ofAscii_decimalDigits (positive : 0 < m) :
    (Bytes.ofAscii (decimalDigits m)).head? ≠ some 0x30 := by
  intro first
  have value := digitsValue_decimalDigits m
  cases same : Bytes.ofAscii (decimalDigits m) with
  | nil => simp [same] at first
  | cons b rest =>
      rw [same] at first value
      obtain rfl : b = 0x30 := by simpa using first
      cases rest with
      | nil => exact positive.ne value
      | cons b rest => exact ofAscii_decimalDigits_ne m b rest same

theorem leading_of_head? {whole : Bytes} (first : whole.head? ≠ some 0x30) :
    ∀ b rest, whole ≠ 0x30 :: b :: rest := by
  rintro b rest rfl
  exact first rfl

variable {x : ℤ}

/-- A whole number, with a zero after the point. -/
theorem exists_whole (normal : m = 0 → x = 0) (short : (decimalDigits m).length + x ≤ 16)
    (whole : 0 ≤ x) (negative : Bool) : ∃ numeral : Numeral, numeral.Fits ⟨m, x⟩ ∧
      numeral.negative = negative ∧ numeral.writtenUnsigned =
        Bytes.ofAscii (decimalDigits m ++ List.replicate x.toNat '0' ++ ['.', '0']) := by
  have length : (Bytes.ofAscii (decimalDigits m)).length = (decimalDigits m).length :=
    List.length_map _
  have digits : Digits (Bytes.ofAscii (decimalDigits m) ++ List.replicate x.toNat 0x30) :=
    ⟨by simp [(digits_decimalDigits m).1],
      List.forall_mem_append.2 ⟨isDigit_ofAscii m, isDigit_replicate⟩⟩
  refine ⟨⟨negative, Bytes.ofAscii (decimalDigits m) ++ List.replicate x.toNat 0x30,
    some [0x30], none⟩, ⟨⟨digits, ?_, ?_, by simp⟩, ?_, by simp [Numeral.shift], ?_⟩, rfl, ?_⟩
  · obtain rfl | positive := m.eq_zero_or_pos
    · rw [normal rfl]
      exact ofAscii_decimalDigits_ne 0
    · apply leading_of_head?
      rw [List.head?_append_of_ne_nil _ (digits_decimalDigits m).1]
      exact head?_ofAscii_decimalDigits positive
  · rintro _ ⟨⟩
    exact digits_zero
  · rw [List.length_append, length, List.length_replicate]
    omega
  · obtain ⟨n, rfl⟩ := Int.eq_ofNat_of_zero_le whole
    have value : digitsValue
        (Bytes.ofAscii (decimalDigits m) ++ List.replicate n 0x30 ++ [0x30]) = m * 10 ^ n * 10 := by
      rw [digitsValue_append, digitsValue_append, digitsValue_replicate,
        digitsValue_decimalDigits, List.length_replicate]
      rfl
    simp only [Numeral.decimal, Decimal.value, Option.getD_some, Int.toNat_natCast, value,
      Numeral.shift, List.length_singleton, zpow_natCast]
    push_cast
    exact mul_inv_cancel_right₀ (by norm_num) _
  · simp [Numeral.writtenUnsigned, Numeral.writtenFraction, Numeral.writtenExponent, Bytes.ofAscii]

/-- Digits on both sides of the point. -/
theorem exists_inside (normal : m = 0 → x = 0) (short : (decimalDigits m).length + x ≤ 16)
    (fraction : x < 0) (inside : 0 < (decimalDigits m).length + x) (negative : Bool) :
    ∃ numeral : Numeral, numeral.Fits ⟨m, x⟩ ∧ numeral.negative = negative ∧
      numeral.writtenUnsigned =
        Bytes.ofAscii ((decimalDigits m).take ((decimalDigits m).length + x).toNat ++
          '.' :: (decimalDigits m).drop ((decimalDigits m).length + x).toNat) := by
  have length : (Bytes.ofAscii (decimalDigits m)).length = (decimalDigits m).length :=
    List.length_map _
  generalize point : ((decimalDigits m).length + x).toNat = p
  have digits := digits_decimalDigits m
  have before : Digits ((Bytes.ofAscii (decimalDigits m)).take p) :=
    ⟨by simp [digits.1]; omega, fun b member => digits.2 b (List.mem_of_mem_take member)⟩
  have after : Digits ((Bytes.ofAscii (decimalDigits m)).drop p) :=
    ⟨by simp; omega, fun b member => digits.2 b (List.mem_of_mem_drop member)⟩
  refine ⟨⟨negative, (Bytes.ofAscii (decimalDigits m)).take p,
    some ((Bytes.ofAscii (decimalDigits m)).drop p), none⟩,
    ⟨⟨before, ?_, ?_, by simp⟩, ?_, by simp [Numeral.shift], congrArg Decimal.value ?_⟩, rfl, ?_⟩
  · have positive : 0 < m := Nat.pos_of_ne_zero fun zero => by
      have := normal zero
      omega
    apply leading_of_head?
    rw [List.head?_take, if_neg (by omega)]
    exact head?_ofAscii_decimalDigits positive
  · rintro _ ⟨⟩
    exact after
  · rw [List.length_take]
    omega
  · simp only [Numeral.decimal, Option.getD_some, List.take_append_drop, digitsValue_decimalDigits,
      Numeral.shift, List.length_drop, length, Decimal.mk.injEq, true_and]
    omega
  · simp [Numeral.writtenUnsigned, Numeral.writtenFraction, Numeral.writtenExponent, Bytes.ofAscii]

/-- Zeros between the point and the digits. -/
theorem exists_small (outside : (decimalDigits m).length + x ≤ 0) (negative : Bool) :
    ∃ numeral : Numeral, numeral.Fits ⟨m, x⟩ ∧ numeral.negative = negative ∧
      numeral.writtenUnsigned = Bytes.ofAscii ('0' :: '.' ::
        List.replicate (-((decimalDigits m).length + x)).toNat '0' ++ decimalDigits m) := by
  have length : (Bytes.ofAscii (decimalDigits m)).length = (decimalDigits m).length :=
    List.length_map _
  generalize zeros : (-((decimalDigits m).length + x)).toNat = count
  have digits : Digits (List.replicate count 0x30 ++ Bytes.ofAscii (decimalDigits m)) :=
    ⟨by simp [(digits_decimalDigits m).1],
      List.forall_mem_append.2 ⟨isDigit_replicate, isDigit_ofAscii m⟩⟩
  refine ⟨⟨negative, [0x30], some (List.replicate count 0x30 ++ Bytes.ofAscii (decimalDigits m)),
    none⟩, ⟨⟨digits_zero, by simp, ?_, by simp⟩, by simp, by simp [Numeral.shift],
      congrArg Decimal.value ?_⟩, rfl, ?_⟩
  · rintro _ ⟨⟩
    exact digits
  · simp only [Numeral.decimal, Option.getD_some, digitsValue_append, digitsValue_replicate,
      digitsValue_decimalDigits, Numeral.shift, List.length_append, List.length_replicate, length,
      Decimal.mk.injEq]
    refine ⟨by simp [digitsValue], by omega⟩
  · simp [Numeral.writtenUnsigned, Numeral.writtenFraction, Numeral.writtenExponent, Bytes.ofAscii]

/-- Digits in place. -/
theorem exists_positional (normal : m = 0 → x = 0) (short : (decimalDigits m).length + x ≤ 16)
    (negative : Bool) : ∃ numeral : Numeral, numeral.Fits ⟨m, x⟩ ∧ numeral.negative = negative ∧
      numeral.writtenUnsigned =
        Bytes.ofAscii (NumberLayout.positional (decimalDigits m) x) := by
  unfold NumberLayout.positional
  dsimp only
  split_ifs with whole inside
  · exact exists_whole normal short whole negative
  · exact exists_inside normal short (not_le.1 whole) inside negative
  · exact exists_small (not_lt.1 inside) negative

/-- The first digit of a number in range stands for a power of ten in range. -/
theorem leading_lt (within : Decimal.value ⟨m, x⟩ ≤ Double.limit) (normal : m = 0 → x = 0) :
    (decimalDigits m).length + x - 1 < 309 := by
  obtain rfl | positive := m.eq_zero_or_pos
  · rw [normal rfl]
    decide
  have least : 10 ^ ((decimalDigits m).length - 1) ≤ m := by
    by_contra! fewer
    obtain single | several := Nat.eq_zero_or_pos ((decimalDigits m).length - 1)
    · rw [single] at fewer
      omega
    · have := (Nat.length_toDigits_le_iff (by decide) several).2 fewer
      unfold decimalDigits at several this
      omega
  have nonempty : 0 < (decimalDigits m).length := Nat.length_toDigits_pos
  have power : (10 : ℚ) ^ ((decimalDigits m).length + x - 1) < 10 ^ (309 : ℤ) := by
    calc (10 : ℚ) ^ ((decimalDigits m).length + x - 1)
        = 10 ^ ((decimalDigits m).length - 1) * 10 ^ x := by
          rw [← zpow_natCast, ← zpow_add₀ (by norm_num)]
          congr 1
          omega
      _ ≤ m * 10 ^ x := by
          gcongr
          exact_mod_cast least
      _ ≤ Double.limit := within
      _ < 10 ^ (309 : ℤ) := Double.limit_lt_pow_ten
  rwa [zpow_lt_zpow_iff_right₀ (by norm_num)] at power

variable {y : ℤ} (inside : y < 309) (leading : y = (decimalDigits m).length + x - 1)
include inside leading

theorem fits_scientific {b : UInt8} {fraction : Option Bytes}
    (digits : ∀ found ∈ fraction, Digits found)
    (same : b :: fraction.getD [] = Bytes.ofAscii (decimalDigits m)) (negative : Bool) :
    Numeral.Fits ⟨negative, [b], fraction,
      some (decide (y < 0), Bytes.ofAscii (decimalDigits y.natAbs))⟩ ⟨m, x⟩ := by
  have first : isDigit b := isDigit_ofAscii m b (by rw [← same]; exact List.mem_cons_self)
  have length : (fraction.getD []).length + 1 = (decimalDigits m).length := by
    rw [← List.length_cons, same]
    exact List.length_map _
  have shift : Numeral.shift ⟨negative, [b], fraction,
      some (decide (y < 0), Bytes.ofAscii (decimalDigits y.natAbs))⟩ = y := by
    unfold Numeral.shift
    by_cases sign : y < 0
    · simp only [sign, decide_true, digitsValue_decimalDigits]
      omega
    · simp only [sign, decide_false, digitsValue_decimalDigits]
      omega
  refine ⟨⟨⟨by simp, List.forall_mem_singleton.2 first⟩, by simp, digits, ?_⟩, by simp,
    shift.trans_lt inside, congrArg Decimal.value ?_⟩
  · rintro _ ⟨⟩
    exact digits_decimalDigits _
  · simp only [Numeral.decimal, shift, List.singleton_append, same, digitsValue_decimalDigits,
      Decimal.mk.injEq, true_and]
    omega

/-- One digit before the point, and an exponent. -/
theorem exists_scientific (negative : Bool) : ∃ numeral : Numeral, numeral.Fits ⟨m, x⟩ ∧
    numeral.negative = negative ∧ numeral.writtenUnsigned =
      Bytes.ofAscii (NumberLayout.scientific (decimalDigits m) y) := by
  have sign : (if y < 0 then '-' else '+').toNat.toUInt8 =
      if decide (y < 0) then 0x2d else 0x2b := by
    by_cases negative : y < 0 <;> simp [negative]
  match same : decimalDigits m with
  | [] => exact (Nat.toDigits_ne_nil same).elim
  | [c] =>
      have fits := fits_scientific inside leading (fun _ => by rintro ⟨⟩)
        (show c.toNat.toUInt8 :: (none : Option Bytes).getD [] = _ by rw [same]; rfl) negative
      refine ⟨_, fits, rfl, ?_⟩
      simp only [NumberLayout.scientific, Numeral.writtenUnsigned, Numeral.writtenFraction,
        Numeral.writtenExponent, Bytes.ofAscii, List.map_append, List.map_cons, List.map_nil, sign]
      rfl
  | c :: d :: rest =>
      have digits := isDigit_ofAscii m
      rw [same] at digits
      have fits := fits_scientific inside leading
        (show ∀ found ∈ some (Bytes.ofAscii (d :: rest)), Digits found by
          rintro _ ⟨⟩
          exact ⟨by simp [Bytes.ofAscii], fun b member => digits b (List.mem_cons_of_mem _ member)⟩)
        (show c.toNat.toUInt8 :: (some (Bytes.ofAscii (d :: rest))).getD [] = _ by rw [same]; rfl)
        negative
      refine ⟨_, fits, rfl, ?_⟩
      simp only [NumberLayout.scientific, Numeral.writtenUnsigned, Numeral.writtenFraction,
        Numeral.writtenExponent, Bytes.ofAscii, List.map_append, List.map_cons, sign]
      rfl

end

/-- What is written of a double is a number that stands for its digits. -/
theorem exists_fits (d : Double) : ∃ numeral : Numeral,
    numeral.Fits (d.shortest numberLayout.tie) ∧
      numeral.written = Bytes.ofAscii (numberLayout.text d) := by
  have within := d.value_shortest_le_limit numberLayout.tie
  have normal : (d.shortest numberLayout.tie).digits = 0 →
      (d.shortest numberLayout.tie).exponent = 0 := by
    intro zero
    by_cases nonzero : d.magnitude = 0
    · rw [Double.shortest, if_pos nonzero]
    · exact absurd zero (Double.digits_shortest_pos nonzero _).ne'
  unfold NumberLayout.text
  dsimp only
  generalize d.shortest numberLayout.tie = decimal at within normal ⊢
  obtain ⟨m, x⟩ := decimal
  dsimp only at within normal ⊢
  have body : ∃ numeral : Numeral, numeral.Fits ⟨m, x⟩ ∧ numeral.negative = d.negative ∧
      numeral.writtenUnsigned = Bytes.ofAscii
        (if numberLayout.inPlace ((decimalDigits m).length + x - 1)
          then NumberLayout.positional (decimalDigits m) x
          else NumberLayout.scientific (decimalDigits m) ((decimalDigits m).length + x - 1)) := by
    split
    · next inPlace =>
      have short : (decimalDigits m).length + x ≤ 16 := by
        simp only [numberLayout, Bool.and_eq_true, decide_eq_true_eq] at inPlace
        omega
      exact exists_positional normal short d.negative
    · exact exists_scientific (leading_lt within normal) rfl d.negative
  obtain ⟨numeral, fits, sign, written⟩ := body
  refine ⟨numeral, fits, ?_⟩
  rw [Numeral.written, written, sign]
  split <;> rfl

/-- The digits of the two largest doubles are within two roundings of the limit, but not rounded
    that far. -/
theorem number_largest (negative : Bool) :
    let largest : Double := ⟨negative, Double.magnitudeBound - 1, by decide⟩
    number (Bytes.ofAscii (numberLayout.text largest)) = .ok (.double largest, []) ∧
      number (Bytes.ofAscii (numberLayout.text ⟨negative, Double.magnitudeBound - 2, by decide⟩)) =
        .ok (.double largest, []) := by
  cases negative <;> decide +kernel

theorem number_double (d : Double) :
    ∃ n, number (Bytes.ofAscii (numberLayout.text d)) = .ok (n, []) := by
  by_cases inside : d.magnitude + 2 < Double.magnitudeBound
  · obtain ⟨numeral, fits, written⟩ := exists_fits d
    exact written ▸ number_written fits (d.value_shortest_mul_slack_lt inside _)
  · obtain ⟨negative, magnitude, magnitude_lt⟩ := d
    obtain ⟨last, lastButOne⟩ := number_largest negative
    obtain rfl | rfl : magnitude = Double.magnitudeBound - 1 ∨
        magnitude = Double.magnitudeBound - 2 := by
      dsimp only at inside
      omega
    · exact ⟨_, last⟩
    · exact ⟨_, lastButOne⟩

theorem number_double_cut {d : Double} {kept rest : Bytes}
    (cut : kept ++ rest = Bytes.ofAscii (numberLayout.text d)) (proper : rest ≠ []) :
    number kept = .error .endOfText ∨ ∃ n, number kept = .ok (n, []) := by
  obtain ⟨numeral, fits, written⟩ := exists_fits d
  exact number_cut fits (cut.trans written.symm) proper

/-- The digits at the start of a number are those of a number. -/
theorem exists_decimalDigits {n : Nat} {kept rest : List Char}
    (cut : kept ++ rest = decimalDigits n) (nonempty : kept ≠ []) :
    ∃ m ≤ n, kept = decimalDigits m ∧ (0 < n → 0 < m) := by
  induction n using Nat.strong_induction_on generalizing rest with
  | _ n ih =>
      obtain rfl | ⟨before, last, rfl⟩ := rest.eq_nil_or_concat
      · exact ⟨n, le_rfl, by rw [← cut, List.append_nil], id⟩
      rw [decimalDigits, Nat.toDigits_eq_if (by decide)] at cut
      split at cut
      · -- a single digit has nothing before it
        rw [List.concat_eq_append, ← List.append_assoc] at cut
        have none := (List.append_inj' (cut.trans (List.nil_append [_]).symm) rfl).1
        exact (nonempty (List.append_eq_nil_iff.1 none).1).elim
      · next wide =>
        rw [List.concat_eq_append, ← List.append_assoc] at cut
        obtain ⟨m, least, same, positive⟩ := ih (n / 10) (by omega) (List.append_inj' cut rfl).1
        exact ⟨m, by omega, same, fun _ => positive (by omega)⟩

theorem number_integer_cut {n : Integer} {kept rest : Bytes}
    (cut : kept ++ rest = Bytes.ofAscii (integerText n.val)) :
    number kept = .error .endOfText ∨
      ∃ m : Integer, number kept = .ok (.int m, []) ∧ (0 ≤ n.val → 0 ≤ m.val) := by
  have least := n.least_le
  have most := n.lt_bound
  obtain ⟨before, after, same, rfl, -⟩ := List.map_eq_append_iff.1 cut.symm
  change number (Bytes.ofAscii before) = _ ∨ ∃ m : Integer, number (Bytes.ofAscii before) = _ ∧ _
  unfold integerText at same
  split at same
  · next negative =>
    match before with
    | [] | ['-'] => exact .inl rfl
    | sign :: c :: digits =>
      obtain ⟨rfl, inner⟩ := List.cons.inj same
      obtain ⟨m, lower, spelled, positive⟩ :=
        exists_decimalDigits inner.symm (List.cons_ne_nil c digits)
      have below : -(m : ℤ) < 0 := neg_lt_zero.2 (Int.natCast_pos.2 (positive (by omega)))
      have read := number_integerText ⟨-m, by omega, by omega⟩
      rw [integerText, if_pos below, Int.natAbs_neg, Int.natAbs_natCast, ← spelled] at read
      exact .inr ⟨_, read, fun nonnegative => absurd negative (not_lt.2 nonnegative)⟩
  · next nonnegative =>
    match before with
    | [] => exact .inl rfl
    | c :: digits =>
      obtain ⟨m, lower, spelled, -⟩ :=
        exists_decimalDigits same.symm (List.cons_ne_nil c digits)
      have above : ¬(m : ℤ) < 0 := not_lt.2 (Int.natCast_nonneg m)
      have read := number_integerText ⟨m, by omega, by omega⟩
      rw [integerText, if_neg above, Int.natAbs_natCast, ← spelled] at read
      exact .inr ⟨_, read, fun _ => Int.natCast_nonneg m⟩

end Dataflow.Json

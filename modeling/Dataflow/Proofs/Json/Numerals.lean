import Dataflow.Proofs.Json.Writing

/-! # Numbers as they are written

A number is written in its parts: sign, digits before the point, fraction and exponent. Main
statements: what is written of an integer or a double is read as a number, and when it is cut off,
the text runs out or a shorter number is read.
-/

namespace Dataflow.Json

def Digits (bytes : Bytes) : Prop := bytes ≠ [] ∧ ∀ b ∈ bytes, isDigit b

theorem Digits.append_left {found rest : Bytes} (digits : Digits (found ++ rest))
    (nonempty : found ≠ []) : Digits found :=
  ⟨nonempty, fun b member => digits.2 b (List.mem_append_left _ member)⟩

theorem digitsValue_append (a b : Bytes) :
    digitsValue (a ++ b) = digitsValue a * 10 ^ b.length + digitsValue b := by
  unfold digitsValue
  rw [List.foldl_append]
  generalize List.foldl (fun n b => 10 * n + (b.toNat - 0x30)) 0 a = start
  induction b generalizing start with
  | nil => simp
  | cons b rest ih =>
      rw [List.foldl_cons, List.foldl_cons, ih (10 * start + _), ih (10 * 0 + _), List.length_cons]
      ring

theorem digitsValue_cons (b : UInt8) (rest : Bytes) :
    digitsValue (b :: rest) = (b.toNat - 0x30) * 10 ^ rest.length + digitsValue rest := by
  rw [← List.singleton_append, digitsValue_append]
  simp [digitsValue]

theorem digitsValue_lt {bytes : Bytes} (digits : ∀ b ∈ bytes, isDigit b) :
    digitsValue bytes < 10 ^ bytes.length := by
  induction bytes with
  | nil => decide
  | cons b rest ih =>
      obtain ⟨first, later⟩ := List.forall_mem_cons.1 digits
      have small : b.toNat - 0x30 ≤ 9 := by
        simp only [isDigit, Bool.and_eq_true, decide_eq_true_eq, UInt8.le_iff_toNat_le] at first
        exact Nat.sub_le_sub_right first.2 0x30
      rw [digitsValue_cons, List.length_cons, pow_succ]
      have := ih later
      have := Nat.mul_le_mul_right (10 ^ rest.length) small
      omega

theorem digitsValue_replicate (count : Nat) : digitsValue (List.replicate count 0x30) = 0 := by
  induction count with
  | zero => rfl
  | succ count ih =>
      rw [List.replicate_succ', digitsValue_append, ih]
      rfl

theorem isDigit_replicate {count : Nat} : ∀ b ∈ List.replicate count 0x30, isDigit b := by
  intro b member
  rw [List.eq_of_mem_replicate member]
  rfl

namespace Numeral

theorem digits_append {found rest : Bytes} (digits : Digits found)
    (ended : ∀ b ∈ rest.head?, isDigit b = false) :
    Numeral.digits (found ++ rest) = .ok (found, rest) := by
  refine digits_eq_ok_iff.2 ⟨?_, ?_, digits.1⟩
  · rw [List.takeWhile_append_of_pos digits.2]
    cases rest with
    | nil => simp
    | cons b rest => simp [ended b rfl]
  · rw [List.dropWhile_append_of_pos digits.2]
    cases rest with
    | nil => rfl
    | cons b rest => simp [ended b rfl]

/-- The parts that are read as a number: digits wherever there are any, and no zero before
    others. -/
structure Valid (numeral : Numeral) : Prop where
  whole : Digits numeral.whole
  leading : ∀ b rest, numeral.whole ≠ 0x30 :: b :: rest
  fraction : ∀ found ∈ numeral.fraction, Digits found
  exponent : ∀ found ∈ numeral.exponent, Digits found.2

def writtenFraction : Option Bytes → Bytes
  | none => []
  | some found => 0x2e :: found

/-- The exponent with its sign. -/
def writtenExponent : Option (Bool × Bytes) → Bytes
  | none => []
  | some (negative, found) => 0x65 :: (if negative then 0x2d else 0x2b) :: found

def writtenUnsigned (numeral : Numeral) : Bytes :=
  numeral.whole ++ (writtenFraction numeral.fraction ++ writtenExponent numeral.exponent)

def written (numeral : Numeral) : Bytes :=
  (if numeral.negative then [0x2d] else []) ++ numeral.writtenUnsigned

theorem wholeDigits_append {whole rest : Bytes} (digits : Digits whole)
    (leading : ∀ b rest, whole ≠ 0x30 :: b :: rest)
    (ended : ∀ b ∈ rest.head?, isDigit b = false) :
    wholeDigits (whole ++ rest) = .ok (whole, rest) :=
  wholeDigits_eq_ok_iff.2 ⟨digits_append digits ended, leading⟩

theorem fractionDigits_append {fraction : Option Bytes} (digits : ∀ found ∈ fraction, Digits found)
    {rest : Bytes} (ended : ∀ b ∈ rest.head?, isDigit b = false ∧ b ≠ 0x2e) :
    fractionDigits (writtenFraction fraction ++ rest) = .ok (fraction, rest) := by
  cases fraction with
  | none =>
      cases rest with
      | nil => rfl
      | cons b rest =>
          have other := (ended b rfl).2
          simp [writtenFraction, fractionDigits, other]
  | some found =>
      have read := digits_append (digits found rfl) fun b first => (ended b first).1
      simp [writtenFraction, fractionDigits, read, Bind.bind, Except.bind]

theorem exponentDigits_written {exponent : Option (Bool × Bytes)}
    (digits : ∀ found ∈ exponent, Digits found.2) :
    exponentDigits (writtenExponent exponent) = .ok (exponent, []) := by
  cases exponent with
  | none => rfl
  | some found =>
      obtain ⟨negative, found⟩ := found
      have read := digits_append (digits _ rfl)
        (show ∀ b ∈ ([] : Bytes).head?, isDigit b = false by simp)
      rw [List.append_nil] at read
      cases negative <;>
        simp [writtenExponent, exponentDigits, signedDigits, read, Bind.bind, Except.bind]

theorem head?_writtenExponent (exponent : Option (Bool × Bytes)) :
    ∀ b ∈ (writtenExponent exponent).head?, isDigit b = false ∧ b ≠ 0x2e := by
  obtain _ | ⟨negative, found⟩ := exponent
  · simp [writtenExponent]
  · rintro b ⟨⟩
    decide

theorem head?_writtenFraction (fraction : Option Bytes) {rest : Bytes}
    (ended : ∀ b ∈ rest.head?, isDigit b = false ∧ b ≠ 0x2e) :
    ∀ b ∈ (writtenFraction fraction ++ rest).head?, isDigit b = false := by
  obtain _ | found := fraction
  · exact fun b first => (ended b first).1
  · rintro b ⟨⟩
    decide

variable {numeral : Numeral}

theorem unsigned_append (valid : numeral.Valid) {rest : Bytes}
    (ended : ∀ b ∈ rest.head?, isDigit b = false ∧ b ≠ 0x2e) :
    unsigned numeral.negative (numeral.whole ++ (writtenFraction numeral.fraction ++ rest)) =
      (exponentDigits rest).map fun read =>
        (⟨numeral.negative, numeral.whole, numeral.fraction, read.1⟩, read.2) := by
  have read := wholeDigits_append valid.whole valid.leading
    (head?_writtenFraction numeral.fraction ended)
  have read' := fractionDigits_append valid.fraction ended
  simp only [unsigned, read, read', Bind.bind, Except.bind]
  cases exponentDigits rest <;> rfl

theorem unsigned_written (valid : numeral.Valid) :
    unsigned numeral.negative numeral.writtenUnsigned = .ok (numeral, []) := by
  rw [writtenUnsigned, unsigned_append valid (head?_writtenExponent _),
    exponentDigits_written valid.exponent]
  rfl

theorem scan_eq_unsigned {bytes : Bytes} (unsignedStart : bytes.head? ≠ some 0x2d) :
    scan bytes = unsigned false bytes := by
  unfold scan
  split
  · exact (unsignedStart rfl).elim
  · rfl

theorem head?_of_digits {found : Bytes} (digits : ∀ b ∈ found, isDigit b) (rest : Bytes)
    (nonempty : found ≠ []) : (found ++ rest).head? ≠ some 0x2d := by
  obtain ⟨b, found, rfl⟩ := List.exists_cons_of_ne_nil nonempty
  rintro ⟨⟩
  exact absurd (digits 0x2d List.mem_cons_self) (by decide)

theorem scan_written (valid : numeral.Valid) : scan numeral.written = .ok (numeral, []) := by
  have read := unsigned_written valid
  unfold written
  cases sign : numeral.negative with
  | true =>
      rw [sign] at read
      exact read
  | false =>
      rw [sign] at read
      rw [if_neg Bool.false_ne_true, List.nil_append, scan_eq_unsigned]
      · exact read
      · exact head?_of_digits valid.whole.2 _ valid.whole.1

end Numeral

/-- Bytes that are cut off end in the first part, or after it. -/
theorem cut_append {kept rest a b : Bytes} (cut : kept ++ rest = a ++ b) :
    (∃ more, more ≠ [] ∧ kept ++ more = a) ∨ ∃ part, kept = a ++ part ∧ part ++ rest = b := by
  obtain ⟨more, rfl, rfl⟩ | ⟨part, rfl, rfl⟩ := List.append_eq_append_iff.1 cut
  · by_cases nonempty : more = []
    · subst nonempty
      exact .inr ⟨[], by simp⟩
    · exact .inl ⟨more, nonempty, rfl⟩
  · exact .inr ⟨part, rfl, rfl⟩

namespace Numeral

/-- What is left of a number that is cut off has no exponent or fewer digits in it. -/
inductive Shortens (numeral : Numeral) : Numeral → Prop where
  | mantissa {whole : Bytes} {fraction : Option Bytes} :
      whole.length ≤ numeral.whole.length →
      Shortens numeral ⟨numeral.negative, whole, fraction, none⟩
  | exponent {negative : Bool} {found more : Bytes} : more ≠ [] →
      numeral.exponent = some (negative, found ++ more) →
      Shortens numeral ⟨numeral.negative, numeral.whole, numeral.fraction, some (negative, found)⟩

/-- The text runs out, or the parser reads a shorter number to the end. -/
def CutOff (numeral : Numeral) (outcome : Except Error (Numeral × Bytes)) : Prop :=
  outcome = .error .endOfText ∨
    ∃ shorter : Numeral, shorter.Valid ∧ numeral.Shortens shorter ∧ outcome = .ok (shorter, [])

variable {numeral : Numeral}

theorem cutOff_of_shortens {shorter : Numeral} (valid : shorter.Valid)
    (shortens : numeral.Shortens shorter) {kept : Bytes} (same : shorter.writtenUnsigned = kept) :
    numeral.CutOff (unsigned numeral.negative kept) := by
  have sign : shorter.negative = numeral.negative := by cases shortens <;> rfl
  rw [← same, ← sign]
  exact .inr ⟨shorter, valid, shortens, unsigned_written valid⟩

theorem unsigned_cut_whole (valid : numeral.Valid) {kept more : Bytes}
    (cut : kept ++ more = numeral.whole) : numeral.CutOff (unsigned numeral.negative kept) := by
  by_cases nonempty : kept = []
  · subst nonempty
    exact .inl rfl
  have shorter : Valid ⟨numeral.negative, kept, none, none⟩ := by
    refine ⟨(cut ▸ valid.whole : Digits (kept ++ more)).append_left nonempty, ?_, by simp, by simp⟩
    rintro b rest rfl
    exact valid.leading b (rest ++ more) cut.symm
  refine cutOff_of_shortens shorter (.mantissa (by simp [← cut])) ?_
  simp [writtenUnsigned, writtenFraction, writtenExponent]

theorem unsigned_cut_fraction (valid : numeral.Valid) {part more : Bytes}
    (cut : part ++ more = writtenFraction numeral.fraction) (proper : more ≠ []) :
    numeral.CutOff (unsigned numeral.negative (numeral.whole ++ part)) := by
  cases fraction : numeral.fraction with
  | none =>
      rw [fraction] at cut
      exact (proper (List.append_eq_nil_iff.1 cut).2).elim
  | some found =>
      rw [fraction] at cut
      cases part with
      | nil =>
          have shorter : Valid ⟨numeral.negative, numeral.whole, none, none⟩ :=
            ⟨valid.whole, valid.leading, by simp, by simp⟩
          exact cutOff_of_shortens shorter (.mantissa le_rfl) rfl
      | cons b part =>
          obtain ⟨rfl, inner : part ++ more = found⟩ := List.cons.inj cut
          by_cases nonempty : part = []
          · -- at the point
            have read := wholeDigits_append valid.whole valid.leading
              (show ∀ b ∈ ([0x2e] : Bytes).head?, isDigit b = false by simp; decide)
            subst nonempty
            refine .inl ?_
            simp [unsigned, read, fractionDigits, Numeral.digits, Bind.bind, Except.bind]
          have shorter : Valid ⟨numeral.negative, numeral.whole, some part, none⟩ := by
            refine ⟨valid.whole, valid.leading, ?_, by simp⟩
            rintro _ ⟨⟩
            exact (inner ▸ valid.fraction _ fraction : Digits (part ++ more)).append_left nonempty
          refine cutOff_of_shortens shorter (.mantissa le_rfl) ?_
          simp [writtenUnsigned, writtenFraction, writtenExponent]

theorem unsigned_cut_exponent (valid : numeral.Valid) {part more : Bytes}
    (cut : part ++ more = writtenExponent numeral.exponent) (proper : more ≠ []) :
    numeral.CutOff (unsigned numeral.negative
      (numeral.whole ++ (writtenFraction numeral.fraction ++ part))) := by
  cases exponent : numeral.exponent with
  | none =>
      rw [exponent] at cut
      exact (proper (List.append_eq_nil_iff.1 cut).2).elim
  | some found =>
      obtain ⟨negative, found⟩ := found
      rw [exponent] at cut
      have ended : ∀ b ∈ part.head?, isDigit b = false ∧ b ≠ 0x2e := by
        intro b first
        refine head?_writtenExponent (some (negative, found)) b ?_
        rw [← cut, List.head?_append, first]
        rfl
      rw [unsigned_append valid ended]
      match part with
      | [] =>
          have shorter : Valid ⟨numeral.negative, numeral.whole, numeral.fraction, none⟩ :=
            ⟨valid.whole, valid.leading, valid.fraction, by simp⟩
          exact .inr ⟨_, shorter, .mantissa le_rfl, rfl⟩
      | [_] =>
          obtain ⟨rfl, -⟩ := List.cons.inj cut
          exact .inl rfl
      | _ :: sign :: part =>
          obtain ⟨rfl, signed⟩ := List.cons.inj cut
          obtain ⟨rfl, inner : part ++ more = found⟩ := List.cons.inj signed
          by_cases nonempty : part = []
          · -- at the sign
            subst nonempty
            cases negative <;> exact .inl rfl
          have digits : Digits part :=
            (inner ▸ valid.exponent _ exponent : Digits (part ++ more)).append_left nonempty
          have shorter :
              Valid ⟨numeral.negative, numeral.whole, numeral.fraction, some (negative, part)⟩ := by
            refine ⟨valid.whole, valid.leading, valid.fraction, ?_⟩
            rintro _ ⟨⟩
            exact digits
          refine .inr ⟨_, shorter, .exponent proper (exponent.trans (by rw [← inner])), ?_⟩
          have read := exponentDigits_written shorter.exponent
          rw [show _ :: _ :: part = writtenExponent (some (negative, part)) from rfl, read]
          rfl

theorem unsigned_cut (valid : numeral.Valid) {kept rest : Bytes}
    (cut : kept ++ rest = numeral.writtenUnsigned) (proper : rest ≠ []) :
    numeral.CutOff (unsigned numeral.negative kept) := by
  obtain ⟨more, -, same⟩ | ⟨part, rfl, inner⟩ := cut_append cut
  · exact unsigned_cut_whole valid same
  obtain ⟨more, proper', same⟩ | ⟨part, rfl, innermost⟩ := cut_append inner
  · exact unsigned_cut_fraction valid same proper'
  · exact unsigned_cut_exponent valid innermost proper

theorem scan_cut (valid : numeral.Valid) {kept rest : Bytes}
    (cut : kept ++ rest = numeral.written) (proper : rest ≠ []) : numeral.CutOff (scan kept) := by
  have inside {kept : Bytes} := @unsigned_cut numeral valid kept rest
  unfold written at cut
  cases sign : numeral.negative with
  | true =>
      rw [sign] at cut inside
      cases kept with
      | nil => exact .inl rfl
      | cons b kept =>
          obtain ⟨rfl, same⟩ := List.cons.inj cut
          exact inside same proper
  | false =>
      rw [sign] at cut inside
      rw [scan_eq_unsigned]
      · exact inside cut proper
      · intro first
        apply head?_of_digits valid.whole.2
          (writtenFraction numeral.fraction ++ writtenExponent numeral.exponent) valid.whole.1
        rw [← writtenUnsigned, show numeral.writtenUnsigned = kept ++ rest from cut.symm,
          List.head?_append, first]
        rfl

end Numeral

end Dataflow.Json

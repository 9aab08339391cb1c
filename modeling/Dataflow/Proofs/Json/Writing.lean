import Dataflow.Proofs.Json.Spelling
import Dataflow.Json.Writer

/-! # What is written in JSON

Integers and strings read back as what they were. Main statement: what is written of a value spells
it, in every style whose blanks are blanks, if its doubles read back.
-/

namespace Dataflow

namespace Value

mutual

/-- The doubles in a value, each as often as it occurs. -/
def doubles : Value → List Double
  | double d => [d]
  | array items => doublesItems items
  | object members => doublesMembers members
  | _ => []

def doublesItems : List Value → List Double
  | [] => []
  | item :: rest => item.doubles ++ doublesItems rest

def doublesMembers : List (String × Value) → List Double
  | [] => []
  | (_, value) :: rest => value.doubles ++ doublesMembers rest

end

theorem forall_doublesItems_iff {motive : Double → Prop} {items : List Value} :
    (∀ d ∈ doublesItems items, motive d) ↔ ∀ item ∈ items, ∀ d ∈ item.doubles, motive d := by
  induction items with
  | nil => simp [doublesItems]
  | cons item rest ih => simp only [doublesItems, List.forall_mem_append, List.forall_mem_cons, ih]

theorem forall_doublesMembers_iff {motive : Double → Prop} {members : List (String × Value)} :
    (∀ d ∈ doublesMembers members, motive d) ↔
      ∀ entry ∈ members, ∀ d ∈ entry.2.doubles, motive d := by
  induction members with
  | nil => simp [doublesMembers]
  | cons head rest ih =>
      simp only [doublesMembers, List.forall_mem_append, List.forall_mem_cons, ih]

end Value

namespace Json

theorem toNat_of_isDigit {c : Char} (digit : c.isDigit) : 0x30 ≤ c.toNat ∧ c.toNat ≤ 0x39 := by
  simpa [Char.isDigit, UInt32.le_iff_toNat_le] using digit

theorem isDigit_of_char {c : Char} (digit : c.isDigit) : isDigit c.toNat.toUInt8 := by
  obtain ⟨least, most⟩ := toNat_of_isDigit digit
  simp only [isDigit, Bool.and_eq_true, decide_eq_true_eq, UInt8.le_iff_toNat_le, Nat.toUInt8_eq,
    UInt8.toNat_ofNat', UInt8.reduceToNat]
  omega

theorem isDigit_of_mem_decimalDigits {n : Nat} {c : Char} (member : c ∈ decimalDigits n) :
    c.isDigit :=
  Nat.isDigit_of_mem_toDigits (by decide) (by decide) member

/-- No number but zero starts with the digit zero. -/
theorem head?_decimalDigits {n : Nat} (positive : 0 < n) :
    (decimalDigits n).head? ≠ some '0' := by
  induction n using Nat.strong_induction_on with
  | _ n ih =>
      rw [decimalDigits, Nat.toDigits_eq_if (by decide)]
      split
      · interval_cases n <;> decide
      · next wide =>
        have nonempty : Nat.toDigits 10 (n / 10) ≠ [] := Nat.toDigits_ne_nil
        rw [List.head?_append_of_ne_nil _ nonempty]
        exact ih (n / 10) (by omega) (by omega)

theorem digitsValue_ofAscii {chars : List Char} (digits : ∀ c ∈ chars, c.isDigit) :
    digitsValue (Bytes.ofAscii chars) = Nat.ofDigitChars 10 chars 0 := by
  unfold digitsValue
  generalize 0 = init
  induction chars generalizing init with
  | nil => rfl
  | cons c chars ih =>
      have first := toNat_of_isDigit (digits c List.mem_cons_self)
      have value : c.toNat.toUInt8.toNat = c.toNat := Bytes.toNat_toUInt8 (by omega)
      have later := ih (fun d member => digits d (List.mem_cons_of_mem _ member))
      simp only [Bytes.ofAscii, List.map_cons, List.foldl_cons, Nat.ofDigitChars_cons, value]
      exact later _

theorem digitsValue_decimalDigits (n : Nat) :
    digitsValue (Bytes.ofAscii (decimalDigits n)) = n := by
  rw [digitsValue_ofAscii fun _ => isDigit_of_mem_decimalDigits]
  exact Nat.ofDigitChars_ten_toDigits

theorem isDigit_ofAscii (n : Nat) : ∀ b ∈ Bytes.ofAscii (decimalDigits n), isDigit b := by
  intro b member
  obtain ⟨c, digit, rfl⟩ := List.mem_map.1 member
  exact isDigit_of_char (isDigit_of_mem_decimalDigits digit)

/-- A zero with a digit after it is neither zero, which has one digit, nor any other number. -/
theorem ofAscii_decimalDigits_ne (n : Nat) (b : UInt8) (rest : Bytes) :
    Bytes.ofAscii (decimalDigits n) ≠ 0x30 :: b :: rest := by
  intro leading
  rcases n.eq_zero_or_pos with rfl | positive
  · simp [Bytes.ofAscii, decimalDigits] at leading
  · refine absurd ?_ (head?_decimalDigits positive)
    cases same : decimalDigits n with
    | nil => simp [same, Bytes.ofAscii] at leading
    | cons c chars =>
        have member : c ∈ decimalDigits n := by simp [same]
        obtain ⟨-, most⟩ := toNat_of_isDigit (isDigit_of_mem_decimalDigits member)
        rw [same] at leading
        have zero : c.toNat.toUInt8 = 0x30 := (List.cons.inj leading).1
        have first : c.toNat = '0'.toNat := by
          rw [← Bytes.toNat_toUInt8 (show c.toNat < 0x100 by omega), zero]
          rfl
        rw [List.head?_cons, Char.toNat_inj.1 first]

theorem wholeDigits_decimalDigits (n : Nat) :
    Numeral.wholeDigits (Bytes.ofAscii (decimalDigits n)) =
      .ok (Bytes.ofAscii (decimalDigits n), []) := by
  have nonempty : Bytes.ofAscii (decimalDigits n) ≠ [] := by
    simp [Bytes.ofAscii, decimalDigits, Nat.toDigits_ne_nil]
  have found : Numeral.digits (Bytes.ofAscii (decimalDigits n)) =
      .ok (Bytes.ofAscii (decimalDigits n), []) :=
    Numeral.digits_eq_ok_iff.2
      ⟨List.takeWhile_eq_self_iff.2 (isDigit_ofAscii n),
        List.dropWhile_eq_nil_iff.2 (isDigit_ofAscii n), nonempty⟩
  exact Numeral.wholeDigits_eq_ok_iff.2 ⟨found, ofAscii_decimalDigits_ne n⟩

theorem unsigned_decimalDigits (negative : Bool) (n : Nat) :
    Numeral.unsigned negative (Bytes.ofAscii (decimalDigits n)) =
      .ok (⟨negative, Bytes.ofAscii (decimalDigits n), none, none⟩, []) := by
  simp [Numeral.unsigned, wholeDigits_decimalDigits, Numeral.fractionDigits,
    Numeral.exponentDigits, Bind.bind, Except.bind]

theorem scan_decimalDigits (n : Nat) :
    Numeral.scan (Bytes.ofAscii (decimalDigits n)) =
      .ok (⟨false, Bytes.ofAscii (decimalDigits n), none, none⟩, []) := by
  unfold Numeral.scan
  split
  · next rest same =>
    have sign : isDigit 0x2d := isDigit_ofAscii n 0x2d (by simp [same])
    cases sign
  · exact unsigned_decimalDigits false n

theorem number_of_integer {bytes : Bytes} {numeral : Numeral} {n : Integer}
    (scanned : Numeral.scan bytes = .ok (numeral, [])) (integer : numeral.integer? = some n) :
    number bytes = .ok (.int n, []) :=
  number_eq_ok_iff.2 ⟨numeral, scanned, by simp only [Numeral.value?, integer]⟩

theorem number_integerText (n : Integer) :
    number (Bytes.ofAscii (integerText n.val)) = .ok (.int n, []) := by
  have inRange : Integer.ofInt? n.val = some n := dif_pos ⟨n.least_le, n.lt_bound⟩
  unfold integerText
  split
  · next negative =>
    have nonzero : n.val.natAbs ≠ 0 := by omega
    have same : -(n.val.natAbs : Int) = n.val := by omega
    refine number_of_integer (unsigned_decimalDigits true n.val.natAbs) ?_
    simp only [Numeral.integer?, digitsValue_decimalDigits, if_true]
    rw [if_neg nonzero, same, inRange]
  · next positive =>
    have same : (n.val.natAbs : Int) = n.val := by omega
    refine number_of_integer (scan_decimalDigits n.val.natAbs) ?_
    simp only [Numeral.integer?, digitsValue_decimalDigits, Bool.false_eq_true, if_false]
    rw [same, inRange]

/-- The digits after `\u` for a control character, and the character that is made of them. -/
theorem hexValue?_hexDigit {b : UInt8} (control : b < 0x20) :
    hexValue? [hexDigit (b.toNat % 16), hexDigit (b.toNat / 16), 0x30, 0x30] = some b.toNat ∧
      codePointBytes b.toNat = [b] := by
  revert b
  decide +kernel

/-- Reading an escaped byte adds the byte. -/
theorem scanText_escapeByte (b : UInt8) (done rest : Bytes) :
    scanText false .plain done (escapeByte b ++ rest) = scanText false .plain (b :: done) rest := by
  unfold escapeByte
  split_ifs with quote backslash backspace feed line ret tab control
  iterate 7
    · subst_vars
      simp [scanText, TextState.step, escapedByte?]
  · obtain ⟨value, encoded⟩ := hexValue?_hexDigit control
    have small : b.toNat < 0x20 := UInt8.lt_iff_toNat_lt.1 control
    have added : unicodeEscape none b.toNat = some (.plain, [b]) := by
      rw [unicodeEscape, if_neg (by omega), if_neg (by omega), encoded]
    simp [scanText, TextState.step, value, added]
  · simp [scanText, TextState.step, quote, backslash, control]

theorem scanText_flatMap_escapeByte (content done rest : Bytes) :
    scanText false .plain done (content.flatMap escapeByte ++ 0x22 :: rest) =
      .ok (done.reverse ++ content, rest) := by
  induction content generalizing done with
  | nil => simp [scanText]
  | cons b content ih =>
      rw [List.flatMap_cons, List.append_assoc, scanText_escapeByte, ih]
      simp

theorem text_escaped (s : String) :
    text ((Bytes.ofString s).flatMap escapeByte ++ [0x22]) = .ok (s, []) :=
  text_eq_ok_iff.2 ⟨_, scanText_flatMap_escapeByte _ [] [], Bytes.toString?_ofString s⟩

/-- What is written of the double is read as the double. -/
def ReadsBack (d : Double) : Prop :=
  number (Bytes.ofAscii (numberLayout.text d)) = .ok (.double d, [])

instance : DecidablePred ReadsBack := fun d =>
  inferInstanceAs (Decidable (number (Bytes.ofAscii (numberLayout.text d)) = .ok (.double d, [])))

/-- Nothing but blanks is put between the tokens. -/
structure Style.IsBlank (style : Style) : Prop where
  lineBreak : ∀ level, Blank (style.lineBreak level)
  afterColon : Blank style.afterColon

theorem Style.isBlank_compact : Style.compact.IsBlank where
  lineBreak _ := blank_nil
  afterColon := blank_nil

theorem Style.isBlank_pretty : Style.pretty.IsBlank where
  lineBreak level := by
    refine List.forall_mem_cons.2 ⟨rfl, fun b member => ?_⟩
    rw [List.eq_of_mem_replicate member]
    rfl
  afterColon := by simp [Style.pretty, Blank, isBlank]

theorem separates_comma (first : Bool) : Separates first (if first then [] else [0x2c]) := by
  cases first
  · exact .comma blank_nil
  · exact .start

section

variable {style : Style} (blank : style.IsBlank)

include blank

mutual

theorem spells_write {value : Value} (readsBack : ∀ d ∈ value.doubles, ReadsBack d)
    (level : Nat) : Spells value (write style level value) := by
  cases value with
  | null => exact .null
  | bool b => cases b <;> constructor
  | int n => exact .int (number_integerText n)
  | double d => exact .double (readsBack d (List.mem_singleton_self d))
  | string s => exact .string (text_escaped s)
  | array items =>
      cases items with
      | nil => exact .array (.nil blank_nil)
      | cons item rest =>
          have spelled := spellsItems_writeItems true readsBack (level + 1) (blank.lineBreak level)
          rw [write, List.append_assoc]
          · exact .array spelled
          · simp
  | object members =>
      cases members with
      | nil => exact .object (.nil blank_nil)
      | cons entry rest =>
          have spelled :=
            spellsMembers_writeMembers true readsBack (level + 1) (blank.lineBreak level)
          rw [write, List.append_assoc]
          · exact .object spelled
          · simp

theorem spellsItems_writeItems (first : Bool) {items : List Value}
    (readsBack : ∀ d ∈ Value.doublesItems items, ReadsBack d) (level : Nat) {closing : Bytes}
    (blank' : Blank closing) :
    SpellsItems first items (writeItems style level first items ++ (closing ++ [0x5d])) := by
  cases items with
  | nil => exact .nil blank'
  | cons item rest =>
      obtain ⟨here, there⟩ := List.forall_mem_append.1 readsBack
      have spelled := SpellsItems.cons (separates_comma first) (blank.lineBreak level)
        (spells_write here level) (spellsItems_writeItems false there level blank')
      simpa only [writeItems, List.append_assoc] using spelled

theorem spellsMembers_writeMembers (first : Bool) {members : List (String × Value)}
    (readsBack : ∀ d ∈ Value.doublesMembers members, ReadsBack d) (level : Nat) {closing : Bytes}
    (blank' : Blank closing) :
    SpellsMembers first members
      (writeMembers style level first members ++ (closing ++ [0x7d])) := by
  cases members with
  | nil => exact .nil blank'
  | cons entry rest =>
      obtain ⟨name, value⟩ := entry
      obtain ⟨here, there⟩ := List.forall_mem_append.1 readsBack
      have spelled := SpellsMembers.cons (separates_comma first) (blank.lineBreak level)
        (text_escaped name) blank_nil blank.afterColon (spells_write here level)
        (spellsMembers_writeMembers false there level blank')
      simpa only [writeMembers, writeText, List.append_assoc, List.cons_append, List.nil_append]
        using spelled

end

end

end Json

end Dataflow

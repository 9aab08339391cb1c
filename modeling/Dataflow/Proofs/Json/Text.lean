import Dataflow.Proofs.Json.Writing

/-! # What is written is text

Escapes only concern ASCII bytes, so the bytes of every other character stay together. Main
statement: what is written is well-formed UTF-8.
-/

namespace Dataflow

namespace Bytes

/-- The bytes are the UTF-8 of a text. -/
def IsText (bytes : Bytes) : Prop := ∃ text, bytes = ofString text

theorem isText_flatMap (chars : List Char) : IsText (chars.flatMap String.utf8EncodeChar) :=
  ⟨String.ofList chars, by simp [ofString, List.utf8Encode]⟩

theorem ofString_eq_flatMap (s : String) :
    ofString s = s.toList.flatMap String.utf8EncodeChar := by
  rw [ofString, ← String.utf8Encode_toList]
  simp [List.utf8Encode]

theorem isText_nil : IsText [] := isText_flatMap []

theorem IsText.append {a b : Bytes} (left : IsText a) (right : IsText b) : IsText (a ++ b) := by
  obtain ⟨s, rfl⟩ := left
  obtain ⟨t, rfl⟩ := right
  exact ⟨s ++ t, by simp [ofString]⟩

theorem utf8EncodeChar_of_ascii {b : UInt8} (ascii : b < 0x80) :
    String.utf8EncodeChar (Char.ofNat b.toNat) = [b] := by
  revert b
  decide +kernel

theorem isText_of_ascii {bytes : Bytes} (ascii : ∀ b ∈ bytes, b < 0x80) : IsText bytes := by
  induction bytes with
  | nil => exact isText_nil
  | cons b bytes ih =>
      obtain ⟨first, later⟩ := List.forall_mem_cons.1 ascii
      have here := isText_flatMap [Char.ofNat b.toNat]
      rw [List.flatMap_cons, utf8EncodeChar_of_ascii first] at here
      exact here.append (ih later)

theorem isText_byte {b : UInt8} (ascii : b < 0x80) : IsText [b] :=
  isText_of_ascii fun _ member => List.mem_singleton.1 member ▸ ascii

def Ascii (chars : List Char) : Prop := ∀ c ∈ chars, c.toNat < 0x80

theorem ascii_nil : Ascii [] := List.forall_mem_nil _

theorem ascii_cons {c : Char} {chars : List Char} :
    Ascii (c :: chars) ↔ c.toNat < 0x80 ∧ Ascii chars := List.forall_mem_cons

theorem ascii_append {a b : List Char} : Ascii (a ++ b) ↔ Ascii a ∧ Ascii b :=
  List.forall_mem_append

theorem isText_ofAscii {chars : List Char} (ascii : Ascii chars) :
    IsText (ofAscii chars) := by
  refine isText_of_ascii fun b member => ?_
  obtain ⟨c, inside, rfl⟩ := List.mem_map.1 member
  have small := ascii c inside
  rwa [UInt8.lt_iff_toNat_lt, toNat_toUInt8 (small.trans (by decide))]

/-- A character is one ASCII byte, or bytes none of which is ASCII. -/
theorem utf8EncodeChar_cases (c : Char) :
    (∃ b, b < 0x80 ∧ b.toNat = c.toNat ∧ String.utf8EncodeChar c = [b]) ∨
      0x80 ≤ c.toNat ∧ ∀ b ∈ String.utf8EncodeChar c, 0x80 ≤ b := by
  rw [String.utf8EncodeChar]
  split
  · next ascii =>
    refine .inl ⟨_, ?_, ?_, rfl⟩
    · simp only [UInt8.lt_iff_toNat_lt, UInt8.toNat_ofNat', UInt8.reduceToNat]
      omega
    · simp only [UInt8.toNat_ofNat', Char.toNat]
      omega
  · next wide =>
    refine .inr ⟨?_, fun b member => ?_⟩
    · simp only [Char.toNat]
      omega
    split at member
    all_goals try split at member
    all_goals
      simp only [List.mem_cons, List.not_mem_nil, or_false] at member
      rcases member with rfl | rfl | rfl | rfl
      all_goals
        simp only [UInt8.le_iff_toNat_le, UInt8.toNat_ofNat', UInt8.reduceToNat]
        omega

end Bytes

namespace Json

theorem escapeByte_ascii {b : UInt8} (ascii : b < 0x80) : ∀ x ∈ escapeByte b, x < 0x80 := by
  have all : ∀ b : UInt8, b < 0x80 → (escapeByte b).all (· < 0x80) := by decide +kernel
  simpa using all b ascii

theorem escapeByte_of_not_ascii {b : UInt8} (high : 0x80 ≤ b) : escapeByte b = [b] := by
  revert b
  decide +kernel

theorem isText_escaped (s : String) :
    Bytes.IsText ((Bytes.ofString s).flatMap escapeByte) := by
  rw [Bytes.ofString_eq_flatMap, List.flatMap_assoc]
  induction s.toList with
  | nil => exact Bytes.isText_nil
  | cons c chars ih =>
      refine Bytes.IsText.append ?_ ih
      obtain ⟨b, ascii, -, single⟩ | ⟨-, high⟩ := Bytes.utf8EncodeChar_cases c
      · simp only [single, List.flatMap_singleton]
        exact Bytes.isText_of_ascii (escapeByte_ascii ascii)
      · have same := Bytes.isText_flatMap [c]
        rw [List.flatMap_singleton] at same
        have unescaped : (String.utf8EncodeChar c).flatMap escapeByte = String.utf8EncodeChar c :=
          (List.flatMap_congr fun b member => escapeByte_of_not_ascii (high b member)).trans
            (List.flatMap_singleton' _)
        simpa only [unescaped] using same

theorem isText_writeText (s : String) : Bytes.IsText (writeText s) := by
  have quote : Bytes.IsText [0x22] := Bytes.isText_byte (by decide)
  exact quote.append ((isText_escaped s).append quote)

theorem ascii_decimalDigits (n : Nat) : Bytes.Ascii (decimalDigits n) := by
  intro c member
  have := toNat_of_isDigit (isDigit_of_mem_decimalDigits member)
  omega

theorem ascii_integerText (n : Int) : Bytes.Ascii (integerText n) := by
  unfold integerText
  split
  · exact Bytes.ascii_cons.2 ⟨by decide, ascii_decimalDigits _⟩
  · exact ascii_decimalDigits _

theorem ascii_zeros (count : Nat) : Bytes.Ascii (List.replicate count '0') := by
  intro c member
  rw [List.eq_of_mem_replicate member]
  decide

theorem ascii_positional {digits : List Char} (ascii : Bytes.Ascii digits) (exponent : Int) :
    Bytes.Ascii (NumberLayout.positional digits exponent) := by
  have taken (count : Nat) : Bytes.Ascii (digits.take count) :=
    fun c member => ascii c (List.mem_of_mem_take member)
  have dropped (count : Nat) : Bytes.Ascii (digits.drop count) :=
    fun c member => ascii c (List.mem_of_mem_drop member)
  unfold NumberLayout.positional
  dsimp only
  split
  · simp [Bytes.ascii_append, Bytes.ascii_cons, Bytes.ascii_nil, ascii, ascii_zeros]
  split
  · simp [Bytes.ascii_append, Bytes.ascii_cons, taken, dropped]
  · simp [Bytes.ascii_append, Bytes.ascii_cons, ascii, ascii_zeros]

theorem ascii_scientific {digits : List Char} (ascii : Bytes.Ascii digits) (exponent : Int) :
    Bytes.Ascii (NumberLayout.scientific digits exponent) := by
  have sign : (if exponent < 0 then '-' else '+').toNat < 0x80 := by split <;> decide
  unfold NumberLayout.scientific
  dsimp only
  refine Bytes.ascii_append.2 ⟨?_, Bytes.ascii_cons.2 ⟨by decide,
    Bytes.ascii_cons.2 ⟨sign, ascii_decimalDigits _⟩⟩⟩
  split
  · exact ascii
  · exact ascii
  · obtain ⟨first, rest⟩ := Bytes.ascii_cons.1 ascii
    exact Bytes.ascii_cons.2 ⟨first, Bytes.ascii_cons.2 ⟨by decide, rest⟩⟩

theorem ascii_layout (layout : NumberLayout) (d : Double) : Bytes.Ascii (layout.text d) := by
  have digits := ascii_decimalDigits (d.shortest layout.tie).digits
  have body (exponent leading : Int) : Bytes.Ascii
      (if layout.inPlace leading then
        NumberLayout.positional (decimalDigits (d.shortest layout.tie).digits) exponent
      else NumberLayout.scientific (decimalDigits (d.shortest layout.tie).digits) leading) := by
    split
    · exact ascii_positional digits exponent
    · exact ascii_scientific digits leading
  unfold NumberLayout.text
  dsimp only
  split
  · exact Bytes.ascii_cons.2 ⟨by decide, body _ _⟩
  · exact body _ _

section

variable {style : Style} (blank : style.IsBlank)

theorem isText_of_blank {bytes : Bytes} (blank : Blank bytes) : Bytes.IsText bytes := by
  have ascii : ∀ b : UInt8, isBlank b → b < 0x80 := by decide +kernel
  exact Bytes.isText_of_ascii fun b member => ascii b (blank b member)

theorem isText_comma (first : Bool) : Bytes.IsText (if first then [] else [0x2c]) := by
  cases first
  · exact Bytes.isText_byte (by decide)
  · exact Bytes.isText_nil

include blank

mutual

theorem isText_write (value : Value) (level : Nat) : Bytes.IsText (write style level value) := by
  cases value with
  | null => exact Bytes.isText_ofAscii (by simp [Bytes.Ascii])
  | bool b => cases b <;> exact Bytes.isText_ofAscii (by simp [Bytes.Ascii])
  | int n => exact Bytes.isText_ofAscii (ascii_integerText n.val)
  | double d => exact Bytes.isText_ofAscii (ascii_layout numberLayout d)
  | string s => exact isText_writeText s
  | array items =>
      cases items with
      | nil => exact (Bytes.isText_byte (by decide)).append (Bytes.isText_byte (by decide))
      | cons item rest =>
          have opening : Bytes.IsText [0x5b] := Bytes.isText_byte (by decide)
          have closing : Bytes.IsText [0x5d] := Bytes.isText_byte (by decide)
          exact ((opening.append (isText_writeItems true (item :: rest) (level + 1))).append
            (isText_of_blank (blank.lineBreak level))).append closing
  | object members =>
      cases members with
      | nil => exact (Bytes.isText_byte (by decide)).append (Bytes.isText_byte (by decide))
      | cons entry rest =>
          have opening : Bytes.IsText [0x7b] := Bytes.isText_byte (by decide)
          have closing : Bytes.IsText [0x7d] := Bytes.isText_byte (by decide)
          exact ((opening.append (isText_writeMembers true (entry :: rest) (level + 1))).append
            (isText_of_blank (blank.lineBreak level))).append closing

theorem isText_writeItems (first : Bool) (items : List Value) (level : Nat) :
    Bytes.IsText (writeItems style level first items) := by
  cases items with
  | nil => exact Bytes.isText_nil
  | cons item rest =>
      exact (((isText_comma first).append (isText_of_blank (blank.lineBreak level))).append
        (isText_write item level)).append (isText_writeItems false rest level)

theorem isText_writeMembers (first : Bool) (members : List (String × Value)) (level : Nat) :
    Bytes.IsText (writeMembers style level first members) := by
  cases members with
  | nil => exact Bytes.isText_nil
  | cons entry rest =>
      obtain ⟨name, value⟩ := entry
      have colon : Bytes.IsText [0x3a] := Bytes.isText_byte (by decide)
      exact ((((((isText_comma first).append (isText_of_blank (blank.lineBreak level))).append
        (isText_writeText name)).append colon).append
        (isText_of_blank blank.afterColon)).append (isText_write value level)).append
        (isText_writeMembers false rest level)

end

end

end Json

end Dataflow

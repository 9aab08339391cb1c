/-! # Bytes

Documents are lists of bytes. Text travels as UTF-8, and numbers of a fixed width travel with
their most significant byte first.
-/

namespace Dataflow

/-- The bytes of a document, first byte first. -/
abbrev Bytes := List UInt8

namespace Bytes

def ofString (text : String) : Bytes := text.toByteArray.data.toList

/-- The text that the bytes spell, if they are well-formed UTF-8. -/
def toString? (bytes : Bytes) : Option String := String.fromUTF8? ⟨bytes.toArray⟩

/-- One byte for each character of an ASCII text. -/
def ofAscii (chars : List Char) : Bytes := chars.map fun c => c.toNat.toUInt8

/-- The lowest `count` bytes of a number, most significant first. -/
def bigEndian : (count : Nat) → Nat → Bytes
  | 0, _ => []
  | count + 1, n => bigEndian count (n / 256) ++ [n.toUInt8]

/-- The number that bytes spell when the most significant one comes first. -/
def bigEndianValue (bytes : Bytes) : Nat :=
  bytes.foldl (fun n b => n * 256 + b.toNat) 0

theorem toString?_ofString (text : String) : toString? (ofString text) = some text :=
  dif_pos text.isValidUTF8

theorem length_bigEndian (count n : Nat) : (bigEndian count n).length = count := by
  induction count generalizing n with
  | zero => rfl
  | succ count ih => simp [bigEndian, ih]

theorem bigEndianValue_append (bytes : Bytes) (b : UInt8) :
    bigEndianValue (bytes ++ [b]) = bigEndianValue bytes * 256 + b.toNat := by
  simp [bigEndianValue]

theorem bigEndianValue_bigEndian {count n : Nat} (h : n < Nat.pow 256 count) :
    bigEndianValue (bigEndian count n) = n := by
  induction count generalizing n with
  | zero =>
    have : n = 0 := by simpa using h
    simp [bigEndian, bigEndianValue, this]
  | succ count ih =>
    have high : n / 256 < Nat.pow 256 count := Nat.div_lt_of_lt_mul (by rwa [Nat.mul_comm])
    rw [bigEndian, bigEndianValue_append, ih high]
    simp only [Nat.toUInt8_eq, UInt8.toNat_ofNat']
    omega

end Bytes

end Dataflow

import Dataflow.Proofs.Extending
import Dataflow.MessagePack.Reader
import Dataflow.MessagePack.Writer

/-! # Heads of MessagePack values

A content or number of a given width is read back, and nothing after it is looked at.
-/

namespace Dataflow.MessagePack

theorem extends_takeBytes (count : Nat) : Extends (takeBytes count) := by
  intro bytes content left taken rest _
  simp only [takeBytes] at taken ⊢
  split at taken
  · next length =>
    cases taken
    have inside : count ≤ bytes.length := by
      rw [List.length_take] at length
      omega
    rw [List.take_append_of_le_length inside, List.drop_append_of_le_length inside, if_pos length]
  · cases taken

theorem extends_takeNat (width : Nat) : Extends (takeNat width) :=
  (extends_takeBytes width).bind fun _ => .ok _

theorem extends_numberHead (width : Nat) (f : Nat → Head) : Extends (numberHead width f) :=
  (extends_takeNat width).bind fun _ => .ok _

theorem extends_contentHead (size : Nat) (f : Bytes → Head) : Extends (contentHead size f) :=
  (extends_takeBytes size).bind fun _ => .ok _

theorem extends_sizedHead (width : Nat) (f : Bytes → Head) : Extends (sizedHead width f) :=
  (extends_takeNat width).bind fun size => extends_contentHead size f

theorem extends_headOf (marker : UInt8) : Extends (headOf marker) := by
  intro bytes h left ok rest _
  unfold headOf at ok ⊢
  dsimp only at ok ⊢
  generalize marker.toNat = m at ok ⊢
  by_cases positive : m < 0x80
  · rw [if_pos positive] at ok ⊢
    cases ok
    rfl
  rw [if_neg positive] at ok ⊢
  by_cases isMap : m < 0x90
  · rw [if_pos isMap] at ok ⊢
    cases ok
    rfl
  rw [if_neg isMap] at ok ⊢
  by_cases isList : m < 0xa0
  · rw [if_pos isList] at ok ⊢
    cases ok
    rfl
  rw [if_neg isList] at ok ⊢
  by_cases isText : m < 0xc0
  · rw [if_pos isText] at ok ⊢
    exact extends_contentHead _ _ _ _ _ ok rest trivial
  rw [if_neg isText] at ok ⊢
  split at ok
  all_goals first
    | exact extends_numberHead _ _ _ _ _ ok rest trivial
    | exact extends_sizedHead _ _ _ _ _ ok rest trivial
    | (cases ok; rfl)
    | cases ok

theorem extends_head : Extends head := by
  intro bytes h left ok rest _
  cases bytes with
  | nil => cases ok
  | cons marker bytes => exact extends_headOf marker bytes h left ok rest trivial

theorem head_append {h : Head} {bytes : Bytes} (ok : head bytes = .ok (h, [])) (rest : Bytes) :
    head (bytes ++ rest) = .ok (h, rest) :=
  extends_head bytes h [] ok rest trivial

theorem head_alone {h : Head} {bytes : Bytes}
    (ok : ∀ rest, head (bytes ++ rest) = .ok (h, rest)) : head bytes = .ok (h, []) := by
  have alone := ok []
  rwa [List.append_nil] at alone

theorem takeBytes_append {content rest : Bytes} {count : Nat} (length : content.length = count) :
    takeBytes count (content ++ rest) = .ok (content, rest) := by
  simp [takeBytes, ← length]

theorem takeNat_bigEndian {width n : Nat} (small : n < Nat.pow 256 width) (rest : Bytes) :
    takeNat width (Bytes.bigEndian width n ++ rest) = .ok (n, rest) := by
  rw [takeNat, takeBytes_append (Bytes.length_bigEndian width n)]
  simp only [Bind.bind, Except.bind, Bytes.bigEndianValue_bigEndian small]

theorem numberHead_bigEndian {width n : Nat} (small : n < Nat.pow 256 width) (f : Nat → Head)
    (rest : Bytes) :
    numberHead width f (Bytes.bigEndian width n ++ rest) = .ok (f n, rest) := by
  rw [numberHead, takeNat_bigEndian small]
  rfl

theorem contentHead_append (content : Bytes) (f : Bytes → Head) (rest : Bytes) :
    contentHead content.length f (content ++ rest) = .ok (f content, rest) := by
  rw [contentHead, takeBytes_append rfl]
  rfl

theorem sizedHead_append {width : Nat} {content : Bytes}
    (small : content.length < Nat.pow 256 width) (f : Bytes → Head) (rest : Bytes) :
    sizedHead width f (Bytes.bigEndian width content.length ++ (content ++ rest)) =
      .ok (f content, rest) := by
  rw [sizedHead, takeNat_bigEndian small]
  exact contentHead_append content f rest

theorem Binary64.ofBits_toBits (d : Double) : Binary64.ofBits d.toBits = .finite d := by
  obtain ⟨negative, magnitude, small⟩ := d
  have bound : magnitude < 0x8000000000000000 := small.trans (by decide)
  cases negative
  · simp only [Binary64.ofBits, Double.toBits, Bool.false_eq_true, if_false, Nat.zero_add,
      Nat.mod_eq_of_lt bound]
    rw [dif_pos small]
    simp [bound]
  · simp only [Binary64.ofBits, Double.toBits, if_true, Nat.add_mod_left, Nat.mod_eq_of_lt bound]
    rw [dif_pos small]
    simp

theorem head_double (d : Double) (rest : Bytes) :
    head (0xcb :: Bytes.bigEndian 8 d.toBits ++ rest) = .ok (.float (.finite d), rest) := by
  have small : d.toBits < Nat.pow 256 8 := by
    have bound : d.magnitude < 0x8000000000000000 := d.magnitude_lt.trans (by decide)
    unfold Double.toBits
    split <;> simp <;> omega
  rw [← Binary64.ofBits_toBits]
  exact numberHead_bigEndian small (fun bits => .float (Binary64.ofBits bits)) rest

/-- The integer that a head holds. -/
def Head.integer? : Head → Option Integer
  | unsigned n => some (.ofUInt64 n)
  | signed n => some (.ofInt64 n)
  | _ => none

theorem integer?_unsigned {n : Integer} (positive : 0 ≤ n.val) :
    (Head.unsigned n.val.toNat.toUInt64).integer? = some n := by
  have small : n.val.toNat < UInt64.size := by
    have := n.lt_bound
    simp only [UInt64.size]
    omega
  obtain ⟨n, least, bound⟩ := n
  simp only [Head.integer?, Integer.ofUInt64, Nat.toUInt64_eq, UInt64.toNat_ofNat_of_lt' small]
  simp only [Option.some.injEq, Integer.mk.injEq]
  exact Int.toNat_of_nonneg positive

/-- Numbers that fit the width are read back from their two's complement. -/
theorem signedValue_emod {width : Nat} {n : Int} (least : -(Nat.pow 256 width / 2 : Nat) ≤ n)
    (bound : n < (Nat.pow 256 width / 2 : Nat)) :
    signedValue width (n % Nat.pow 256 width).toNat = .ofInt n := by
  have positive : (0 : Int) < Nat.pow 256 width := by
    exact_mod_cast Nat.pow_pos (by decide : 0 < 256)
  have nonneg : 0 ≤ n % (Nat.pow 256 width : Int) := Int.emod_nonneg n positive.ne'
  rw [signedValue, Int.toNat_of_nonneg nonneg, Int.emod_bmod, Int.bmod_eq_of_le]
  · omega
  · omega

theorem integer?_signed {n : Integer} (bound : n.val < 0x8000000000000000) :
    (Head.signed (.ofInt n.val)).integer? = some n := by
  obtain ⟨n, least, _⟩ := n
  simp only [Head.integer?, Integer.ofInt64, Option.some.injEq, Integer.mk.injEq]
  exact Int64.toInt_ofInt_of_le least bound

/-- The last markers hold a small negative number themselves. -/
theorem headOf_negative {marker : UInt8} (last : 0xe0 ≤ marker.toNat) (rest : Bytes) :
    headOf marker rest = .ok (.signed (signedValue 1 marker.toNat), rest) := by
  unfold headOf
  dsimp only
  generalize marker.toNat = m at last ⊢
  rw [if_neg (by omega), if_neg (by omega), if_neg (by omega), if_neg (by omega)]
  split <;> first | omega | rfl

theorem numberHead_eq_ok {width : Nat} {f : Nat → Head} {bytes left : Bytes} {h : Head}
    (ok : numberHead width f bytes = .ok (h, left)) : ∃ n, h = f n := by
  obtain ⟨⟨n, rest⟩, -, same⟩ := Except.bind_eq_ok_iff.1 ok
  cases same
  exact ⟨n, rfl⟩

theorem contentHead_eq_ok {size : Nat} {f : Bytes → Head} {bytes left : Bytes} {h : Head}
    (ok : contentHead size f bytes = .ok (h, left)) : ∃ content, h = f content := by
  obtain ⟨⟨content, rest⟩, -, same⟩ := Except.bind_eq_ok_iff.1 ok
  cases same
  exact ⟨content, rfl⟩

theorem sizedHead_eq_ok {width : Nat} {f : Bytes → Head} {bytes left : Bytes} {h : Head}
    (ok : sizedHead width f bytes = .ok (h, left)) : ∃ content, h = f content := by
  obtain ⟨_, -, read⟩ := Except.bind_eq_ok_iff.1 ok
  exact contentHead_eq_ok read

/-- Integers have the markers of scalars. -/
theorem isScalarMarker_of_integer {marker : UInt8} {bytes left : Bytes} {h : Head} {n : Integer}
    (ok : headOf marker bytes = .ok (h, left)) (integer : h.integer? = some n) :
    isScalarMarker marker := by
  have scalar : isScalarMarker marker ↔ marker.toNat < 0x80 ∨ marker.toNat = 0xc0 ∨
      marker.toNat = 0xc2 ∨ marker.toNat = 0xc3 ∨ 0xca ≤ marker.toNat ∧ marker.toNat ≤ 0xd3 ∨
      0xe0 ≤ marker.toNat := by
    simp [isScalarMarker, ← UInt8.toNat_inj, UInt8.lt_iff_toNat_lt, UInt8.le_iff_toNat_le, or_assoc]
  rw [scalar]
  unfold headOf at ok
  dsimp only at ok
  generalize marker.toNat = m at ok ⊢
  split at ok
  · next positive => exact .inl positive
  split at ok
  · cases ok
    cases integer
  split at ok
  · cases ok
    cases integer
  split at ok
  · obtain ⟨content, rfl⟩ := contentHead_eq_ok ok
    cases integer
  split at ok
  all_goals first
    | omega
    | (with_reducible have found := sizedHead_eq_ok ok)
      obtain ⟨content, rfl⟩ := found
      cases integer
    | (with_reducible have found := numberHead_eq_ok ok)
      obtain ⟨content, rfl⟩ := found
      cases integer
    | grind [Head.integer?]

end Dataflow.MessagePack

import Dataflow.Proofs.MessagePack.Heads

/-! # Markers wide enough

A length or an integer may stand behind every marker that has bytes enough for it. Main statements:
each of these heads is read back, and what is written is one of them.
-/

namespace Dataflow.MessagePack

/-- The markers for the length of one kind of value. Some hold a length below `limit` themselves,
    from the marker `first` on, and some have it behind them in so many bytes. -/
structure Markers where
  first : Nat
  limit : Nat
  wide : List (UInt8 × Nat)

namespace Markers

def text : Markers := ⟨0xa0, 32, [(0xd9, 1), (0xda, 2), (0xdb, 4)]⟩

def bytes : Markers := ⟨0, 0, [(0xc4, 1), (0xc5, 2), (0xc6, 4)]⟩

def list : Markers := ⟨0x90, 16, [(0xdc, 2), (0xdd, 4)]⟩

def map : Markers := ⟨0x80, 16, [(0xde, 2), (0xdf, 4)]⟩

def extension : Markers := ⟨0, 0, [(0xc7, 1), (0xc8, 2), (0xc9, 4)]⟩

/-- The length behind, or in, a marker wide enough for it. -/
inductive Opens (markers : Markers) (length : Nat) : Bytes → Prop where
  | short : length < markers.limit → Opens markers length [(markers.first + length).toUInt8]
  | wide {marker : UInt8} {width : Nat} :
      (marker, width) ∈ markers.wide → length < Nat.pow 256 width →
      Opens markers length (marker :: Bytes.bigEndian width length)

end Markers

theorem head_text {content opening : Bytes} (opens : Markers.text.Opens content.length opening)
    (rest : Bytes) : head (opening ++ (content ++ rest)) = .ok (.text content, rest) := by
  cases opens with
  | short small =>
      have small : content.length < 32 := small
      have marker : (0xa0 + content.length).toUInt8.toNat = 0xa0 + content.length :=
        Bytes.toNat_toUInt8 (by omega)
      simp only [Markers.text, List.cons_append, List.nil_append, head, headOf, marker]
      rw [if_neg (by omega), if_neg (by omega), if_neg (by omega), if_pos (by omega),
        Nat.add_sub_cancel_left]
      exact contentHead_append content .text rest
  | wide member fits =>
      simp only [Markers.text, List.mem_cons, Prod.mk.injEq, List.not_mem_nil, or_false] at member
      obtain ⟨rfl, rfl⟩ | ⟨rfl, rfl⟩ | ⟨rfl, rfl⟩ := member
      all_goals exact sizedHead_append fits .text rest

theorem head_bytes {content opening : Bytes} (opens : Markers.bytes.Opens content.length opening)
    (rest : Bytes) : head (opening ++ (content ++ rest)) = .ok (.bytes content, rest) := by
  cases opens with
  | short small => cases small
  | wide member fits =>
      simp only [Markers.bytes, List.mem_cons, Prod.mk.injEq, List.not_mem_nil, or_false] at member
      obtain ⟨rfl, rfl⟩ | ⟨rfl, rfl⟩ | ⟨rfl, rfl⟩ := member
      all_goals exact sizedHead_append fits .bytes rest

theorem head_list {length : Nat} {opening : Bytes} (opens : Markers.list.Opens length opening)
    (rest : Bytes) : head (opening ++ rest) = .ok (.list length, rest) := by
  cases opens with
  | short small =>
      have small : length < 16 := small
      have marker : (0x90 + length).toUInt8.toNat = 0x90 + length :=
        Bytes.toNat_toUInt8 (by omega)
      simp only [Markers.list, List.cons_append, List.nil_append, head, headOf, marker]
      rw [if_neg (by omega), if_neg (by omega), if_pos (by omega), Nat.add_sub_cancel_left]
  | wide member fits =>
      simp only [Markers.list, List.mem_cons, Prod.mk.injEq, List.not_mem_nil, or_false] at member
      obtain ⟨rfl, rfl⟩ | ⟨rfl, rfl⟩ := member
      all_goals exact numberHead_bigEndian fits .list rest

theorem head_map {length : Nat} {opening : Bytes} (opens : Markers.map.Opens length opening)
    (rest : Bytes) : head (opening ++ rest) = .ok (.map length, rest) := by
  cases opens with
  | short small =>
      have small : length < 16 := small
      have marker : (0x80 + length).toUInt8.toNat = 0x80 + length :=
        Bytes.toNat_toUInt8 (by omega)
      simp only [Markers.map, List.cons_append, List.nil_append, head, headOf, marker]
      rw [if_neg (by omega), if_pos (by omega), Nat.add_sub_cancel_left]
  | wide member fits =>
      simp only [Markers.map, List.mem_cons, Prod.mk.injEq, List.not_mem_nil, or_false] at member
      obtain ⟨rfl, rfl⟩ | ⟨rfl, rfl⟩ := member
      all_goals exact numberHead_bigEndian fits .map rest

theorem head_extension {length : Nat} {opening : Bytes}
    (opens : Markers.extension.Opens length opening) (rest : Bytes) :
    head (opening ++ rest) = .ok (.extension length, rest) := by
  cases opens with
  | short small => cases small
  | wide member fits =>
      simp only [Markers.extension, List.mem_cons, Prod.mk.injEq, List.not_mem_nil, or_false]
        at member
      obtain ⟨rfl, rfl⟩ | ⟨rfl, rfl⟩ | ⟨rfl, rfl⟩ := member
      all_goals exact numberHead_bigEndian fits .extension rest

/-- The writer takes one of two wide markers that stand side by side. -/
theorem Markers.opens_wideLength {markers : Markers} {marker : UInt8} {length : Nat}
    (both : (marker, 2) ∈ markers.wide ∧ (marker + 1, 4) ∈ markers.wide)
    (small : length < 0x100000000) : markers.Opens length (wideLength marker length) := by
  unfold wideLength
  split
  · next fits => exact .wide both.1 fits
  · exact .wide both.2 small

theorem head_textHead {content : Bytes} (small : content.length < 0x100000000) (rest : Bytes) :
    head (textHead content.length ++ (content ++ rest)) = .ok (.text content, rest) := by
  apply head_text
  unfold textHead
  split
  · next short => exact .short short
  split
  · next fits => exact .wide (by simp [Markers.text]) fits
  · exact Markers.opens_wideLength (by simp [Markers.text]) small

theorem head_listHead {count : Nat} (small : count < 0x100000000) (rest : Bytes) :
    head (listHead count ++ rest) = .ok (.list count, rest) := by
  apply head_list
  unfold listHead
  split
  · next short => exact .short short
  · exact Markers.opens_wideLength (by simp [Markers.list]) small

theorem head_mapHead {count : Nat} (small : count < 0x100000000) (rest : Bytes) :
    head (mapHead count ++ rest) = .ok (.map count, rest) := by
  apply head_map
  unfold mapHead
  split
  · next short => exact .short short
  · exact Markers.opens_wideLength (by simp [Markers.map]) small

/-- The markers of integers without and with a sign, each with the width of the integer. -/
def unsignedMarkers : List (UInt8 × Nat) := [(0xcc, 1), (0xcd, 2), (0xce, 4), (0xcf, 8)]

def signedMarkers : List (UInt8 × Nat) := [(0xd0, 1), (0xd1, 2), (0xd2, 4), (0xd3, 8)]

/-- The integer in a marker, or behind one that is wide enough for it, with or without a sign. -/
inductive WritesInteger (n : Int) : Bytes → Prop where
  | small : 0 ≤ n → n < 0x80 → WritesInteger n [n.toNat.toUInt8]
  | smallNegative : -0x20 ≤ n → n < 0 → WritesInteger n [(n % Nat.pow 256 1).toNat.toUInt8]
  | unsigned {marker : UInt8} {width : Nat} :
      (marker, width) ∈ unsignedMarkers → 0 ≤ n → n < Nat.pow 256 width →
      WritesInteger n (marker :: Bytes.bigEndian width n.toNat)
  | signed {marker : UInt8} {width : Nat} :
      (marker, width) ∈ signedMarkers → -(Nat.pow 256 width / 2 : Nat) ≤ n →
      n < (Nat.pow 256 width / 2 : Nat) →
      WritesInteger n (marker :: Bytes.bigEndian width (n % Nat.pow 256 width).toNat)

theorem head_small {k : Nat} (small : k < 0x80) (rest : Bytes) :
    head (k.toUInt8 :: rest) = .ok (.unsigned k.toUInt64, rest) := by
  have marker : k.toUInt8.toNat = k := Bytes.toNat_toUInt8 (by omega)
  have same : k.toUInt8.toUInt64 = k.toUInt64 := by
    rw [← UInt64.toNat_inj, UInt8.toNat_toUInt64, marker]
    exact (UInt64.toNat_ofNat_of_lt' (small.trans (by decide))).symm
  simp only [head, headOf, marker, if_pos small, same]

theorem head_smallNegative {n : Int} (least : -0x20 ≤ n) (negative : n < 0) (rest : Bytes) :
    head ((n % Nat.pow 256 1).toNat.toUInt8 :: rest) = .ok (.signed (.ofInt n), rest) := by
  have power : (Nat.pow 256 1 : Nat) = 256 := rfl
  have marker : (n % Nat.pow 256 1).toNat.toUInt8.toNat = (n % Nat.pow 256 1).toNat :=
    Bytes.toNat_toUInt8 (by rw [power]; omega)
  have last : 0xe0 ≤ (n % Nat.pow 256 1).toNat.toUInt8.toNat := by
    rw [marker, power]
    omega
  rw [head, headOf_negative last, marker, signedValue_emod]
  · rw [power]
    omega
  · rw [power]
    omega

/-- An integer is read back from any marker that is wide enough. -/
theorem head_integer {n : Integer} {bytes : Bytes} (written : WritesInteger n.val bytes)
    (rest : Bytes) : ∃ h, head (bytes ++ rest) = .ok (h, rest) ∧ h.integer? = some n := by
  cases written with
  | small nonneg small => exact ⟨_, head_small (by omega) rest, integer?_unsigned nonneg⟩
  | smallNegative least negative =>
      exact ⟨_, head_smallNegative least negative rest, integer?_signed (by omega)⟩
  | unsigned member nonneg fits =>
      have fits : n.val.toNat < Nat.pow 256 _ := (Int.toNat_lt nonneg).2 fits
      refine ⟨_, ?_, integer?_unsigned nonneg⟩
      simp only [unsignedMarkers, List.mem_cons, Prod.mk.injEq, List.not_mem_nil, or_false]
        at member
      obtain ⟨rfl, rfl⟩ | ⟨rfl, rfl⟩ | ⟨rfl, rfl⟩ | ⟨rfl, rfl⟩ := member
      all_goals exact numberHead_bigEndian fits (fun k => .unsigned k.toUInt64) rest
  | @signed marker width member least bound =>
      have positive : (0 : Int) < Nat.pow 256 width := by
        exact_mod_cast Nat.pow_pos (by decide : 0 < 256)
      have fits : (n.val % Nat.pow 256 width).toNat < Nat.pow 256 width := by
        have := Int.emod_lt_of_pos n.val positive
        have := Int.emod_nonneg n.val positive.ne'
        omega
      have inside : n.val < 0x8000000000000000 := by
        simp only [signedMarkers, List.mem_cons, Prod.mk.injEq, List.not_mem_nil, or_false]
          at member
        obtain ⟨-, rfl⟩ | ⟨-, rfl⟩ | ⟨-, rfl⟩ | ⟨-, rfl⟩ := member
        all_goals exact bound.trans_le (by decide)
      refine ⟨_, ?_, integer?_signed inside⟩
      rw [← signedValue_emod least bound]
      simp only [signedMarkers, List.mem_cons, Prod.mk.injEq, List.not_mem_nil, or_false]
        at member
      obtain ⟨rfl, rfl⟩ | ⟨rfl, rfl⟩ | ⟨rfl, rfl⟩ | ⟨rfl, rfl⟩ := member
      · exact numberHead_bigEndian fits (fun k => .signed (signedValue 1 k)) rest
      · exact numberHead_bigEndian fits (fun k => .signed (signedValue 2 k)) rest
      · exact numberHead_bigEndian fits (fun k => .signed (signedValue 4 k)) rest
      · exact numberHead_bigEndian fits (fun k => .signed (signedValue 8 k)) rest

theorem writesInteger_writeInteger (n : Integer) : WritesInteger n.val (writeInteger n.val) := by
  obtain ⟨n, least, bound⟩ := n
  unfold writeInteger
  split
  · next nonneg =>
    dsimp only
    have unsigned {marker : UInt8} {width : Nat} (member : (marker, width) ∈ unsignedMarkers)
        (fits : n.toNat < Nat.pow 256 width) :=
      WritesInteger.unsigned member nonneg ((Int.toNat_lt nonneg).1 fits)
    split
    · exact .small nonneg (by omega)
    split
    · next fits => exact unsigned (by simp [unsignedMarkers]) fits
    split
    · next fits => exact unsigned (by simp [unsignedMarkers]) fits
    split
    · next fits => exact unsigned (by simp [unsignedMarkers]) fits
    · refine unsigned (by simp [unsignedMarkers]) ?_
      change n.toNat < 0x10000000000000000
      omega
  · next negative =>
    have negative : n < 0 := not_le.1 negative
    dsimp only
    have complement {width : Nat} (fits : -(Nat.pow 256 width / 2 : Nat) ≤ n) :
        n + Nat.pow 256 width = n % Nat.pow 256 width := by
      rw [← Int.add_emod_right, Int.emod_eq_of_lt]
      · omega
      · omega
    have signed {marker : UInt8} {width : Nat} (member : (marker, width) ∈ signedMarkers)
        (fits : -(Nat.pow 256 width / 2 : Nat) ≤ n) :
        WritesInteger n (marker :: Bytes.bigEndian width (n + Nat.pow 256 width).toNat) := by
      rw [complement fits]
      exact .signed member fits (by omega)
    split
    · next small =>
      rw [complement (show -((Nat.pow 256 1 / 2 : Nat) : Int) ≤ n by change (-128 : Int) ≤ n; omega)]
      exact .smallNegative small negative
    split
    · next small => exact signed (by simp [signedMarkers]) small
    split
    · next small => exact signed (by simp [signedMarkers]) small
    split
    · next small => exact signed (by simp [signedMarkers]) small
    · exact signed (by simp [signedMarkers]) least

theorem head_writeInteger (n : Integer) (rest : Bytes) :
    ∃ h, head (writeInteger n.val ++ rest) = .ok (h, rest) ∧ h.integer? = some n :=
  head_integer (writesInteger_writeInteger n) rest

end Dataflow.MessagePack

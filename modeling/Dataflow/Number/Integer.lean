/-! # Integers of a document

A document keeps an integer exactly when it fits a signed or an unsigned word of 64 bits.
-/

namespace Dataflow

/-- An integer from -2^63 to 2^64 - 1. -/
structure Integer where
  val : Int
  least_le : -0x8000000000000000 ≤ val
  lt_bound : val < 0x10000000000000000
  deriving DecidableEq, Repr

namespace Integer

/-- The integer itself, if it is in range. -/
def ofInt? (n : Int) : Option Integer :=
  if h : -0x8000000000000000 ≤ n ∧ n < 0x10000000000000000 then some ⟨n, h.1, h.2⟩ else none

def ofUInt64 (n : UInt64) : Integer where
  val := n.toNat
  least_le := by omega
  lt_bound := by have := n.toNat_lt; omega

def ofInt64 (n : Int64) : Integer where
  val := n.toInt
  least_le := n.le_toInt
  lt_bound := by have := n.toInt_lt; omega

/-- The unsigned word of the same value, if the integer is not negative. -/
def toUInt64? (n : Integer) : Option UInt64 :=
  if 0 ≤ n.val then some n.val.toNat.toUInt64 else none

theorem toUInt64?_ofUInt64 (n : UInt64) : (ofUInt64 n).toUInt64? = some n := by
  simp [toUInt64?, ofUInt64]

end Integer

end Dataflow

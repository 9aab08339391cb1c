/-! # Doubles

Binary floating-point numbers of 64 bits, kept as the fields of their encoding. Products and
quotients are computed exactly on natural numbers and rounded once.
-/

namespace Dataflow

/-- The number of values of a fraction field of 52 bits. -/
def Double.fractionSize : Nat := 0x10000000000000

/-- The first magnitude that is not that of a finite double: all 11 bits of its exponent field are
    set. -/
def Double.magnitudeBound : Nat := 0x7ff0000000000000

structure Double where
  negative : Bool
  /-- The exponent field above the 52 bits of the fraction field, as one number. It grows with the
      absolute value, and the next double away from zero has the next magnitude. -/
  magnitude : Nat
  magnitude_lt : magnitude < Double.magnitudeBound
  deriving DecidableEq, Repr

namespace Double

def zero (negative : Bool) : Double := ⟨negative, 0, by decide⟩

def exponentField (d : Double) : Nat := d.magnitude / fractionSize

/-- The absolute value is `significand * 2 ^ exponent`. -/
def significand (d : Double) : Nat :=
  if d.exponentField = 0 then d.magnitude else d.magnitude % fractionSize + fractionSize

/-- The absolute value is `significand * 2 ^ exponent`. -/
def exponent (d : Double) : Int := (max d.exponentField 1 : Nat) - 1075

def toBits (d : Double) : Nat := (if d.negative then 0x8000000000000000 else 0) + d.magnitude

/-- Numerical equality: the two zeros are equal. -/
def same (a b : Double) : Bool :=
  a.magnitude == b.magnitude && (a.negative == b.negative || a.magnitude == 0)

/-- The quotient rounded to the nearest integer, a half to the even neighbour. -/
def roundedQuotient (num den : Nat) : Nat :=
  let floor := num / den
  let rest := num % den
  if 2 * rest < den then floor
  else if den < 2 * rest then floor + 1
  else floor + floor % 2

/-- The exponent at which `num / den` has a significand of 53 bits, but never below -1074, the
    exponent of the smallest doubles. -/
def quotientExponent (num den : Nat) : Int :=
  let bits : Int := num.log2 - den.log2
  let reached :=
    if bits < 0 then den ≤ num * Nat.pow 2 (-bits).toNat else den * Nat.pow 2 bits.toNat ≤ num
  max (-1074) (if reached then bits - 52 else bits - 53)

/-- The double nearest to `num / den`, a tie to the even magnitude; nothing if that is beyond the
    largest double. -/
def ofQuotient? (negative : Bool) (num den : Nat) : Option Double :=
  if num = 0 then some (zero negative)
  else
    let q := quotientExponent num den
    let significand := roundedQuotient (num * Nat.pow 2 (-q).toNat) (den * Nat.pow 2 q.toNat)
    let magnitude := significand + (q + 1074).toNat * fractionSize
    if h : magnitude < magnitudeBound then some ⟨negative, magnitude, h⟩ else none

/-- The product, rounded to the nearest double; nothing if that is beyond the largest one. -/
def mul? (a b : Double) : Option Double :=
  let q := a.exponent + b.exponent
  ofQuotient? (a.negative != b.negative) (a.significand * b.significand * Nat.pow 2 q.toNat)
    (Nat.pow 2 (-q).toNat)

/-- The quotient by a double that is not zero, rounded to the nearest double; nothing if that is
    beyond the largest one. -/
def div? (a b : Double) : Option Double :=
  let q := a.exponent - b.exponent
  ofQuotient? (a.negative != b.negative) (a.significand * Nat.pow 2 q.toNat)
    (b.significand * Nat.pow 2 (-q).toNat)

end Double

/-- Any double: a finite one, an infinity, or not a number. -/
inductive Binary64 where
  | finite (value : Double)
  | infinity (negative : Bool)
  | nan
  deriving DecidableEq, Repr

namespace Binary64

def ofBits (bits : Nat) : Binary64 :=
  let magnitude := bits % 0x8000000000000000
  let negative := 0x8000000000000000 ≤ bits
  if h : magnitude < Double.magnitudeBound then .finite ⟨negative, magnitude, h⟩
  else if magnitude = Double.magnitudeBound then .infinity negative
  else .nan

/-- The double of the same value as the number with the given 32 bits: one bit of sign, eight of
    exponent and 23 of fraction. -/
def ofBits32 (bits : Nat) : Binary64 :=
  let magnitude := bits % 0x80000000
  let negative := 0x80000000 ≤ bits
  let field := magnitude / 0x800000
  let fraction := magnitude % 0x800000
  if field = 255 then if fraction = 0 then .infinity negative else .nan
  else
    let significand := if field = 0 then fraction else fraction + 0x800000
    match Double.ofQuotient? negative (significand * Nat.pow 2 (max field 1)) (Nat.pow 2 150) with
    | some value => .finite value
    | none => .infinity negative

end Binary64

end Dataflow

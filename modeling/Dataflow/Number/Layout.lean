import Dataflow.Number.Shortest

/-! # Numbers as text -/

namespace Dataflow

/-- The decimal digits of a number, at least one and without leading zeros. -/
def decimalDigits (n : Nat) : List Char := Nat.toDigits 10 n

/-- An integer with a minus sign if it is negative. -/
def integerText (n : Int) : List Char :=
  if n < 0 then '-' :: decimalDigits n.natAbs else decimalDigits n.natAbs

/-- How a double is written: which digits win a tie, and for which exponents of the first digit
    the digits are written in place rather than with an exponent. -/
structure NumberLayout where
  tie : Tie
  inPlace : Int → Bool

namespace NumberLayout

/-- Digits with the point where it belongs; a whole number ends in `.0`. -/
def positional (digits : List Char) (exponent : Int) : List Char :=
  let point : Int := digits.length + exponent
  if 0 ≤ exponent then digits ++ List.replicate exponent.toNat '0' ++ ['.', '0']
  else if 0 < point then digits.take point.toNat ++ '.' :: digits.drop point.toNat
  else '0' :: '.' :: List.replicate (-point).toNat '0' ++ digits

/-- One digit before the point, and the exponent with its sign after `e`. -/
def scientific (digits : List Char) (exponent : Int) : List Char :=
  let mantissa :=
    match digits with
    | [] | [_] => digits
    | first :: rest => first :: '.' :: rest
  mantissa ++ 'e' :: (if exponent < 0 then '-' else '+') :: decimalDigits exponent.natAbs

def text (layout : NumberLayout) (d : Double) : List Char :=
  let decimal := d.shortest layout.tie
  let digits := decimalDigits decimal.digits
  let leading : Int := digits.length + decimal.exponent - 1
  let body :=
    if layout.inPlace leading then positional digits decimal.exponent
    else scientific digits leading
  if d.negative then '-' :: body else body

end NumberLayout

end Dataflow

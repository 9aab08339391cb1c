import Dataflow.Bytes
import Dataflow.Number.Integer
import Dataflow.Json.Error

/-! # Numbers in a JSON text

A number is an integer if it has neither a fraction nor an exponent and is in range, otherwise a
double. Minus zero is a double, for no integer has a sign at zero. The double is computed from the
first digits in a few rounded steps, so that it need not be the nearest one.
-/

namespace Dataflow.Json

inductive Number where
  | int (n : Integer)
  | double (d : Double)
  deriving DecidableEq, Repr

def isDigit (b : UInt8) : Bool := 0x30 ≤ b && b ≤ 0x39

/-- The number that decimal digits spell. -/
def digitsValue (digits : Bytes) : Nat :=
  digits.foldl (fun n b => 10 * n + (b.toNat - 0x30)) 0

/-- The last power of ten below the largest double is that of this exponent. -/
def largestPower : Nat := 308

/-- The double nearest to a power of ten. -/
def powerOfTen? (k : Nat) : Option Double := Double.ofQuotient? false (Nat.pow 10 k) 1

/-- The double times a power of ten; nothing if that is out of range. -/
def raise? (d : Double) (k : Nat) : Option Double := do d.mul? (← powerOfTen? k)

/-- The double divided by a power of ten. -/
def lower? (d : Double) (k : Nat) : Option Double := do d.div? (← powerOfTen? k)

/-- Divides by the largest power of ten as often as given, and then by one more. A zero is not
    divided any further. -/
def lowerTimes? : (rounds : Nat) → (k : Nat) → Double → Option Double
  | 0, k, d => lower? d k
  | rounds + 1, k, d =>
    if d.magnitude = 0 then some d else do lowerTimes? rounds k (← lower? d largestPower)

/-- A double for `significand * 10 ^ exponent`, nothing if that is out of range. The significand,
    the power of ten and what becomes of them are all rounded. -/
def ofParts? (significand : Nat) (exponent : Int) : Option Double := do
  let start ← Double.ofQuotient? false significand 1
  match exponent with
  | .ofNat k =>
    if k ≤ largestPower then raise? start k
    else if start.magnitude = 0 then some start
    else none
  | .negSucc k => lowerTimes? (k / largestPower) (k % largestPower + 1) start

/-- Appends digits to a significand while it fits into 64 bits, and counts those that are left
    out. -/
def gather (significand : Nat) : Bytes → Nat × Nat
  | [] => (significand, 0)
  | b :: rest =>
    let next := 10 * significand + (b.toNat - 0x30)
    if next < 0x10000000000000000 then gather next rest else (significand, rest.length + 1)

/-- The parts of a number as they are spelled. -/
structure Numeral where
  negative : Bool
  whole : Bytes
  /-- The digits after the point. -/
  fraction : Option Bytes
  /-- Whether the exponent is negative, and its digits. -/
  exponent : Option (Bool × Bytes)

namespace Numeral

/-- At least one digit, and all that follow it. -/
def digits (bytes : Bytes) : Except Error (Bytes × Bytes) :=
  match bytes.takeWhile isDigit, bytes.dropWhile isDigit with
  | [], [] => .error .endOfText
  | [], _ :: _ => .error .malformed
  | found, rest => .ok (found, rest)

/-- The digits before the point; a zero may only stand alone. -/
def wholeDigits (bytes : Bytes) : Except Error (Bytes × Bytes) := do
  let (found, rest) ← digits bytes
  match found with
  | 0x30 :: _ :: _ => .error .malformed
  | _ => .ok (found, rest)

/-- The point and the digits after it, if there is a point. -/
def fractionDigits : Bytes → Except Error (Option Bytes × Bytes)
  | 0x2e :: rest => do
    let (found, rest) ← digits rest
    .ok (some found, rest)
  | bytes => .ok (none, bytes)

/-- The digits of an exponent with an optional sign. -/
def signedDigits : Bytes → Except Error ((Bool × Bytes) × Bytes)
  | 0x2d :: rest => do
    let (found, rest) ← digits rest
    .ok ((true, found), rest)
  | 0x2b :: rest => do
    let (found, rest) ← digits rest
    .ok ((false, found), rest)
  | bytes => do
    let (found, rest) ← digits bytes
    .ok ((false, found), rest)

/-- The letter `e` of either case and the exponent after it, if there is one. -/
def exponentDigits : Bytes → Except Error (Option (Bool × Bytes) × Bytes)
  | 0x65 :: rest | 0x45 :: rest => do
    let (found, rest) ← signedDigits rest
    .ok (some found, rest)
  | bytes => .ok (none, bytes)

/-- A number without its sign. -/
def unsigned (negative : Bool) (bytes : Bytes) : Except Error (Numeral × Bytes) := do
  let (whole, rest) ← wholeDigits bytes
  let (fraction, rest) ← fractionDigits rest
  let (exponent, rest) ← exponentDigits rest
  .ok (⟨negative, whole, fraction, exponent⟩, rest)

/-- The number at the start of the text, as it is spelled. -/
def scan : Bytes → Except Error (Numeral × Bytes)
  | 0x2d :: rest => unsigned true rest
  | bytes => unsigned false bytes

/-- What the exponent stands for. -/
def shift (numeral : Numeral) : Int :=
  match numeral.exponent with
  | some (true, found) => -digitsValue found
  | some (false, found) => digitsValue found
  | none => 0

/-- The digits that fit into a significand, and the exponent that goes with it. A digit left out
    before the point counts as a place, one left out after it does not. -/
def parts (numeral : Numeral) : Nat × Int :=
  let fraction := numeral.fraction.getD []
  let (whole, dropped) := gather 0 numeral.whole
  let (significand, ignored) := gather whole fraction
  (significand, numeral.shift - (fraction.length : Nat) + (dropped + ignored : Nat))

/-- The number as a double; nothing if it is out of range. -/
def double? (numeral : Numeral) : Option Number :=
  let (significand, exponent) := numeral.parts
  (ofParts? significand exponent).map fun d => .double { d with negative := numeral.negative }

/-- The integer, if the number is spelled as one that is in range. -/
def integer? (numeral : Numeral) : Option Integer :=
  match numeral.fraction, numeral.exponent with
  | none, none =>
    let n := digitsValue numeral.whole
    if numeral.negative then if n = 0 then none else Integer.ofInt? (-n) else Integer.ofInt? n
  | _, _ => none

/-- What a number means; nothing if it is out of the range of doubles. -/
def value? (numeral : Numeral) : Option Number :=
  match numeral.integer? with
  | some n => some (.int n)
  | none => numeral.double?

end Numeral

def number (bytes : Bytes) : Except Error (Number × Bytes) := do
  let (numeral, rest) ← Numeral.scan bytes
  match numeral.value? with
  | some n => .ok (n, rest)
  | none => .error .malformed

/-- Passes over a number of any size. One that is cut off counts as malformed. -/
def skipNumber (bytes : Bytes) : Except Error Bytes :=
  match Numeral.scan bytes with
  | .ok (_, rest) => .ok rest
  | .error _ => .error .malformed

end Dataflow.Json

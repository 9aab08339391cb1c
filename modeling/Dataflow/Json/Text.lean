import Dataflow.Bytes
import Dataflow.Json.Error

/-! # Strings in a JSON text

A string is read byte by byte up to its closing quote. Escapes are resolved on the way, and what
results must be UTF-8. In a string that is passed over only the grammar of escapes is checked.
-/

namespace Dataflow.Json

/-- Where the reading of a string stands. -/
inductive TextState where
  | plain
  /-- After a backslash. -/
  | escape
  /-- Within the four digits of a `\u` escape, with those read so far, last one first. A high
      surrogate before it waits for this escape to complete it. -/
  | digits (high : Option Nat) (found : List UInt8)
  /-- After a high surrogate, where a backslash is due. -/
  | pair (high : Nat)
  /-- After a high surrogate and a backslash, where the letter `u` is due. -/
  | pairEscape (high : Nat)

/-- The value of a hexadecimal digit of either case. -/
def hexDigit? (b : UInt8) : Option Nat :=
  if 0x30 ≤ b && b ≤ 0x39 then some (b.toNat - 0x30)
  else if 0x61 ≤ b && b ≤ 0x66 then some (b.toNat - 0x57)
  else if 0x41 ≤ b && b ≤ 0x46 then some (b.toNat - 0x37)
  else none

/-- The number of four hexadecimal digits, given last one first. -/
def hexValue? : List UInt8 → Option Nat
  | [] => some 0
  | last :: rest => do
    let high ← hexValue? rest
    let low ← hexDigit? last
    some (16 * high + low)

/-- The character that a one-letter escape stands for, as a byte. -/
def escapedByte? (letter : UInt8) : Option UInt8 :=
  if letter = 0x22 then some 0x22
  else if letter = 0x5c then some 0x5c
  else if letter = 0x2f then some 0x2f
  else if letter = 0x62 then some 0x08
  else if letter = 0x66 then some 0x0c
  else if letter = 0x6e then some 0x0a
  else if letter = 0x72 then some 0x0d
  else if letter = 0x74 then some 0x09
  else none

def codePointBytes (codePoint : Nat) : Bytes := String.utf8EncodeChar (Char.ofNat codePoint)

/-- The state after a `\u` escape with the given code unit, and the bytes it adds. A surrogate
    counts only as half of a pair of a high and a low one. -/
def unicodeEscape (high : Option Nat) (unit : Nat) : Option (TextState × Bytes) :=
  match high with
  | some high =>
    if 0xdc00 ≤ unit ∧ unit ≤ 0xdfff then
      some (.plain, codePointBytes (0x10000 + (high - 0xd800) * 0x400 + (unit - 0xdc00)))
    else none
  | none =>
    if 0xd800 ≤ unit ∧ unit ≤ 0xdbff then some (.pair unit, [])
    else if 0xdc00 ≤ unit ∧ unit ≤ 0xdfff then none
    else some (.plain, codePointBytes unit)

/-- One byte of a string other than its closing quote: the next state and the bytes it adds.
    Nothing if the byte is not allowed here. With `skipped`, surrogates need no partner. -/
def TextState.step (skipped : Bool) : TextState → UInt8 → Option (TextState × Bytes)
  | plain, b =>
    if b = 0x5c then some (escape, []) else if b < 0x20 then none else some (plain, [b])
  | escape, b =>
    if b = 0x75 then some (digits none [], [])
    else (escapedByte? b).map fun byte => (plain, [byte])
  | digits high [c, b, a], d => do
    let unit ← hexValue? [d, c, b, a]
    if skipped then some (plain, []) else unicodeEscape high unit
  | digits high found, b => some (digits high (b :: found), [])
  | pair high, b => if b = 0x5c then some (pairEscape high, []) else none
  | pairEscape high, b => if b = 0x75 then some (digits (some high) [], []) else none

/-- The bytes of a string from the given state up to its closing quote, added to those that are
    `done`, last one first. -/
def scanText (skipped : Bool) :
    TextState → (done : Bytes) → Bytes → Except Error (Bytes × Bytes)
  | _, _, [] => .error .endOfText
  | .plain, done, 0x22 :: rest => .ok (done.reverse, rest)
  | state, done, b :: rest =>
    match state.step skipped b with
    | some (state, added) => scanText skipped state (added.reverse ++ done) rest
    | none => .error .malformed

/-- The string whose opening quote has been read. -/
def text (bytes : Bytes) : Except Error (String × Bytes) := do
  let (content, rest) ← scanText false .plain [] bytes
  match Bytes.toString? content with
  | some s => .ok (s, rest)
  | none => .error .malformed

/-- Passes over a string whose opening quote has been read. -/
def skipText (bytes : Bytes) : Except Error Bytes :=
  (scanText true .plain [] bytes).map (·.2)

end Dataflow.Json

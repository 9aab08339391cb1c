import Dataflow.Bytes
import Dataflow.MessagePack.Error

/-! # Heads of MessagePack values

A head is all of a value that stands before the values inside it: a scalar as a whole, a list or
map up to the number of its entries.
-/

namespace Dataflow.MessagePack

/-- The head of a value. -/
inductive Head where
  | nil
  | bool (b : Bool)
  /-- A number whose marker has no sign. -/
  | unsigned (n : UInt64)
  /-- A number whose marker has a sign. -/
  | signed (n : Int64)
  | float (x : Binary64)
  | text (content : Bytes)
  | bytes (content : Bytes)
  | list (count : Nat)
  | map (count : Nat)
  /-- A value of an application's own type, with `size` bytes after its type number. -/
  | extension (size : Nat)
  deriving DecidableEq, Repr

def takeBytes (count : Nat) (bytes : Bytes) : Except Error (Bytes × Bytes) :=
  let content := bytes.take count
  if content.length = count then .ok (content, bytes.drop count) else .error .noData

/-- The number in the first `width` bytes. -/
def takeNat (width : Nat) (bytes : Bytes) : Except Error (Nat × Bytes) := do
  let (content, rest) ← takeBytes width bytes
  .ok (Bytes.bigEndianValue content, rest)

/-- A head that holds a number of `width` bytes. -/
def numberHead (width : Nat) (head : Nat → Head) (bytes : Bytes) : Except Error (Head × Bytes) := do
  let (n, rest) ← takeNat width bytes
  .ok (head n, rest)

/-- The signed number whose two's complement in `width` bytes is `n`. -/
def signedValue (width n : Nat) : Int64 := .ofInt ((n : Int).bmod (Nat.pow 256 width))

/-- A head that holds `size` bytes of content. -/
def contentHead (size : Nat) (head : Bytes → Head) (bytes : Bytes) :
    Except Error (Head × Bytes) := do
  let (content, rest) ← takeBytes size bytes
  .ok (head content, rest)

/-- A head that holds a content after its size, a number of `width` bytes. -/
def sizedHead (width : Nat) (head : Bytes → Head) (bytes : Bytes) :
    Except Error (Head × Bytes) := do
  let (size, rest) ← takeNat width bytes
  contentHead size head rest

/-- The head with the given marker, which has been read. -/
def headOf (marker : UInt8) (bytes : Bytes) : Except Error (Head × Bytes) :=
  let m := marker.toNat
  if m < 0x80 then .ok (.unsigned marker.toUInt64, bytes)
  else if m < 0x90 then .ok (.map (m - 0x80), bytes)
  else if m < 0xa0 then .ok (.list (m - 0x90), bytes)
  else if m < 0xc0 then contentHead (m - 0xa0) .text bytes
  else
    match m with
    | 0xc0 => .ok (.nil, bytes)
    | 0xc1 => .error (.wrongMarker marker)
    | 0xc2 => .ok (.bool false, bytes)
    | 0xc3 => .ok (.bool true, bytes)
    | 0xc4 => sizedHead 1 .bytes bytes
    | 0xc5 => sizedHead 2 .bytes bytes
    | 0xc6 => sizedHead 4 .bytes bytes
    | 0xc7 => numberHead 1 .extension bytes
    | 0xc8 => numberHead 2 .extension bytes
    | 0xc9 => numberHead 4 .extension bytes
    | 0xca => numberHead 4 (fun bits => .float (Binary64.ofBits32 bits)) bytes
    | 0xcb => numberHead 8 (fun bits => .float (Binary64.ofBits bits)) bytes
    | 0xcc => numberHead 1 (fun n => .unsigned n.toUInt64) bytes
    | 0xcd => numberHead 2 (fun n => .unsigned n.toUInt64) bytes
    | 0xce => numberHead 4 (fun n => .unsigned n.toUInt64) bytes
    | 0xcf => numberHead 8 (fun n => .unsigned n.toUInt64) bytes
    | 0xd0 => numberHead 1 (fun n => .signed (signedValue 1 n)) bytes
    | 0xd1 => numberHead 2 (fun n => .signed (signedValue 2 n)) bytes
    | 0xd2 => numberHead 4 (fun n => .signed (signedValue 4 n)) bytes
    | 0xd3 => numberHead 8 (fun n => .signed (signedValue 8 n)) bytes
    | 0xd4 => .ok (.extension 1, bytes)
    | 0xd5 => .ok (.extension 2, bytes)
    | 0xd6 => .ok (.extension 4, bytes)
    | 0xd7 => .ok (.extension 8, bytes)
    | 0xd8 => .ok (.extension 16, bytes)
    | 0xd9 => sizedHead 1 .text bytes
    | 0xda => sizedHead 2 .text bytes
    | 0xdb => sizedHead 4 .text bytes
    | 0xdc => numberHead 2 .list bytes
    | 0xdd => numberHead 4 .list bytes
    | 0xde => numberHead 2 .map bytes
    | 0xdf => numberHead 4 .map bytes
    | _ => .ok (.signed (signedValue 1 m), bytes)

/-- The head at the start of the bytes. -/
def head : Bytes → Except Error (Head × Bytes)
  | [] => .error .noMarker
  | marker :: rest => headOf marker rest

/-- Lists, maps and extensions may stand this deep inside one another. -/
def maxLevels : Nat := 1023

/-- The levels left inside a list, map or extension. -/
def enter : (levels : Nat) → Except Error Nat
  | 0 => .error .tooDeep
  | levels + 1 => .ok levels

/-- The text of the given bytes. -/
def textOf (content : Bytes) : Except Error String :=
  match Bytes.toString? content with
  | some s => .ok s
  | none => .error .notUtf8

namespace Head

/-- The error for a value that is not of the expected type. A text must be UTF-8 all the same, and
    a list, map or extension must have a level left. -/
def refuse {α : Type} (head : Head) (levels : Nat) (expected : Expected) : Except Error α :=
  let refused (found : Found) : Except Error α := .error (.mismatch (.wrongType found expected))
  match head with
  | nil => refused .nothing
  | bool b => refused (.bool b)
  | unsigned n => refused (.integer n.toNat)
  | signed n => refused (.integer n.toInt)
  | float x => refused (.float x)
  | text content => do refused (.text (← textOf content))
  | bytes _ => refused .bytes
  | list _ => do
    let _ ← enter levels
    refused .sequence
  | map _ => do
    let _ ← enter levels
    refused .map
  | extension _ => do
    let _ ← enter levels
    refused .extension

end Head

end Dataflow.MessagePack

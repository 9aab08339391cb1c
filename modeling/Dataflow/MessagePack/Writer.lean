import Dataflow.Bytes
import Dataflow.Schema

/-! # Writing MessagePack

Of the markers that a value may have the smallest is written. Integers that are not negative have
markers without a sign, and doubles keep all their bits.
-/

namespace Dataflow.MessagePack

/-- A length of two bytes after the given marker, or of four bytes after the marker that follows
    it. -/
def wideLength (marker : UInt8) (length : Nat) : Bytes :=
  if length < 0x10000 then marker :: Bytes.bigEndian 2 length
  else (marker + 1) :: Bytes.bigEndian 4 length

/-- The head of a text of so many bytes. -/
def textHead (length : Nat) : Bytes :=
  if length < 32 then [(0xa0 + length).toUInt8]
  else if length < 0x100 then 0xd9 :: Bytes.bigEndian 1 length
  else wideLength 0xda length

/-- The head of a list of so many items. -/
def listHead (length : Nat) : Bytes :=
  if length < 16 then [(0x90 + length).toUInt8] else wideLength 0xdc length

/-- The head of a map of so many members. -/
def mapHead (length : Nat) : Bytes :=
  if length < 16 then [(0x80 + length).toUInt8] else wideLength 0xde length

/-- An integer. -/
def writeInteger (n : Int) : Bytes :=
  if 0 ≤ n then
    let n := n.toNat
    if n < 0x80 then [n.toUInt8]
    else if n < 0x100 then 0xcc :: Bytes.bigEndian 1 n
    else if n < 0x10000 then 0xcd :: Bytes.bigEndian 2 n
    else if n < 0x100000000 then 0xce :: Bytes.bigEndian 4 n
    else 0xcf :: Bytes.bigEndian 8 n
  else
    let complement (width : Nat) : Nat := (n + Nat.pow 256 width).toNat
    if -0x20 ≤ n then [(complement 1).toUInt8]
    else if -0x80 ≤ n then 0xd0 :: Bytes.bigEndian 1 (complement 1)
    else if -0x8000 ≤ n then 0xd1 :: Bytes.bigEndian 2 (complement 2)
    else if -0x80000000 ≤ n then 0xd2 :: Bytes.bigEndian 4 (complement 4)
    else 0xd3 :: Bytes.bigEndian 8 (complement 8)

/-- A text. -/
def writeText (text : String) : Bytes :=
  let content := Bytes.ofString text
  textHead content.length ++ content

mutual

/-- A value. -/
def write : Value → Bytes
  | .null => [0xc0]
  | .bool false => [0xc2]
  | .bool true => [0xc3]
  | .int n => writeInteger n.val
  | .double d => 0xcb :: Bytes.bigEndian 8 d.toBits
  | .string text => writeText text
  | .array items => listHead items.length ++ writeItems items
  | .object members => mapHead members.length ++ writeMembers members

/-- The items of a list. -/
def writeItems : List Value → Bytes
  | [] => []
  | item :: rest => write item ++ writeItems rest

/-- The members of a map, each key before its value. -/
def writeMembers : List (String × Value) → Bytes
  | [] => []
  | (name, value) :: rest => writeText name ++ write value ++ writeMembers rest

end

def encode {α : Type} [Document α] (x : α) : Bytes := write (Document.toValue x)

end Dataflow.MessagePack

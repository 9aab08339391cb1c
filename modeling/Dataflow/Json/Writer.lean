import Dataflow.Json.Error
import Dataflow.Bytes
import Dataflow.Schema

/-! # Writing JSON

One writer serves both styles, the compact one and the one in lines; they differ only in the blanks
that stand between tokens.
-/

namespace Dataflow.Json

/-- The blanks of a style. -/
structure Style where
  /-- What stands before an entry or closing bracket that belongs to the given level. -/
  lineBreak : (level : Nat) → Bytes
  /-- What stands between a colon and the value after it. -/
  afterColon : Bytes

/-- No blanks at all. -/
def Style.compact : Style where
  lineBreak _ := []
  afterColon := []

/-- Every entry on a line of its own, two spaces to the right for every level. -/
def Style.pretty : Style where
  lineBreak level := 0x0a :: List.replicate (2 * level) 0x20
  afterColon := [0x20]

/-- The hexadecimal digit, in lower case, of a number below 16. -/
def hexDigit (n : Nat) : UInt8 := (if n < 10 then 0x30 + n else 0x57 + n).toUInt8

/-- A byte of a string as it is written: the quote, the backslash and control characters are
    escaped, and all else stands for itself. -/
def escapeByte (b : UInt8) : Bytes :=
  if b = 0x22 then [0x5c, 0x22]
  else if b = 0x5c then [0x5c, 0x5c]
  else if b = 0x08 then [0x5c, 0x62]
  else if b = 0x0c then [0x5c, 0x66]
  else if b = 0x0a then [0x5c, 0x6e]
  else if b = 0x0d then [0x5c, 0x72]
  else if b = 0x09 then [0x5c, 0x74]
  else if b < 0x20 then
    [0x5c, 0x75, 0x30, 0x30, hexDigit (b.toNat / 16), hexDigit (b.toNat % 16)]
  else [b]

def writeText (text : String) : Bytes :=
  0x22 :: (Bytes.ofString text).flatMap escapeByte ++ [0x22]

mutual

/-- A value whose own entries belong to the level after the given one. An empty list or object has
    no blanks in it. -/
def write (style : Style) (level : Nat) : Value → Bytes
  | .null => Bytes.ofAscii ['n', 'u', 'l', 'l']
  | .bool true => Bytes.ofAscii ['t', 'r', 'u', 'e']
  | .bool false => Bytes.ofAscii ['f', 'a', 'l', 's', 'e']
  | .int n => Bytes.ofAscii (integerText n.val)
  | .double d => Bytes.ofAscii (numberLayout.text d)
  | .string text => writeText text
  | .array [] => [0x5b, 0x5d]
  | .array items =>
    0x5b :: writeItems style (level + 1) true items ++ style.lineBreak level ++ [0x5d]
  | .object [] => [0x7b, 0x7d]
  | .object members =>
    0x7b :: writeMembers style (level + 1) true members ++ style.lineBreak level ++ [0x7d]

/-- The items of a list, with a comma before all but the first. -/
def writeItems (style : Style) (level : Nat) (first : Bool) : List Value → Bytes
  | [] => []
  | item :: rest =>
    (if first then [] else [0x2c]) ++ style.lineBreak level ++ write style level item ++
      writeItems style level false rest

/-- The members of an object, with a comma before all but the first. -/
def writeMembers (style : Style) (level : Nat) (first : Bool) :
    List (String × Value) → Bytes
  | [] => []
  | (name, value) :: rest =>
    (if first then [] else [0x2c]) ++ style.lineBreak level ++ writeText name ++ [0x3a] ++
      style.afterColon ++ write style level value ++ writeMembers style level false rest

end

def encode {α : Type} [Document α] (x : α) : Bytes := write .compact 0 (Document.toValue x)

def encodePretty {α : Type} [Document α] (x : α) : Bytes := write .pretty 0 (Document.toValue x)

end Dataflow.Json

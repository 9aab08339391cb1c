import Dataflow.Schema.Violation

/-! # Why MessagePack bytes cannot be read

Every MessagePack value starts with a marker byte that tells its type, and often its size as well.
-/

namespace Dataflow.MessagePack

/-- Why MessagePack bytes cannot be read. -/
inductive Error where
  /-- The bytes end where a marker is due. -/
  | noMarker
  /-- The bytes end inside a number, a length or a content. -/
  | noData
  /-- A marker that cannot stand here. -/
  | wrongMarker (marker : UInt8)
  /-- A list or map has another number of entries than `length`, the number that was read. -/
  | wrongLength (length : Nat)
  /-- Lists and maps stand too deep inside one another. -/
  | tooDeep
  /-- A text is not UTF-8. -/
  | notUtf8
  /-- The bytes are well formed so far, but not of the required shape. -/
  | mismatch (violation : Violation)
  deriving DecidableEq, Repr

/-- A name with a number in brackets. -/
def numberedName (name : String) (n : Int) : String :=
  name ++ "(" ++ String.ofList (integerText n) ++ ")"

/-- The names of the markers from 0xc0 to 0xdf. -/
def markerNames : List String :=
  ["Null", "Reserved", "False", "True", "Bin8", "Bin16", "Bin32", "Ext8", "Ext16", "Ext32", "F32",
    "F64", "U8", "U16", "U32", "U64", "I8", "I16", "I32", "I64", "FixExt1", "FixExt2", "FixExt4",
    "FixExt8", "FixExt16", "Str8", "Str16", "Str32", "Array16", "Array32", "Map16", "Map32"]

/-- The name of a marker, with the number or length that it holds. -/
def markerName (marker : UInt8) : String :=
  let m := marker.toNat
  if m < 0x80 then numberedName "FixPos" m
  else if m < 0x90 then numberedName "FixMap" (m - 0x80 : Nat)
  else if m < 0xa0 then numberedName "FixArray" (m - 0x90 : Nat)
  else if m < 0xc0 then numberedName "FixStr" (m - 0xa0 : Nat)
  else if m < 0xe0 then markerNames.getD (m - 0xc0) ""
  else numberedName "FixNeg" ((m : Int) - 0x100)

/-- Doubles in messages are written in place with the fewest digits that identify them, of two
    equally near choices the larger one. -/
def numberLayout : NumberLayout where
  tie := .up
  inPlace _ := true

/-- How messages about MessagePack word what was found. -/
def wording : Wording where
  nothing := "unit value"
  float
    | .finite d => String.ofList (numberLayout.text d)
    | .infinity negative => if negative then "-inf" else "inf"
    | .nan => "NaN"

namespace Error

def message : Error → String
  | noMarker => "no marker"
  | noData => "no data"
  | wrongMarker marker => "wrong msgpack marker " ++ markerName marker
  | wrongLength length =>
    "array had incorrect length, expected " ++ String.ofList (decimalDigits length)
  | tooDeep => "depth limit exceeded"
  | notUtf8 => "text is not UTF-8"
  | mismatch violation => violation.message wording

end Error

end Dataflow.MessagePack

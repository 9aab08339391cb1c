import Dataflow.Number.Layout
import Dataflow.Text.Quoted

/-! # Violations of a schema

What can be wrong with a document that is well formed but does not have the shape its reader asks
for. The causes are the same for every format; the formats differ in how they word what they found.
-/

namespace Dataflow

inductive Found where
  | nothing
  | bool (b : Bool)
  | integer (n : Int)
  | float (x : Binary64)
  | text (s : String)
  | sequence
  | map
  | bytes
  /-- A value of a type that the format leaves to applications. -/
  | extension
  deriving DecidableEq, Repr

inductive Expected where
  | unsigned
  | text
  | sequence
  | map
  | unit
  | anyValue
  /-- The first key of an object inside an attribute value. -/
  | objectKey
  | record (name : String)
  /-- A record written as the list of its fields. -/
  | recordItems (name : String) (count : Nat)
  | fieldName
  | variantName
  /-- The position of a variant among `count` ones. -/
  | variantIndex (count : Nat)
  deriving DecidableEq, Repr

/-- A disagreement between a document and a schema. -/
inductive Violation where
  | wrongType (found : Found) (expected : Expected)
  /-- The right type, but a value that cannot be meant. -/
  | wrongValue (found : Found) (expected : Expected)
  /-- A list with too few items: only `length` of them. -/
  | wrongLength (length : Nat) (expected : Expected)
  | missingField (name : String)
  | repeatedField (name : String)
  | unknownVariant (name : String) (known : List String)
  deriving DecidableEq, Repr

/-- How a format words what it found, where formats differ. -/
structure Wording where
  nothing : String
  float : Binary64 → String

def backquoted (text : String) : String := "`" ++ text ++ "`"

namespace Found

def message (wording : Wording) : Found → String
  | nothing => wording.nothing
  | bool b => "boolean " ++ backquoted (if b then "true" else "false")
  | integer n => "integer " ++ backquoted (String.ofList (integerText n))
  | float x => "floating point " ++ backquoted (wording.float x)
  | text s => "string " ++ quoted s
  | sequence => "sequence"
  | map => "map"
  | bytes => "byte array"
  | extension => "newtype struct"

end Found

namespace Expected

def message : Expected → String
  | unsigned => "u64"
  | text => "a string"
  | sequence => "a sequence"
  | map => "a map"
  | unit => "unit"
  | anyValue => "any valid JSON value"
  | objectKey => "a string key"
  | record name => "struct " ++ name
  | recordItems name count =>
    "struct " ++ name ++ " with " ++ String.ofList (decimalDigits count) ++
      (if count = 1 then " element" else " elements")
  | fieldName => "field identifier"
  | variantName => "variant identifier"
  | variantIndex count => "variant index 0 <= i < " ++ String.ofList (decimalDigits count)

end Expected

namespace Violation

def message (wording : Wording) : Violation → String
  | wrongType found expected =>
    "invalid type: " ++ found.message wording ++ ", expected " ++ expected.message
  | wrongValue found expected =>
    "invalid value: " ++ found.message wording ++ ", expected " ++ expected.message
  | wrongLength length expected =>
    "invalid length " ++ String.ofList (decimalDigits length) ++ ", expected " ++ expected.message
  | missingField name => "missing field " ++ backquoted name
  | repeatedField name => "duplicate field " ++ backquoted name
  | unknownVariant name known =>
    "unknown variant " ++ backquoted name ++ ", expected " ++
      " or ".intercalate (known.map backquoted)

end Violation

end Dataflow

import Dataflow.MessagePack.Head
import Dataflow.Value

/-! # Values in MessagePack

Values that are kept and values that are passed over. Both may nest only as deep as the levels that
are left.
-/

namespace Dataflow.MessagePack

/-- A text, or bytes that are one. -/
def text (levels : Nat) (bytes : Bytes) : Except Error (String × Bytes) := do
  match ← head bytes with
  | (.text content, rest) => .ok (← textOf content, rest)
  | (.bytes content, rest) =>
    match Bytes.toString? content with
    | some s => .ok (s, rest)
    | none => .error (.mismatch (.wrongValue .bytes .text))
  | (head, _) => head.refuse levels .text

/-- The first key of an object: a text, which must not be given as bytes. -/
def objectKey (levels : Nat) (bytes : Bytes) : Except Error (String × Bytes) := do
  match ← head bytes with
  | (.text content, rest) => .ok (← textOf content, rest)
  | (head, _) => head.refuse levels .objectKey

/-- As many entries as announced, added to those that are `done`, last one first. -/
def entries {α : Type} (entry : Bytes → Except Error (α × Bytes)) :
    (count : Nat) → (done : List α) → Bytes → Except Error (List α × Bytes)
  | 0, done, bytes => .ok (done.reverse, bytes)
  | count + 1, done, bytes => do
    let (x, rest) ← entry bytes
    entries entry count (x :: done) rest

/-- A key and its value. -/
def member (key : Bytes → Except Error (String × Bytes))
    (value : Bytes → Except Error (Value × Bytes)) (bytes : Bytes) :
    Except Error ((String × Value) × Bytes) := do
  let (name, rest) ← key bytes
  let (v, rest) ← value rest
  .ok ((name, v), rest)

/-- The members of an object inside an attribute value. -/
def objectMembers (levels count : Nat) (value : Bytes → Except Error (Value × Bytes))
    (bytes : Bytes) : Except Error (List (String × Value) × Bytes) :=
  match count with
  | 0 => .ok ([], bytes)
  | count + 1 => do
    let (first, rest) ← member (objectKey levels) value bytes
    entries (member (text levels) value) count [first] rest

/-- A number as a value. Only finite doubles are values; the others are written as null. -/
def floatValue : Binary64 → Value
  | .finite d => .double d
  | .infinity _ | .nan => .null

/-- A value whose entries, if there may be any, are read with the levels and reader `inner`. -/
def valueOver (inner : Option (Nat × (Bytes → Except Error (Value × Bytes)))) (bytes : Bytes) :
    Except Error (Value × Bytes) := do
  match ← head bytes with
  | (.nil, rest) => .ok (.null, rest)
  | (.bool b, rest) => .ok (.bool b, rest)
  | (.unsigned n, rest) => .ok (.int (.ofUInt64 n), rest)
  | (.signed n, rest) => .ok (.int (.ofInt64 n), rest)
  | (.float x, rest) => .ok (floatValue x, rest)
  | (.text content, rest) => .ok (.string (← textOf content), rest)
  | (.list count, rest) =>
    match inner with
    | none => .error .tooDeep
    | some (_, value) =>
      let (items, rest) ← entries value count [] rest
      .ok (.array items, rest)
  | (.map count, rest) =>
    match inner with
    | none => .error .tooDeep
    | some (levels, value) =>
      let (members, rest) ← objectMembers levels count value rest
      .ok (.object members, rest)
  | (.bytes _, _) => .error (.mismatch (.wrongType .bytes .anyValue))
  | (.extension _, _) =>
    match inner with
    | none => .error .tooDeep
    | some _ => .error (.mismatch (.wrongType .extension .anyValue))

/-- A value that nests at most `levels` deep. -/
def value : (levels : Nat) → Bytes → Except Error (Value × Bytes)
  | 0, bytes => valueOver none bytes
  | levels + 1, bytes => valueOver (some (levels, value levels)) bytes

/-- Passes over as many values as announced. -/
def skipEntries (skip : Bytes → Except Error Bytes) : (count : Nat) → Bytes → Except Error Bytes
  | 0, bytes => .ok bytes
  | count + 1, bytes => do skipEntries skip count (← skip bytes)

/-- Passes over a value whose entries, if there may be any, are passed over with `inner`. Texts need
    not be UTF-8 here. -/
def skipOver (inner : Option (Bytes → Except Error Bytes)) (bytes : Bytes) :
    Except Error Bytes := do
  match ← head bytes with
  | (.list count, rest) =>
    match inner with
    | none => .error .tooDeep
    | some skip => skipEntries skip count rest
  | (.map count, rest) =>
    match inner with
    | none => .error .tooDeep
    | some skip => skipEntries skip (2 * count) rest
  | (.extension size, rest) =>
    match inner with
    | none => .error .tooDeep
    | some _ => (takeBytes (size + 1) rest).map (·.2)
  | (_, rest) => .ok rest

/-- Passes over a value that nests at most `levels` deep. -/
def skip : (levels : Nat) → Bytes → Except Error Bytes
  | 0, bytes => skipOver none bytes
  | levels + 1, bytes => skipOver (some (skip levels)) bytes

end Dataflow.MessagePack

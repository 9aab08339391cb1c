import Dataflow.MessagePack.Value
import Dataflow.Schema
import Dataflow.Text.Lossy

/-! # Documents in MessagePack

The readers that MessagePack provides for schemas. A document is read in one pass, so of several
faults the first is reported; what comes after the document is not looked at. Bytes may stand for a
list, a record or a text: as a list they are one small number after the other.
-/

namespace Dataflow.MessagePack

/-- Reads an `α` from the start of the bytes, with a number of levels that lists and maps may still
    open, or from a single byte of some bytes that stand for a list. -/
structure Reader (α : Type) where
  run : (levels : Nat) → Bytes → Except Error (α × Bytes)
  ofByte : UInt8 → Except Violation α

/-- Whether a marker stands for a number, a boolean or nil. -/
def isScalarMarker (marker : UInt8) : Bool :=
  marker < 0x80 || marker = 0xc0 || marker = 0xc2 || marker = 0xc3 ||
    (0xca ≤ marker && marker ≤ 0xd3) || 0xe0 ≤ marker

namespace Reader

/-- What has been read, or the violation as an error. -/
def settle {α : Type} (outcome : Except Violation α) (rest : Bytes) : Except Error (α × Bytes) :=
  match outcome with
  | .ok x => .ok (x, rest)
  | .error violation => .error (.mismatch violation)

/-- A single byte is a number, and here none is expected. -/
def refuseByte {α : Type} (expected : Expected) (b : UInt8) : Except Violation α :=
  .error (.wrongType (.integer b.toNat) expected)

def map {α β : Type} (f : α → β) (reader : Reader α) : Reader β where
  run levels bytes := do
    let (x, rest) ← reader.run levels bytes
    .ok (f x, rest)
  ofByte b := (reader.ofByte b).map f

/-- An integer from 0 to 2^64 - 1 of any width. Where it is due, the marker of anything but a scalar
    is wrong. -/
def unsigned : Reader UInt64 where
  run levels
    | [] => .error .noMarker
    | marker :: rest =>
      if isScalarMarker marker then do
        match ← headOf marker rest with
        | (.unsigned n, rest) => .ok (n, rest)
        | (.signed n, rest) =>
          match (Integer.ofInt64 n).toUInt64? with
          | some n => .ok (n, rest)
          | none => .error (.mismatch (.wrongValue (.integer n.toInt) .unsigned))
        | (head, _) => head.refuse levels .unsigned
      else .error (.wrongMarker marker)
  ofByte b := .ok b.toUInt64

/-- A text. -/
def text : Reader String where
  run := MessagePack.text
  ofByte := refuseByte .text

/-- A map of attributes; nil stands for the empty one. -/
def attributes : Reader Attributes where
  run levels bytes := do
    match ← head bytes with
    | (.nil, rest) => .ok (.empty, rest)
    | (.map count, rest) =>
      let inner ← enter levels
      let (members, rest) ← entries (member (MessagePack.text inner) (value inner)) count [] rest
      .ok (.ofMembers members, rest)
    | (head, _) => head.refuse levels .map
  ofByte := refuseByte .map

/-- A list, or bytes. -/
def list {α : Type} (item : Reader α) : Reader (List α) where
  run levels bytes := do
    match ← head bytes with
    | (.list count, rest) =>
      let inner ← enter levels
      entries (item.run inner) count [] rest
    | (.bytes content, rest) => settle (content.mapM item.ofByte) rest
    | (head, _) => head.refuse levels .sequence
  ofByte := refuseByte .sequence

/-- The field that a key names: by its name, or by its position as a number without a sign. -/
def keyField {δ : Type} (fields : List (Field Reader δ)) (levels : Nat) (bytes : Bytes) :
    Except Error (Option (Field Reader δ) × Bytes) := do
  let named (content : Bytes) := fields.find? fun field => Bytes.ofString field.name == content
  match ← head bytes with
  | (.text content, rest) => .ok (named content, rest)
  | (.bytes content, rest) => .ok (named content, rest)
  | (.unsigned n, rest) => .ok (fields[n.toNat]?, rest)
  | (head, _) => head.refuse levels .fieldName

/-- As many members of a record as announced. A field may come once; a member that is no field is
    passed over. -/
def fieldMembers {δ : Type} (fields : List (Field Reader δ)) (levels : Nat) :
    (count : Nat) → δ → Bytes → Except Error (δ × Bytes)
  | 0, draft, bytes => .ok (draft, bytes)
  | count + 1, draft, bytes => do
    match ← keyField fields levels bytes with
    | (none, rest) => fieldMembers fields levels count draft (← skip levels rest)
    | (some field, rest) =>
      if field.isSet draft then .error (.mismatch (.repeatedField field.name))
      else
        let (change, rest) ← field.reader.run levels rest
        fieldMembers fields levels count (change draft) rest

/-- The fields of a record as the items of a list, which may end early. Also the number of items
    that are left after the last field. -/
def fieldItems {δ : Type} (levels : Nat) :
    List (Field Reader δ) → (count : Nat) → δ → Bytes → Except Error (δ × Nat × Bytes)
  | [], count, draft, bytes => .ok (draft, count, bytes)
  | _ :: _, 0, draft, bytes => .ok (draft, 0, bytes)
  | field :: fields, count + 1, draft, bytes => do
    let (change, rest) ← field.reader.run levels bytes
    fieldItems levels fields count (change draft) rest

/-- The fields of a record from single bytes, as far as there are any. -/
def fieldBytes {δ : Type} : List (Field Reader δ) → Bytes → δ → Except Violation δ
  | field :: fields, b :: rest, draft => do
    let change ← field.reader.ofByte b
    fieldBytes fields rest (change draft)
  | _, _, draft => .ok draft

/-- A record, as a map, or as the list of its fields, which bytes may be as well. -/
def record {δ α : Type} (record : Record Reader δ α) : Reader α where
  run levels bytes := do
    match ← head bytes with
    | (.map count, rest) =>
      let inner ← enter levels
      let (draft, rest) ← fieldMembers record.fields inner count record.blank rest
      settle (record.ofNamed draft) rest
    | (.list count, rest) =>
      let inner ← enter levels
      let (draft, left, rest) ← fieldItems inner record.fields count record.blank rest
      let (x, rest) ← settle (record.ofItems draft) rest
      if left = 0 then .ok (x, rest) else .error (.wrongLength record.fields.length)
    | (.bytes content, rest) =>
      settle (do record.ofItems (← fieldBytes record.fields content record.blank)) rest
    | (head, _) => head.refuse levels record.expected
  ofByte := refuseByte record.expected

/-- The constant that a value names: by its name, or by its position as a number without a sign. -/
def constant {α : Type} (constants : List (String × α)) (levels : Nat) (bytes : Bytes) :
    Except Error (α × Bytes) := do
  let named (name : String) : Except Violation α :=
    match constants.lookup name with
    | some x => .ok x
    | none => .error (.unknownVariant name (constants.map (·.1)))
  match ← head bytes with
  | (.text content, rest) => settle (named (← textOf content)) rest
  | (.bytes content, rest) => settle (named (lossyText content)) rest
  | (.unsigned n, rest) =>
    match constants[n.toNat]? with
    | some (_, x) => .ok (x, rest)
    | none =>
      .error (.mismatch (.wrongValue (.integer n.toNat) (.variantIndex constants.length)))
  | (head, _) => head.refuse levels .variantName

/-- The nil that stands beside the name of a constant in a map. -/
def emptyPayload : Bytes → Except Error Bytes
  | [] => .error .noMarker
  | marker :: rest => if marker = 0xc0 then .ok rest else .error (.wrongMarker marker)

/-- A named constant, alone or in a map of one entry whose value is nil. -/
def choice {α : Type} (constants : List (String × α)) : Reader α where
  run levels bytes :=
    match head bytes with
    | .ok (.map 1, rest) => do
      let (x, rest) ← constant constants levels rest
      .ok (x, ← emptyPayload rest)
    | .ok (.map count, _) => .error (.wrongLength count)
    | _ => constant constants levels bytes
  ofByte := refuseByte .variantName

instance : Readers Reader where
  map := map
  unsigned := unsigned
  text := text
  attributes := attributes
  list := list
  record := record
  choice := choice

end Reader

/-- The document at the start of the bytes. -/
def decode {α : Type} [Document α] (bytes : Bytes) : Except Error α :=
  ((Document.reader : Reader α).run maxLevels bytes).map (·.1)

end Dataflow.MessagePack

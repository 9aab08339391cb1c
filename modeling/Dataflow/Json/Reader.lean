import Dataflow.Json.Skip
import Dataflow.Json.Value
import Dataflow.Schema

/-! # Documents in a JSON text

The readers that JSON provides for schemas. A document is read in one pass, so of several faults
the first in the text is reported. A scalar of the wrong type is read to its end before it is
reported, a list or object at its bracket.
-/

namespace Dataflow.Json

/-- Reads an `α` from the start of a text, with a number of levels that lists and objects may still
    open. -/
structure Reader (α : Type) where
  run : (levels : Nat) → Bytes → Except Error (α × Bytes)

/-- Lists and objects may stand this deep inside one another where they are kept. -/
def maxLevels : Nat := 127

/-- The levels left inside a list or object. -/
def enter : (levels : Nat) → Except Error Nat
  | 0 => .error .malformed
  | levels + 1 => .ok levels

namespace Reader

/-- The error for a token that is not of the expected type. -/
def refuse {α : Type} (token : Token) (expected : Expected) : Except Error α :=
  .error (.mismatch (.wrongType token.found expected))

/-- What has been read, or the violation as an error. -/
def settle {α : Type} (outcome : Except Violation α) (rest : Bytes) : Except Error (α × Bytes) :=
  match outcome with
  | .ok x => .ok (x, rest)
  | .error violation => .error (.mismatch violation)

def map {α β : Type} (f : α → β) (reader : Reader α) : Reader β where
  run levels bytes := do
    let (x, rest) ← reader.run levels bytes
    .ok (f x, rest)

/-- An integer from 0 to 2^64 - 1. -/
def unsigned : Reader UInt64 where
  run _ bytes := do
    match ← token bytes with
    | (.number (.int n), rest) =>
      match n.toUInt64? with
      | some n => .ok (n, rest)
      | none => .error (.mismatch (.wrongValue (.integer n.val) .unsigned))
    | (token, _) => refuse token .unsigned

def text : Reader String where
  run _ bytes := do
    match ← token bytes with
    | (.text s, rest) => .ok (s, rest)
    | (token, _) => refuse token .text

def attributes : Reader Attributes where
  run levels bytes := do
    match ← token bytes with
    | (.opening .object, rest) =>
      let inner ← enter levels
      let (members, rest) ← objectMembers (keptMember (value inner)) rest true [] rest
      .ok (.ofMembers members.reverse, rest)
    | (token, _) => refuse token .map

def list {α : Type} (item : Reader α) : Reader (List α) where
  run levels bytes := do
    match ← token bytes with
    | (.opening .list, rest) =>
      let inner ← enter levels
      listEntries (item.run inner) rest true [] rest
    | (token, _) => refuse token .sequence

/-- The member of a record from its key on. A field may come once; a member that is no field is
    passed over. -/
def fieldMember {δ : Type} (fields : List (Field Reader δ)) (levels : Nat) (draft : δ)
    (name : String) (bytes : Bytes) : Except Error (δ × Bytes) :=
  match fields.find? (·.name == name) with
  | none => do .ok (draft, ← skip (← colon bytes))
  | some field =>
    if field.isSet draft then .error (.mismatch (.repeatedField field.name))
    else do
      let (change, rest) ← field.reader.run levels (← colon bytes)
      .ok (change draft, rest)

/-- The fields of a record as the items of a list, and its closing bracket. The list may end early,
    but not go on after the last field. -/
def fieldItems {δ : Type} (levels : Nat) :
    List (Field Reader δ) → (first : Bool) → δ → Bytes → Except Error (δ × Bytes)
  | [], _, draft, bytes =>
    match skipBlanks bytes with
    | [] => .error .endOfText
    | b :: rest => if b = Bracket.list.close then .ok (draft, rest) else .error .malformed
  | field :: fields, first, draft, bytes => do
    match ← next .list first bytes with
    | .closed rest => .ok (draft, rest)
    | .entry bytes =>
      let (change, rest) ← field.reader.run levels bytes
      fieldItems levels fields false (change draft) rest

/-- A record, as an object or as the list of its fields. -/
def record {δ α : Type} (record : Record Reader δ α) : Reader α where
  run levels bytes := do
    match ← token bytes with
    | (.opening .object, rest) =>
      let inner ← enter levels
      let (draft, rest) ←
        objectMembers (fieldMember record.fields inner) rest true record.blank rest
      settle (record.ofNamed draft) rest
    | (.opening .list, rest) =>
      let inner ← enter levels
      let (draft, rest) ← fieldItems inner record.fields true record.blank rest
      settle (record.ofItems draft) rest
    | (token, _) => refuse token record.expected

/-- The constant of the given name. -/
def choose {α : Type} (constants : List (String × α)) (name : String) : Except Error α :=
  match constants.lookup name with
  | some x => .ok x
  | none => .error (.mismatch (.unknownVariant name (constants.map (·.1))))

/-- A named constant: its name, or an object whose one member has the name as key and null as
    value. Anything else is malformed. -/
def choice {α : Type} (constants : List (String × α)) : Reader α where
  run levels bytes :=
    match skipBlanks bytes with
    | [] => .error .endOfText
    | b :: rest =>
      if b = 0x22 then do
        let (name, rest) ← Json.text rest
        .ok (← choose constants name, rest)
      else if b = 0x7b then do
        let _ ← enter levels
        let (name, rest) ← key rest
        let x ← choose constants name
        match ← token (← colon rest) with
        | (.null, rest) =>
          match skipBlanks rest with
          | [] => .error .endOfText
          | b :: rest => if b = Bracket.object.close then .ok (x, rest) else .error .malformed
        | (token, _) => refuse token .unit
      else .error .malformed

instance : Readers Reader where
  map := map
  unsigned := unsigned
  text := text
  attributes := attributes
  list := list
  record := record
  choice := choice

/-- Reads a whole text. Only blanks may follow what is read. -/
def runAll {α : Type} (reader : Reader α) (bytes : Bytes) : Except Error α := do
  let (x, rest) ← reader.run maxLevels bytes
  match skipBlanks rest with
  | [] => .ok x
  | _ :: _ => .error .malformed

end Reader

/-- The document that a text spells. -/
def decode {α : Type} [Document α] (bytes : Bytes) : Except Error α :=
  (Document.reader : Reader α).runAll bytes

end Dataflow.Json

import Dataflow.Json.Token
import Dataflow.Value

/-! # Values in a JSON text

Values that are kept may nest only as deep as the levels that are left. The entries of lists and
objects are read in loops that take at least one byte a round, so the text at the start of a loop
is a clock that never runs out.
-/

namespace Dataflow.Json

/-- The entries of a list after its opening bracket, added to those that are `done`, last one
    first, and its closing bracket. -/
def listEntries {α : Type} (entry : Bytes → Except Error (α × Bytes)) :
    (clock : Bytes) → (first : Bool) → (done : List α) → Bytes → Except Error (List α × Bytes)
  | [], _, _, _ => .error .endOfText
  | _ :: clock, first, done, bytes => do
    match ← next .list first bytes with
    | .closed rest => .ok (done.reverse, rest)
    | .entry bytes =>
      let (x, rest) ← entry bytes
      listEntries entry clock false (x :: done) rest

/-- The members of an object after its opening bracket, and its closing bracket. What is read of
    them is gathered in a state, which `member` changes from the key on. -/
def objectMembers {σ : Type} (member : σ → String → Bytes → Except Error (σ × Bytes)) :
    (clock : Bytes) → (first : Bool) → σ → Bytes → Except Error (σ × Bytes)
  | [], _, _, _ => .error .endOfText
  | _ :: clock, first, state, bytes => do
    match ← next .object first bytes with
    | .closed rest => .ok (state, rest)
    | .entry bytes =>
      let (name, rest) ← key bytes
      let (state, rest) ← member state name rest
      objectMembers member clock false state rest

/-- A member kept as it stands, added to those that are `done`, last one first. -/
def keptMember (value : Bytes → Except Error (Value × Bytes)) (done : List (String × Value))
    (name : String) (bytes : Bytes) : Except Error (List (String × Value) × Bytes) := do
  let (v, rest) ← value (← colon bytes)
  .ok ((name, v) :: done, rest)

/-- A value whose entries, if there may be any, are read with `inner`. -/
def valueOver (inner : Option (Bytes → Except Error (Value × Bytes))) (bytes : Bytes) :
    Except Error (Value × Bytes) := do
  match ← token bytes with
  | (.null, rest) => .ok (.null, rest)
  | (.bool b, rest) => .ok (.bool b, rest)
  | (.number (.int n), rest) => .ok (.int n, rest)
  | (.number (.double d), rest) => .ok (.double d, rest)
  | (.text s, rest) => .ok (.string s, rest)
  | (.opening bracket, rest) =>
    match inner, bracket with
    | none, _ => .error .malformed
    | some inner, .list => do
      let (items, rest) ← listEntries inner rest true [] rest
      .ok (.array items, rest)
    | some inner, .object => do
      let (members, rest) ← objectMembers (keptMember inner) rest true [] rest
      .ok (.object members.reverse, rest)

/-- A value that nests at most `levels` deep. -/
def value : (levels : Nat) → Bytes → Except Error (Value × Bytes)
  | 0, bytes => valueOver none bytes
  | levels + 1, bytes => valueOver (some (value levels)) bytes

end Dataflow.Json

import Dataflow.Json.Token

/-! # Values that are passed over

The values of unknown fields are checked for their grammar only. They may nest to any depth, for
the open brackets are kept in a list of their own.
-/

namespace Dataflow.Json

/-- Passes over a scalar, or over an opening bracket, which is then returned. -/
def skipToken (bytes : Bytes) : Except Error (Option Bracket × Bytes) :=
  match skipBlanks bytes with
  | [] => .error .endOfText
  | b :: rest =>
    if b = 0x22 then (skipText rest).map (none, ·)
    else if b = 0x5b then .ok (some .list, rest)
    else if b = 0x7b then .ok (some .object, rest)
    else if b = 0x6e then (word ['u', 'l', 'l'] rest).map (none, ·)
    else if b = 0x74 then (word ['r', 'u', 'e'] rest).map (none, ·)
    else if b = 0x66 then (word ['a', 'l', 's', 'e'] rest).map (none, ·)
    else if b = 0x2d || isDigit b then (skipNumber (b :: rest)).map (none, ·)
    else .error .malformed

/-- Passes over the key of a member and its colon; in a list there is none. -/
def skipKey (bracket : Bracket) (bytes : Bytes) : Except Error Bytes :=
  match bracket with
  | .list => .ok bytes
  | .object => do colon (← skipText (← openKey bytes))

/-- Closes all open brackets, innermost first. `first` says that the innermost has no entry yet.
    Every round takes at least one byte, so the text at the start is a clock that never runs out. -/
def skipEntries : (clock : Bytes) → (first : Bool) → List Bracket → Bytes → Except Error Bytes
  | _, _, [], bytes => .ok bytes
  | [], _, _ :: _, _ => .error .endOfText
  | _ :: clock, first, bracket :: outer, bytes => do
    match ← next bracket first bytes with
    | .closed rest => skipEntries clock false outer rest
    | .entry bytes =>
      match ← skipToken (← skipKey bracket bytes) with
      | (none, rest) => skipEntries clock false (bracket :: outer) rest
      | (some inner, rest) => skipEntries clock true (inner :: bracket :: outer) rest

def skip (bytes : Bytes) : Except Error Bytes := do
  match ← skipToken bytes with
  | (none, rest) => .ok rest
  | (some bracket, rest) => skipEntries rest true [bracket] rest

end Dataflow.Json

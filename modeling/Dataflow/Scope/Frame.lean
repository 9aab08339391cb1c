import Dataflow.Model.Error

/-! # Frames

While a model is restored its nodes get new ids. A frame records which stored id became which new
one. A stored id may be registered once; a new id may stand for several stored ones.
-/

namespace Dataflow

/-- Pairs of a stored and a new id, the latest first. -/
structure Frame where
  pairs : List (NodeId × NodeId)
  deriving DecidableEq, Repr

namespace Frame

def empty : Frame := ⟨[]⟩

/-- The new id of a stored one. -/
def get? (frame : Frame) (stored : NodeId) : Option NodeId := frame.pairs.lookup stored

/-- The stored id that was registered last for a new one. -/
def stored? (frame : Frame) (new : NodeId) : Option NodeId :=
  (frame.pairs.find? (·.2 == new)).map (·.1)

/-- Records a pair, if its stored id is not there yet. -/
def register (frame : Frame) (stored new : NodeId) : Except ModelError Frame :=
  if (frame.get? stored).isSome then .error (.duplicateNode stored)
  else .ok ⟨(stored, new) :: frame.pairs⟩

theorem register_eq_ok_iff {frame after : Frame} {stored new : NodeId} :
    frame.register stored new = .ok after ↔
      frame.get? stored = none ∧ after = ⟨(stored, new) :: frame.pairs⟩ := by
  cases h : frame.get? stored <;> simp [register, h, eq_comm]

theorem register_eq_error_iff {frame : Frame} {stored new : NodeId} {e : ModelError} :
    frame.register stored new = .error e ↔
      frame.get? stored ≠ none ∧ e = .duplicateNode stored := by
  cases h : frame.get? stored <;> simp [register, h, eq_comm]

theorem get?_cons (stored new id : NodeId) (pairs : List (NodeId × NodeId)) :
    (Frame.mk ((stored, new) :: pairs)).get? id =
      if id = stored then some new else (Frame.mk pairs).get? id := by
  by_cases h : id = stored
  · simp [get?, h]
  · simp [get?, List.lookup_cons, h, beq_eq_false_iff_ne.2 h]

/-- The new id of the stored id that a node of the given stored id refers to. -/
def resolve (frame : Frame) (referrer stored : NodeId) : Except ModelError NodeId :=
  match frame.get? stored with
  | some new => .ok new
  | none => .error (.danglingReference referrer stored)

def size (frame : Frame) : Nat := frame.pairs.length

def isEmpty (frame : Frame) : Bool := frame.pairs.isEmpty

/-- Replaces ids by their new ones up to the first that has none, which is returned as well. -/
def replaceIds (frame : Frame) : List NodeId → List NodeId × Option NodeId
  | [] => ([], none)
  | stored :: rest =>
    match frame.get? stored with
    | none => (stored :: rest, some stored)
    | some new =>
      let (replaced, missing) := replaceIds frame rest
      (new :: replaced, missing)

/-- Replaces the parents of inputs up to the first that has no new id, which is returned as well. -/
def replaceParents (frame : Frame) : List Input → List Input × Option NodeId
  | [] => ([], none)
  | input :: rest =>
    match frame.replaceIds input.parents with
    | (parents, some missing) => ({ input with parents } :: rest, some missing)
    | (parents, none) =>
      let (replaced, missing) := replaceParents frame rest
      ({ input with parents } :: replaced, missing)

end Frame

namespace Node

/-- Replaces the parents of a node by their new ids, input by input, and gives the distinct ones.
    At a parent without a new id this ends with an error that names the node by its stored id, and
    that parent and all after it stay as they are. -/
def resolveParents (frame : Frame) (node : Node) : Except ModelError (List NodeId) × Node :=
  let (inputs, missing) := frame.replaceParents node.inputs
  let resolved := { node with inputs }
  match missing with
  | some parent =>
    (.error (.danglingReference ((frame.stored? node.id).getD node.id) parent), resolved)
  | none => (.ok resolved.distinctParents, resolved)

end Node

end Dataflow

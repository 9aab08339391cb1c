import Dataflow.Number.Layout
import Dataflow.Value.Attributes

/-! # Nodes

A node computes something from the outputs of other nodes. Its inputs name the nodes it reads from,
its parents, and it keeps a list of the nodes that read from it, its dependents.
-/

namespace Dataflow

/-- The number by which a node is known. -/
structure NodeId where
  raw : UInt64
  deriving DecidableEq, Repr

namespace NodeId

/-- The position that the id stands for in a model. -/
def position (id : NodeId) : Nat := id.raw.toNat

instance : LE NodeId := ⟨fun a b => a.raw ≤ b.raw⟩

instance : LT NodeId := ⟨fun a b => a.raw < b.raw⟩

instance (a b : NodeId) : Decidable (a ≤ b) := inferInstanceAs (Decidable (a.raw ≤ b.raw))

instance (a b : NodeId) : Decidable (a < b) := inferInstanceAs (Decidable (a.raw < b.raw))

theorem le_trans {a b c : NodeId} (hab : a ≤ b) (hbc : b ≤ c) : a ≤ c := UInt64.le_trans hab hbc

theorem le_of_not_le {a b : NodeId} (h : ¬a ≤ b) : b ≤ a :=
  UInt64.le_of_lt (UInt64.not_le.1 h)

/-- The id as it is shown: its number after a hash. -/
def text (id : NodeId) : String := String.ofList ('#' :: decimalDigits id.position)

/-- Ids in the order of their first occurrence, each once. -/
def distinct : List NodeId → List NodeId
  | [] => []
  | id :: rest => id :: (distinct rest).filter (· ≠ id)

@[simp] theorem mem_distinct {id : NodeId} {ids : List NodeId} : id ∈ distinct ids ↔ id ∈ ids := by
  induction ids with
  | nil => simp [distinct]
  | cons head rest ih => by_cases h : id = head <;> simp [distinct, ih, h]

theorem nodup_distinct (ids : List NodeId) : (distinct ids).Nodup := by
  induction ids with
  | nil => simp [distinct]
  | cons head rest ih => exact List.nodup_cons.2 ⟨by simp, List.Pairwise.filter _ ih⟩

end NodeId

/-- A named input of a node and the nodes that feed it, in order. -/
structure Input where
  name : String
  parents : List NodeId
  deriving DecidableEq, Repr

/-- The parents that inputs name, input by input and with repeats. -/
def Input.allParents (inputs : List Input) : List NodeId := inputs.flatMap Input.parents

structure Node where
  id : NodeId
  kind : String
  inputs : List Input
  /-- The nodes that name this one in an input, each once. -/
  dependents : List NodeId
  attributes : Attributes

namespace Node

/-- The parents of a node, input by input and with repeats. -/
def parents (node : Node) : List NodeId := Input.allParents node.inputs

/-- The parents of a node in the order of their first occurrence, each once. -/
def distinctParents (node : Node) : List NodeId := NodeId.distinct node.parents

/-- A source reads from no node. -/
def isSource (node : Node) : Bool := node.parents.isEmpty

/-- No node reads from a sink. -/
def isSink (node : Node) : Bool := node.dependents.isEmpty

def attribute? (node : Node) (name : String) : Option Value := node.attributes.get? name

/-- Adds a dependent unless it is one already. -/
def addDependent (node : Node) (id : NodeId) : Node :=
  if id ∈ node.dependents then node else { node with dependents := node.dependents ++ [id] }

/-- Equality of nodes with attributes compared as numbers go. -/
def same (a b : Node) : Bool :=
  a.id == b.id && a.kind == b.kind && a.inputs == b.inputs && a.dependents == b.dependents &&
    a.attributes.same b.attributes

end Node

end Dataflow

import Dataflow.Proofs.Growth
import Dataflow.Proofs.Restoring
import Dataflow.Storage

/-! # Reachable models

A model starts out empty, restored from a description, or loaded from bytes, and then grows by
attempts to add nodes. Whichever way it came about, its nodes are numbered by position, its links
agree in both directions, and it has no cycle.
-/

namespace Dataflow

namespace Model

theorem load_eq_ok_iff {bytes : Bytes} {format : Format} {model : Model} :
    load bytes format = .ok model ↔
      ∃ description, format.decode bytes = .ok description ∧ restore description = .ok model := by
  simp only [load, Except.bind_eq_ok_iff, Except.mapError_eq_ok_iff]

/-- The models that can come about. -/
inductive Reachable : Model → Prop where
  | empty : Reachable .empty
  | restored {description : ModelDescription} {context : Context} {model : Model} :
      (restoreIn description context).1 = .ok model → Reachable model
  | loaded {bytes : Bytes} {format : Format} {model : Model} :
      load bytes format = .ok model → Reachable model
  | added {model : Model} (blueprint : Blueprint) :
      Reachable model → Reachable (model.tryAdd blueprint)

/-- Ids are positions, links lead to nodes of the model and agree in both directions, and no node is
    its own ancestor. -/
structure Consistent (model : Model) : Prop where
  position : ∀ (k : Nat) (node : Node), model.nodes[k]? = some node → node.id.position = k
  nextId : model.nextId.toNat = model.size
  lookup : ∀ id, model.get? id = model.nodes.find? (·.id = id)
  parents : ∀ node ∈ model.nodes, ∀ input ∈ node.inputs, ∀ id ∈ input.parents,
    ∃ parent ∈ model.nodes, parent.id = id
  dependents : ∀ node ∈ model.nodes, ∀ id ∈ node.dependents,
    ∃ dependent ∈ model.nodes, dependent.id = id
  agree : ∀ a ∈ model.nodes, ∀ b ∈ model.nodes,
    b.id ∈ a.dependents ↔ ∃ input ∈ b.inputs, a.id ∈ input.parents
  ascending : ∀ node ∈ model.nodes, node.dependents.Pairwise (· < ·)
  acyclic : ∀ id, ¬Relation.TransGen model.IsParent id id

variable {model : Model}

theorem WellFormed.consistent (wellFormed : model.WellFormed) : model.Consistent where
  position := wellFormed.linked.numbered
  nextId := wellFormed.linked.nextId
  lookup := wellFormed.linked.get?_eq_find?
  parents := by
    intro node member input port id named
    have isParent : id ∈ node.parents := List.mem_flatMap.2 ⟨input, port, named⟩
    exact List.mem_map.1 (wellFormed.linked.mem_ids_iff.2 (wellFormed.linked.known member isParent))
  dependents := by
    intro node member id isDependent
    obtain ⟨child, present, same, -⟩ := (wellFormed.linked.mem_dependents member).1 isDependent
    exact ⟨child, present, same⟩
  agree := by
    intro a memA b memB
    rw [wellFormed.linked.mem_dependents memA,
      wellFormed.linked.isParent_iff (wellFormed.linked.get?_eq_some_iff.2 ⟨memB, rfl⟩)]
    exact List.mem_flatMap
  ascending := fun node member => wellFormed.linked.ascending member
  acyclic := wellFormed.acyclic

theorem WellFormed.empty : Model.empty.WellFormed where
  linked := linkedUpTo_empty
  acyclic := by
    rw [acyclic_iff_wellFounded]
    constructor
    intro id
    constructor
    rintro parent ⟨node, member, -⟩
    cases member

/-- A restored model is well-formed. -/
theorem WellFormed.restored {description : ModelDescription} {context : Context}
    (ok : (restoreIn description context).1 = .ok model) (room : model.size < UInt64.size) :
    model.WellFormed := by
  rw [size_of_restoreIn ok] at room
  exact ((restoreIn_eq_ok_iff room).1 ok).2.2.1

/-- Both ways of building a model keep its links right and free of cycles. -/
theorem Reachable.wellFormed (reachable : model.Reachable) (room : model.size < UInt64.size) :
    model.WellFormed := by
  induction reachable with
  | empty => exact .empty
  | restored ok => exact .restored ok room
  | loaded ok =>
      obtain ⟨description, -, restored⟩ := load_eq_ok_iff.1 ok
      exact .restored restored room
  | added blueprint _ ih =>
      exact (ih (size_le_size_tryAdd.trans_lt room)).tryAdd room

/-- However a model came about, it is consistent while its ids do not run out. -/
theorem Reachable.stays_consistent (reachable : model.Reachable) (room : model.size < UInt64.size) :
    model.Consistent := (reachable.wellFormed room).consistent

end Model

/-- A description whose nodes stand out of order, name a parent twice, and read from a node of a
    higher id. -/
def ModelDescription.crossed : ModelDescription where
  nodes := [⟨⟨9⟩, "sum", [⟨"left", [⟨4⟩, ⟨4⟩]⟩, ⟨"right", [⟨7⟩]⟩], .empty⟩,
    ⟨⟨4⟩, "scale", [⟨"in", [⟨7⟩]⟩], .empty⟩, ⟨⟨7⟩, "load", [], .empty⟩]

namespace Model

/-- A model in two pieces: what `crossed` describes, and a node of its own. -/
def sample : Model := ((restore .crossed).toOption.getD .empty).tryAdd (.ofKind "note")

theorem reachable_sample : sample.Reachable :=
  .added _ (@Reachable.restored .crossed (.new none) _ rfl)

theorem stays_consistent_sample : sample.size = 4 ∧ sample.Consistent :=
  ⟨rfl, Reachable.stays_consistent reachable_sample (by decide)⟩

end Model

end Dataflow

import Dataflow.Model

/-! # Cycles

Nodes without parents are taken away again and again, together with the links to their dependents.
Nodes that lie on a cycle, or have an ancestor on one, are never taken away, and no others stay.
-/

namespace Dataflow

/-- A model while nodes are taken away. -/
structure Peeling where
  /-- For each position the number of distinct parents that have not been taken away. -/
  degrees : List Nat
  /-- The nodes that can be taken away next. -/
  queue : List NodeId
  /-- How many nodes have been taken away. -/
  ordered : Nat

namespace Peeling

/-- Nothing has been taken away, and the sources can be. -/
def start (model : Model) : Peeling where
  degrees := model.nodes.map fun node => node.distinctParents.length
  queue := (model.nodes.filter fun node => node.distinctParents.isEmpty).map Node.id
  ordered := 0

/-- One parent of the given node has been taken away. After its last parent the node can be. -/
def release (peeling : Peeling) (id : NodeId) : Peeling :=
  match peeling.degrees[id.position]? with
  | none => peeling
  | some degree =>
    { peeling with
      degrees := peeling.degrees.set id.position (degree - 1)
      queue := if degree - 1 = 0 then peeling.queue ++ [id] else peeling.queue }

/-- Takes away at most so many nodes; the number of those taken away in all. -/
def run (model : Model) : (count : Nat) → Peeling → Nat
  | 0, peeling => peeling.ordered
  | count + 1, peeling =>
    match peeling.queue with
    | [] => peeling.ordered
    | id :: queue =>
      let dependents := ((model.get? id).map Node.dependents).getD []
      run model count (dependents.foldl release
        { peeling with queue, ordered := peeling.ordered + 1 })

end Peeling

namespace Model

/-- How many nodes can be put in an order in which each comes after its parents. -/
def orderedCount (model : Model) : Nat := Peeling.run model model.size (Peeling.start model)

/-- Whether all nodes can be put in order; otherwise the number of those that cannot. -/
def checkAcyclic (model : Model) : Except ModelError Unit :=
  if model.orderedCount < model.size then
    .error (.cyclicGraph (model.size - model.orderedCount))
  else .ok ()

end Model

end Dataflow

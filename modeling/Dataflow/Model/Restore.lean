import Dataflow.Description
import Dataflow.Model.Cycle
import Dataflow.Scope.Context

/-! # Restoring models

A description is turned into a model in a scope of its own. First the nodes are registered in the
order of their ids, so that they get new ids from zero up in the same order; then the parents of
each are replaced by their new ids and learn of their dependents; and last the result is checked
for cycles.
-/

namespace Dataflow

namespace NodeDescription

/-- Puts a description before the first one whose id is not smaller. -/
def insertById (node : NodeDescription) : List NodeDescription → List NodeDescription
  | [] => [node]
  | other :: rest =>
    if node.id ≤ other.id then node :: other :: rest else other :: insertById node rest

/-- Descriptions in the order of their ids; those of one id keep their order. -/
def sortById (nodes : List NodeDescription) : List NodeDescription :=
  nodes.foldr insertById []

theorem insertById_perm (node : NodeDescription) (nodes : List NodeDescription) :
    (insertById node nodes).Perm (node :: nodes) := by
  induction nodes with
  | nil => exact .refl _
  | cons other rest ih =>
    simp only [insertById]
    split
    · exact .refl _
    · exact (ih.cons other).trans (.swap node other rest)

theorem sortById_perm (nodes : List NodeDescription) : (sortById nodes).Perm nodes := by
  induction nodes with
  | nil => exact .refl _
  | cons node rest ih => exact (insertById_perm node _).trans (ih.cons node)

theorem pairwise_insertById {node : NodeDescription} {nodes : List NodeDescription}
    (h : nodes.Pairwise fun a b => a.id ≤ b.id) :
    (insertById node nodes).Pairwise fun a b => a.id ≤ b.id := by
  induction nodes with
  | nil => simp [insertById]
  | cons other rest ih =>
    obtain ⟨least, rest_sorted⟩ := List.pairwise_cons.1 h
    simp only [insertById]
    split
    · next first =>
      refine List.pairwise_cons.2 ⟨fun b hb => ?_, h⟩
      rcases List.mem_cons.1 hb with rfl | hb
      · exact first
      · exact NodeId.le_trans first (least b hb)
    · next later =>
      refine List.pairwise_cons.2 ⟨fun b hb => ?_, ih rest_sorted⟩
      rcases List.mem_cons.1 ((insertById_perm node rest).mem_iff.1 hb) with rfl | hb
      · exact NodeId.le_of_not_le later
      · exact least b hb

/-- Sorting puts ids in ascending order. -/
theorem pairwise_sortById (nodes : List NodeDescription) :
    (sortById nodes).Pairwise fun a b => a.id ≤ b.id := by
  induction nodes with
  | nil => exact .nil
  | cons node rest ih => exact pairwise_insertById ih

end NodeDescription

namespace Model

/-- Registers a described node under the next id of the model and appends it. Its inputs keep the
    stored ids. -/
def registerNode (scope : Scope) (model : Model) (node : NodeDescription) :
    Except ModelError (Scope × Model) :=
  if scope.context.registry.any fun registry => !registry.contains node.kind then
    .error (.unknownKind node.kind)
  else
    (scope.register node.id ⟨model.nextId⟩).map fun scope =>
      (scope, model.append node.kind node.inputs node.attributes)

/-- Registers described nodes one after the other, and gives the scope also after an error. -/
def registerNodes (scope : Scope) (model : Model) :
    List NodeDescription → Except ModelError Model × Scope
  | [] => (.ok model, scope)
  | node :: rest =>
    match registerNode scope model node with
    | .error e => (.error e, scope)
    | .ok (scope, model) => registerNodes scope model rest

/-- Makes a node a dependent of each of the given parents, which have to be there. -/
def linkParents (model : Model) (id : NodeId) (parents : List NodeId) : Except ModelError Model :=
  parents.foldlM (fun model parent =>
    if model.contains parent then .ok (model.link id [parent])
    else .error (.unknownNode parent)) model

/-- Replaces the parents of a node by their new ids and makes it their dependent. -/
def linkNode (frame : Frame) (model : Model) (id : NodeId) : Except ModelError Model :=
  match model.get? id with
  | none => .ok model
  | some node =>
    let (parents, resolved) := node.resolveParents frame
    parents >>= linkParents { model with nodes := model.nodes.set id.position resolved } id

/-- Links all nodes in storage order. -/
def linkNodes (frame : Frame) (model : Model) : Except ModelError Model :=
  (model.nodes.map Node.id).foldlM (linkNode frame) model

/-- The model that a description stands for, restored in a context, and the context afterwards. -/
def restoreIn (description : ModelDescription) (context : Context) :
    Except ModelError Model × Context :=
  let (registered, scope) :=
    registerNodes context.openScope .empty (NodeDescription.sortById description.nodes)
  let restored := do
    let model ← linkNodes scope.frame (← registered)
    model.checkAcyclic
    .ok model
  (restored, scope.close)

/-- The model that a description stands for. -/
def restore (description : ModelDescription) : Except ModelError Model :=
  (restoreIn description (.new none)).1

end Model

end Dataflow

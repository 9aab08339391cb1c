import Dataflow.Proofs.Cycles

/-! # Orders that respect parents

A traversal keeps the ids that it has produced, the latest first. Each id was new when it was
produced, and all of its parents had been produced before.
-/

namespace Dataflow

open Relation

namespace Model

/-- Ids of nodes, each of which stands before its parents and occurs once. -/
inductive Scheduled (model : Model) : List NodeId → Prop where
  | nil : Scheduled model []
  | cons {node : Node} {produced : List NodeId} : node ∈ model.nodes → node.id ∉ produced →
      (∀ parent ∈ node.parents, parent ∈ produced) → Scheduled model produced →
      Scheduled model (node.id :: produced)

/-- Every id comes after all parents of its node. -/
def RespectsParents (model : Model) (order : List NodeId) : Prop :=
  ∀ before id after, order = before ++ id :: after →
    ∀ parent, model.IsParent parent id → parent ∈ before

namespace Scheduled

variable {model : Model} {produced : List NodeId}

theorem nodup (scheduled : model.Scheduled produced) : produced.Nodup := by
  induction scheduled with
  | nil => exact .nil
  | cons _ new _ _ ih => exact List.nodup_cons.2 ⟨new, ih⟩

theorem known (scheduled : model.Scheduled produced) (linked : model.Linked) :
    ∀ id ∈ produced, model.contains id := by
  induction scheduled with
  | nil => simp
  | cons member _ _ _ ih =>
      exact List.forall_mem_cons.2 ⟨contains_iff.2 (linked.numbered.position_lt member), ih⟩

theorem length_le_size (scheduled : model.Scheduled produced) (linked : model.Linked) :
    produced.length ≤ model.size :=
  linked.length_le_size scheduled.nodup (scheduled.known linked)

/-- Whatever stands behind an id includes all of its parents. -/
theorem parent_mem (scheduled : model.Scheduled produced) (linked : model.Linked)
    {later earlier : List NodeId} {parent id : NodeId} (place : produced = later ++ id :: earlier)
    (isParent : model.IsParent parent id) : parent ∈ earlier := by
  induction scheduled generalizing later with
  | nil => exact absurd place.symm (List.append_ne_nil_of_right_ne_nil _ (List.cons_ne_nil _ _))
  | cons member _ parents _ ih =>
      cases later with
      | nil =>
          obtain ⟨rfl, rfl⟩ := List.cons.inj place
          exact parents parent
            ((linked.isParent_iff (linked.get?_eq_some_iff.2 ⟨member, rfl⟩)).1 isParent)
      | cons first later => exact ih (List.cons.inj place).2

theorem respectsParents (scheduled : model.Scheduled produced) (linked : model.Linked) :
    model.RespectsParents produced.reverse := by
  intro before id after place parent isParent
  have place' : produced = after.reverse ++ id :: before.reverse := by
    rw [← List.reverse_reverse produced, place]
    simp
  exact List.mem_reverse.1 (scheduled.parent_mem linked place' isParent)

/-- With an id, all its ancestors have been produced. -/
theorem ancestor_mem (scheduled : model.Scheduled produced) (linked : model.Linked)
    {ancestor id : NodeId} (path : ReflTransGen model.IsParent ancestor id) (done : id ∈ produced) :
    ancestor ∈ produced := by
  induction path using ReflTransGen.head_induction_on with
  | refl => exact done
  | head isParent _ ih =>
      obtain ⟨later, earlier, place⟩ := List.append_of_mem ih
      rw [place]
      have behind := scheduled.parent_mem linked place isParent
      exact List.mem_append_right _ (List.mem_cons_of_mem _ behind)

end Scheduled

end Model

end Dataflow

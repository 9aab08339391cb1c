import Dataflow.Proofs.Cycles

/-! # Adding nodes

A node is added only when the model has all its parents. It then stands behind all other nodes, is
told to its parents, and is nobody's parent, so no cycle can arise.
-/

namespace Dataflow

open Relation

namespace Blueprint

/-- The parents that a node made from a blueprint reads from, with repeats. -/
def parents (blueprint : Blueprint) : List NodeId := Input.allParents blueprint.inputs

/-- The node made from a blueprint, which nobody reads from yet. -/
def node (blueprint : Blueprint) (id : NodeId) : Node where
  id := id
  kind := blueprint.kind
  inputs := blueprint.inputs
  dependents := []
  attributes := blueprint.attributes

end Blueprint

namespace Model

variable {model : Model} {blueprint : Blueprint}

/-- The id that the next node gets. -/
def freshId (model : Model) : NodeId := ⟨model.nextId⟩

/-- The model with a node added whose parents are all there. -/
def extend (model : Model) (blueprint : Blueprint) : Model where
  nodes := model.nodes.map (Node.learn model.freshId (NodeId.distinct blueprint.parents)) ++
    [blueprint.node model.freshId]
  nextId := model.nextId + 1

theorem Linked.ne_freshId (linked : model.Linked) {id : NodeId} (known : model.contains id) :
    id ≠ model.freshId := by
  rintro rfl
  exact absurd linked.nextId (Nat.ne_of_lt (contains_iff.1 known))

theorem add_eq_ok_iff (numbered : Numbered model.nodes) {id : NodeId} {after : Model} :
    model.add blueprint = .ok (id, after) ↔
      (∀ parent ∈ blueprint.parents, model.contains parent) ∧
        id = model.freshId ∧ after = model.extend blueprint := by
  unfold add
  dsimp only
  split
  · next missing found =>
    have named := List.mem_of_find?_eq_some found
    have absent := List.find?_some found
    constructor
    · intro impossible
      cases impossible
    · rintro ⟨known, -⟩
      have present := known missing named
      simp [present] at absent
  · next none =>
    have known : ∀ parent ∈ blueprint.parents, model.contains parent := by
      intro parent named
      simpa using List.find?_eq_none.1 none parent named
    have result : (model.link ⟨model.nextId⟩ (NodeId.distinct blueprint.parents)).append
        blueprint.kind blueprint.inputs blueprint.attributes = model.extend blueprint := by
      simp only [append, nodes_link model numbered]
      rfl
    rw [← result]
    constructor
    · intro same
      obtain ⟨rfl, rfl⟩ := Prod.mk.inj (Except.ok.inj same)
      exact ⟨known, rfl, rfl⟩
    · rintro ⟨-, rfl, rfl⟩
      rfl

@[simp] theorem size_extend : (model.extend blueprint).size = model.size + 1 := by
  simp [extend, size]

/-- Adding a node is the same as appending it and then telling its parents of it. -/
theorem extend_eq_link (linked : model.Linked)
    (known : ∀ parent ∈ blueprint.parents, model.contains parent) :
    model.extend blueprint =
      (model.append blueprint.kind blueprint.inputs blueprint.attributes).link model.freshId
        (NodeId.distinct blueprint.parents) := by
  have numbered : Numbered
      (model.append blueprint.kind blueprint.inputs blueprint.attributes).nodes :=
    linked.numbered.append linked.nextId
  have untold : model.freshId ∉ NodeId.distinct blueprint.parents := fun named =>
    linked.ne_freshId (known _ (NodeId.mem_distinct.1 named)) rfl
  have nodes : (model.extend blueprint).nodes =
      ((model.append blueprint.kind blueprint.inputs blueprint.attributes).link model.freshId
        (NodeId.distinct blueprint.parents)).nodes := by
    rw [nodes_link _ numbered]
    simp only [extend, append, List.map_append, List.map_cons, List.map_nil]
    congr 2
    exact (if_neg untold).symm
  exact congrArg (Model.mk · (model.nextId + 1)) nodes

/-- The parents of old nodes stay as they were. -/
theorem isParent_extend {parent child : NodeId} : (model.extend blueprint).IsParent parent child ↔
    model.IsParent parent child ∨ child = model.freshId ∧ parent ∈ blueprint.parents := by
  constructor
  · rintro ⟨node, member, same, isParent⟩
    rcases List.mem_append.1 member with old | new
    · obtain ⟨before, present, rfl⟩ := List.mem_map.1 old
      exact .inl ⟨before, present, by simpa using same, by simpa using isParent⟩
    · obtain rfl := List.mem_singleton.1 new
      exact .inr ⟨same.symm, isParent⟩
  · rintro (⟨node, member, rfl, isParent⟩ | ⟨rfl, isParent⟩)
    · refine ⟨_, List.mem_append_left _ (List.mem_map_of_mem member), by simp, ?_⟩
      simpa using isParent
    · exact ⟨_, List.mem_append_right _ (List.mem_singleton.2 rfl), rfl, isParent⟩

theorem Linked.extend (linked : model.Linked) (room : model.size + 1 < UInt64.size)
    (known : ∀ parent ∈ blueprint.parents, model.contains parent) :
    (model.extend blueprint).Linked := by
  have appended := LinkedUpTo.append linked (Nat.le_refl _) room
    blueprint.kind blueprint.inputs blueprint.attributes
  have next : (model.append blueprint.kind blueprint.inputs blueprint.attributes).nodes[model.size]?
      = some (blueprint.node model.freshId) := by
    simp [append, size, Blueprint.node, freshId]
  have step := appended.link next (by
    intro parent named
    rw [contains_iff, size_append]
    exact Nat.lt_succ_of_lt (contains_iff.1 (known parent named)))
  unfold Linked
  rw [size_extend, extend_eq_link linked known]
  exact step

theorem Acyclic.extend (acyclic : model.Acyclic) (linked : model.Linked)
    (known : ∀ parent ∈ blueprint.parents, model.contains parent) :
    (model.extend blueprint).Acyclic := by
  rw [acyclic_iff_wellFounded] at acyclic ⊢
  have old : ∀ id, id ≠ model.freshId → Acc (model.extend blueprint).IsParent id := by
    intro id different
    induction acyclic.apply id with
    | intro id _ ih =>
        constructor
        intro parent isParent
        rcases isParent_extend.1 isParent with before | ⟨same, -⟩
        · exact ih parent before (linked.ne_freshId (linked.contains_parent before))
        · exact absurd same different
  constructor
  intro id
  constructor
  intro parent isParent
  rcases isParent_extend.1 isParent with before | ⟨-, named⟩
  · exact old parent (linked.ne_freshId (linked.contains_parent before))
  · exact old parent (linked.ne_freshId (known parent named))

theorem WellFormed.extend (wellFormed : model.WellFormed) (room : model.size + 1 < UInt64.size)
    (known : ∀ parent ∈ blueprint.parents, model.contains parent) :
    (model.extend blueprint).WellFormed where
  linked := wellFormed.linked.extend room known
  acyclic := wellFormed.acyclic.extend wellFormed.linked known

/-- The model after an attempt to add a node. A rejected one leaves it as it was. -/
def tryAdd (model : Model) (blueprint : Blueprint) : Model :=
  match model.add blueprint with
  | .ok (_, after) => after
  | .error _ => model

/-- Nodes are only ever added. -/
theorem size_le_size_tryAdd : model.size ≤ (model.tryAdd blueprint).size := by
  unfold tryAdd add
  dsimp only
  split
  · next id after added =>
    split at added
    · cases added
    · cases added
      rw [size_append, size_link]
      exact Nat.le_succ _
  · exact Nat.le_refl _

theorem WellFormed.tryAdd (wellFormed : model.WellFormed)
    (room : (model.tryAdd blueprint).size < UInt64.size) :
    (model.tryAdd blueprint).WellFormed := by
  unfold Model.tryAdd at room ⊢
  cases added : model.add blueprint with
  | error e => exact wellFormed
  | ok result =>
      obtain ⟨id, after⟩ := result
      obtain ⟨known, rfl, rfl⟩ := (add_eq_ok_iff wellFormed.linked.numbered).1 added
      simp only [added, size_extend] at room
      exact wellFormed.extend room known

end Model

end Dataflow

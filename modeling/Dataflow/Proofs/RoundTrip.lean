import Dataflow.Proofs.Coverage

/-! # Restoring a described model

A description lists the nodes of a model in the order of its schedule. Sorting them by id brings
back the storage order, each id counts the smaller ones already, and the dependents follow from the
inputs. So a model comes back as it was.
-/

namespace Dataflow

namespace NodeDescription

theorem rename_eq_self {f : NodeId → NodeId} {described : NodeDescription}
    (id : f described.id = described.id)
    (parents : ∀ parent ∈ described.parents, f parent = parent) :
    described.rename f = described := by
  have same : described.rename f = described.rename fun id => id := rename_congr id parents
  rw [same, rename, renameParents, Input.map_rename_id]

/-- Sorting brings descriptions with different ids into their only ascending order. -/
theorem sortById_eq {nodes sorted : List NodeDescription} (perm : nodes.Perm sorted)
    (ascending : sorted.Pairwise fun a b => a.id < b.id) : sortById nodes = sorted := by
  have once : (nodes.map NodeDescription.id).Nodup := by
    rw [(perm.map NodeDescription.id).nodup_iff, List.Nodup, List.pairwise_map]
    exact ascending.imp fun less => ne_of_lt less
  apply ((sortById_perm nodes).trans perm).eq_of_pairwise _ (pairwise_lt_sortById once) ascending
  intro a b _ _ less greater
  exact absurd greater (lt_asymm less)

end NodeDescription

namespace Model

variable {model : Model}

namespace WellFormed

theorem describe_perm (wellFormed : model.WellFormed) :
    model.describe.nodes.Perm (model.nodes.map NodeDescription.ofNode) :=
  wellFormed.schedule_perm.map _

theorem pairwise_description (wellFormed : model.WellFormed) :
    (model.nodes.map NodeDescription.ofNode).Pairwise fun a b => a.id < b.id :=
  List.pairwise_map.2 wellFormed.linked.numbered.pairwise_id

/-- Ids of a described model keep their rank. -/
theorem rank_describe (wellFormed : model.WellFormed) {id : NodeId} (known : model.contains id) :
    model.describe.rank id = id := by
  obtain ⟨node, found⟩ := contains_iff_get?.1 known
  obtain ⟨member, rfl⟩ := wellFormed.linked.get?_eq_some_iff.1 found
  have place : (model.nodes.map NodeDescription.ofNode)[node.id.position]? =
      some (.ofNode node) := by
    rw [List.getElem?_map, wellFormed.linked.numbered.getElem? member, Option.map_some]
  have count := NodeDescription.countP_lt wellFormed.pairwise_description place
  rw [ModelDescription.rank, wellFormed.describe_perm.countP_eq]
  exact (congrArg NodeId.ofNat count).trans (NodeId.ofNat_position _)

theorem ranked_describe (wellFormed : model.WellFormed) :
    model.describe.ranked = model.nodes.map NodeDescription.ofNode := by
  rw [ModelDescription.ranked,
    NodeDescription.sortById_eq wellFormed.describe_perm wellFormed.pairwise_description,
    List.map_map]
  apply List.map_congr_left
  intro node member
  apply NodeDescription.rename_eq_self
  · exact wellFormed.rank_describe (contains_iff.2 (wellFormed.linked.numbered.position_lt member))
  · intro parent named
    exact wellFormed.rank_describe (wellFormed.linked.known member named)

/-- Describing a model and restoring it gives the same model. -/
theorem restore_describe (wellFormed : model.WellFormed) {context : Context}
    (accepted : ∀ node ∈ model.nodes, context.Accepts node.kind) :
    restoreIn model.describe context = (.ok model, context) := by
  have perm := wellFormed.describe_perm
  have ids : (model.describe.nodes.map NodeDescription.id).Perm (model.nodes.map Node.id) := by
    simpa [Function.comp_def, NodeDescription.ofNode] using perm.map NodeDescription.id
  have room : model.describe.size < UInt64.size := by
    rw [ModelDescription.size, perm.length_eq, List.length_map]
    exact wellFormed.linked.size_lt
  have restored : (restoreIn model.describe context).1 = .ok model := by
    rw [restoreIn_eq_ok_iff room]
    refine ⟨⟨?_, ids.nodup_iff.2 wellFormed.linked.numbered.nodup_ids⟩, ?_, wellFormed,
      wellFormed.ranked_describe.symm⟩
    · intro described member
      obtain ⟨node, present, rfl⟩ := List.mem_map.1 (perm.mem_iff.1 member)
      exact accepted node present
    · intro described member parent named
      obtain ⟨node, present, rfl⟩ := List.mem_map.1 (perm.mem_iff.1 member)
      rw [ids.mem_iff, wellFormed.linked.mem_ids_iff]
      exact wellFormed.linked.known present named
  exact Prod.ext restored (context_of_restoreIn _ _)

end WellFormed

/-- A reachable model comes back as it was from its description, in any context that accepts its
    kinds, and the context stays as it was. -/
theorem Reachable.restoreIn_describe (reachable : model.Reachable)
    (room : model.size < UInt64.size) {context : Context}
    (accepted : ∀ registry, context.registry = some registry →
      ∀ node ∈ model.nodes, registry.contains node.kind) :
    restoreIn model.describe context = (.ok model, context) :=
  (reachable.wellFormed room).restore_describe fun node member registry shared =>
    accepted registry shared node member

end Model

/-- A context with a scope open, and a registry that holds the kinds of the sample model. -/
def Context.sample : Context where
  registry := some (.ofList ["load", "scale", "sum", "note", "print"])
  frames := [⟨[(⟨3⟩, ⟨0⟩), (⟨1⟩, ⟨2⟩)]⟩]

theorem Model.restoreIn_describe_sample :
    restoreIn sample.describe .sample = (.ok sample, .sample) :=
  Reachable.restoreIn_describe reachable_sample (by decide) (by
    rintro _ ⟨⟩
    decide)

end Dataflow

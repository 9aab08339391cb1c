import Dataflow.Proofs.Halting

/-! # Outputs that need the whole model

Nothing reads from a sink, so a sink is needed only for itself; and every node is needed for some
sink, the one to which first dependents lead. Main statement: a traversal with outputs produces the
whole model if and only if all sinks are among the outputs.
-/

namespace Dataflow

open Relation

namespace Model

variable {model : Model} {outputs : List NodeId}

theorem mem_sinks {node : Node} :
    node ∈ model.sinks ↔ node ∈ model.nodes ∧ node.dependents = [] := by
  simp [sinks, Node.isSink]

/-- A sink is an ancestor of nothing. -/
theorem Linked.eq_of_isAncestor_of_mem_sinks (linked : model.Linked) {sink : Node} {id : NodeId}
    (isSink : sink ∈ model.sinks) (path : ReflTransGen model.IsParent sink.id id) :
    id = sink.id := by
  obtain ⟨member, none⟩ := mem_sinks.1 isSink
  rcases path.cases_head with same | ⟨child, isParent, -⟩
  · exact same.symm
  · have isDependent := (linked.mem_dependents member).2 isParent
    rw [none] at isDependent
    cases isDependent

/-- Every node is a sink or an ancestor of one. -/
theorem WellFormed.exists_sink (wellFormed : model.WellFormed) {node : Node}
    (member : node ∈ model.nodes) :
    ∃ sink ∈ model.sinks, ReflTransGen model.IsParent node.id sink.id := by
  obtain ⟨sink, isNode, sinkOf, -⟩ := wellFormed.exists_sinkOf member
  exact ⟨sink, mem_sinks.2 ⟨isNode, sinkOf.isSink⟩, sinkOf.isAncestor wellFormed.linked member⟩

theorem WellFormed.forall_needed_iff (wellFormed : model.WellFormed) :
    (∀ node ∈ model.nodes, model.Needed outputs node.id) ↔
      ∀ sink ∈ model.sinks, sink.id ∈ outputs := by
  constructor
  · intro needed sink isSink
    obtain ⟨output, given, path⟩ := needed sink (mem_sinks.1 isSink).1
    rwa [← wellFormed.linked.eq_of_isAncestor_of_mem_sinks isSink path]
  · intro given node member
    obtain ⟨sink, isSink, path⟩ := wellFormed.exists_sink member
    exact ⟨sink.id, given sink isSink, path⟩

theorem Covers.mem_iff_needed {nodes : List Node} (covers : model.Covers outputs nodes)
    (linked : model.Linked) (given : outputs ≠ []) {node : Node} :
    node ∈ nodes ↔ node ∈ model.nodes ∧ model.Needed outputs node.id := by
  constructor
  · intro produced
    have asked := (covers.mem_iff node.id).1 (List.mem_map_of_mem produced)
    exact ⟨covers.members node produced, asked.2.resolve_left given⟩
  · rintro ⟨member, needed⟩
    have known : model.contains node.id := contains_iff.2 (linked.numbered.position_lt member)
    obtain ⟨other, produced, same⟩ :=
      List.mem_map.1 ((covers.mem_iff node.id).2 ⟨known, .inr needed⟩)
    rwa [← linked.numbered.eq_of_id_eq (covers.members other produced) member same]

/-- A traversal of a reachable model with outputs produces the same nodes as one of the whole model
    if and only if every sink is among the outputs, whatever else is. -/
theorem Reachable.produces_all_iff (reachable : model.Reachable) (room : model.size < UInt64.size)
    (given : outputs ≠ []) (known : ∀ output ∈ outputs, output ∈ model.nodes.map Node.id) :
    ∃ first whole nodes all, model.traversal outputs = .ok first ∧ first.Gives nodes ∧
      model.traversal [] = .ok whole ∧ whole.Gives all ∧
      ((∀ node, node ∈ nodes ↔ node ∈ all) ↔ ∀ sink ∈ model.sinks, sink.id ∈ outputs) := by
  have wellFormed := reachable.wellFormed room
  have linked := wellFormed.linked
  simp only [linked.mem_ids_iff] at known
  have knownNone : ∀ output ∈ ([] : List NodeId), model.contains output := List.forall_mem_nil _
  obtain ⟨nodes, last, run, ends⟩ := (Traversal.Sound.start known).exists_run linked
  obtain ⟨all, last', run', ends'⟩ := (Traversal.Sound.start knownNone).exists_run linked
  have covers := wellFormed.covers_of_run known run ends
  have coversAll := wellFormed.covers_of_run knownNone run' ends'
  refine ⟨_, _, nodes, all, traversal_eq_ok known, ⟨last, run, ends⟩, traversal_eq_ok knownNone,
    ⟨last', run', ends'⟩, ?_⟩
  rw [← wellFormed.forall_needed_iff]
  simp only [covers.mem_iff_needed linked given, (coversAll.perm linked).mem_iff]
  constructor
  · intro same node member
    exact ((same node).2 member).2
  · intro needed node
    exact ⟨And.left, fun member => ⟨member, needed node member⟩⟩

/-- The last two nodes of `sample` are its sinks. -/
theorem produces_all_iff_sample : ∃ first whole nodes all,
    sample.traversal [⟨3⟩, ⟨0⟩, ⟨2⟩, ⟨3⟩] = .ok first ∧ first.Gives nodes ∧
    sample.traversal [] = .ok whole ∧ whole.Gives all ∧ ∀ node, node ∈ nodes ↔ node ∈ all := by
  obtain ⟨first, whole, nodes, all, accepted, gives, accepted', gives', same⟩ :=
    Reachable.produces_all_iff reachable_sample (by decide)
      (List.cons_ne_nil ⟨3⟩ [⟨0⟩, ⟨2⟩, ⟨3⟩]) (by decide)
  refine ⟨first, whole, nodes, all, accepted, gives, accepted', gives', same.2 ?_⟩
  decide

end Model

end Dataflow

import Dataflow.Proofs.Reachable

/-! # What adding a node changes

A node whose parents are not all there is refused, and the model stays as it is. Any other node is
put behind those there are, and each of its parents gets one dependent more. Main statement: the two
outcomes, with all that is left alone.
-/

namespace Dataflow

/-- The node with one more dependent behind those it has. -/
def Node.withDependent (node : Node) (id : NodeId) : Node :=
  { node with dependents := node.dependents ++ [id] }

theorem Node.learn_of_new {node : Node} {id : NodeId} {parents : List NodeId}
    (new : id ∉ node.dependents) :
    node.learn id parents = if node.id ∈ parents then node.withDependent id else node := by
  simp only [learn, addDependent, if_neg new, withDependent]

namespace Model

variable {model : Model} {blueprint : Blueprint}

theorem Linked.not_contains_freshId (linked : model.Linked) : ¬model.contains model.freshId :=
  fun known => linked.ne_freshId known rfl

/-- Nobody knows the next node before it is there. -/
theorem Linked.freshId_notMem_dependents (linked : model.Linked) {node : Node}
    (member : node ∈ model.nodes) : model.freshId ∉ node.dependents := by
  intro isDependent
  obtain ⟨child, present, same, -⟩ := (linked.mem_dependents member).1 isDependent
  have known := contains_iff.2 (linked.numbered.position_lt present)
  exact linked.ne_freshId known same

/-- All parents of the blueprint get the new node as their last dependent. -/
theorem Linked.extend_eq (linked : model.Linked) (blueprint : Blueprint) :
    model.extend blueprint =
      { nodes := model.nodes.map (fun node =>
            if node.id ∈ blueprint.parents then node.withDependent model.freshId else node) ++
          [blueprint.node model.freshId]
        nextId := model.nextId + 1 } := by
  have told : model.nodes.map (Node.learn model.freshId (NodeId.distinct blueprint.parents)) =
      model.nodes.map fun node =>
        if node.id ∈ blueprint.parents then node.withDependent model.freshId else node := by
    apply List.map_congr_left
    intro node member
    rw [Node.learn_of_new (linked.freshId_notMem_dependents member)]
    simp only [NodeId.mem_distinct]
  rw [Model.extend, told]

/-- A node is refused for its first parent that is not there, or all its parents are there. -/
theorem add_cases (linked : model.Linked) (blueprint : Blueprint) :
    (∃ before missing later, blueprint.parents = before ++ missing :: later ∧
        (∀ parent ∈ before, model.contains parent) ∧ ¬model.contains missing ∧
        model.add blueprint = .error (.unknownNode missing)) ∨
      (∀ parent ∈ blueprint.parents, model.contains parent) ∧
        model.add blueprint = .ok (model.freshId, model.extend blueprint) := by
  cases search : blueprint.parents.find? fun parent => !model.contains parent with
  | none =>
      have known : ∀ parent ∈ blueprint.parents, model.contains parent := by
        intro parent named
        simpa using List.find?_eq_none.1 search parent named
      exact .inr ⟨known, (add_eq_ok_iff linked.numbered).2 ⟨known, rfl, rfl⟩⟩
  | some missing =>
      obtain ⟨absent, before, later, split, earlier⟩ := List.find?_eq_some_iff_append.1 search
      refine .inl ⟨before, missing, later, split, ?_, by simpa using absent, ?_⟩
      · intro parent named
        simpa using earlier parent named
      · rw [Blueprint.parents] at search
        simp only [add, search]

/-- Adding a node fails exactly if one of its parents is not there, be it the next id itself. The
    first one is reported, and the model stays, so that the next node gets the id it would have got.
    Otherwise the node stands behind the others under the next id, which is the number of nodes
    before, and has become the last dependent of each of its parents, once; nothing else has
    changed. -/
theorem Reachable.add_outcome (reachable : model.Reachable) (room : model.size < UInt64.size)
    (blueprint : Blueprint) :
    ((∃ e, model.add blueprint = .error e) ↔
        ∃ parent ∈ blueprint.parents, ¬model.contains parent) ∧
      ¬model.contains model.freshId ∧ model.freshId.position = model.size ∧
      ((∃ before missing later, blueprint.parents = before ++ missing :: later ∧
          (∀ parent ∈ before, model.contains parent) ∧ ¬model.contains missing ∧
          model.add blueprint = .error (.unknownNode missing) ∧
          model.tryAdd blueprint = model ∧
          ∀ next, (model.tryAdd blueprint).add next = model.add next) ∨
        (∀ parent ∈ blueprint.parents, model.contains parent) ∧
          model.add blueprint = .ok (model.freshId,
            { nodes := model.nodes.map (fun node =>
                  if node.id ∈ blueprint.parents then node.withDependent model.freshId
                  else node) ++
                [blueprint.node model.freshId]
              nextId := model.nextId + 1 })) := by
  have linked := (reachable.wellFormed room).linked
  refine ⟨?_, linked.not_contains_freshId, linked.nextId, ?_⟩
  · obtain ⟨before, missing, later, split, -, unknown, refused⟩ | ⟨known, added⟩ :=
      add_cases linked blueprint
    · exact iff_of_true ⟨_, refused⟩ ⟨missing, by simp [split], unknown⟩
    · refine iff_of_false (by simp [added]) ?_
      intro unknown
      obtain ⟨parent, named, absent⟩ := unknown
      exact absent (known parent named)
  · refine (add_cases linked blueprint).imp ?_ ?_
    · intro refused
      obtain ⟨before, missing, later, split, known, unknown, refused⟩ := refused
      have stays : model.tryAdd blueprint = model := by rw [tryAdd, refused]
      exact ⟨before, missing, later, split, known, unknown, refused, stays, fun _ => by rw [stays]⟩
    · intro taken
      rwa [linked.extend_eq blueprint] at taken

/-- A node that names one parent in two inputs is added, and makes this parent no sink. One that
    names the next id is refused. -/
theorem add_outcome_sample :
    let blueprint := ((Blueprint.ofKind "sum").withInput "a" [⟨3⟩, ⟨0⟩]).withInput "b" [⟨3⟩]
    let ahead := (Blueprint.ofKind "sum").withInput "a" [⟨0⟩, ⟨4⟩]
    sample.Reachable ∧ sample.size < UInt64.size ∧ (∃ e, sample.add ahead = .error e) ∧
      ∃ after, sample.add blueprint = .ok (⟨4⟩, after) ∧
        after.nodes.map (fun node => node.dependents.map NodeId.position) =
          [[2, 4], [0, 2], [], [4], []] := by
  intro blueprint ahead
  have room : sample.size < UInt64.size := by decide
  refine ⟨reachable_sample, room, ?_, ?_⟩
  · exact (Reachable.add_outcome reachable_sample room ahead).1.2
      ⟨⟨4⟩, by decide, by decide⟩
  · obtain ⟨-, -, -, refused | ⟨-, added⟩⟩ :=
      Reachable.add_outcome reachable_sample room blueprint
    · obtain ⟨before, missing, later, -, -, -, refused, -⟩ := refused
      cases refused
    · exact ⟨_, added, rfl⟩

end Model

end Dataflow

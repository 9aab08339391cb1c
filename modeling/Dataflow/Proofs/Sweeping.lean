import Dataflow.Proofs.Exploring

/-! # The order of a whole model

Without outputs a traversal goes over the nodes in storage order. From the first one that is missing
it follows first dependents to a sink, and explores the model from there. When it gets back to an
empty stack it goes on from the node where it was, which has been produced. Main statement: so the
order of the whole model, in which it is also described, is given by a recursion.
-/

namespace Dataflow

open Relation

namespace Model

/-- Going over nodes in their order, and visiting the sink of each that is still missing. `produced`
    are the ids produced before, and `after` those produced in the end, in order. -/
inductive Sweeps (model : Model) :
    (produced : List NodeId) → (nodes : List Node) → (after : List NodeId) → Prop where
  | nil {produced : List NodeId} : Sweeps model produced [] produced
  | passed {produced after : List NodeId} {node : Node} {rest : List Node} :
      node.id ∈ produced → Sweeps model produced rest after →
      Sweeps model produced (node :: rest) after
  | seeded {produced middle after : List NodeId} {node sink : Node} {rest : List Node} :
      node.id ∉ produced → model.SinkOf node sink →
      model.Explores Node.dependents produced [sink.id] middle → Sweeps model middle rest after →
      Sweeps model produced (node :: rest) after

end Model

namespace Traversal

variable {model : Model} {visited : List NodeId} {cursor : Nat} {passed rest : List Node}
  {node : Node}

theorem leads_seeded (left : model.nodes.drop cursor = passed ++ node :: rest)
    (gone : ∀ other ∈ passed, other.id ∈ visited) (missing : node.id ∉ visited) :
    Leads ⟨model, [], visited, true, cursor⟩
      ⟨model, [model.sinkFrom node], visited, true, cursor + passed.length⟩ := by
  left
  have scan : (model.nodes.drop cursor).takeWhile (·.id ∈ visited) = passed := by
    rw [left, List.takeWhile_append_of_pos (by simpa using gone),
      List.takeWhile_cons_of_neg (by simpa using missing), List.append_nil]
  have here : model.nodes[cursor + passed.length]? = some node := by
    rw [← List.getElem?_drop, left, List.getElem?_append_right (Nat.le_refl _), Nat.sub_self]
    rfl
  simp [Moves, step, reseed?, scan, here]

theorem step_of_passed (gone : ∀ node ∈ model.nodes.drop cursor, node.id ∈ visited) :
    step ⟨model, [], visited, true, cursor⟩ = .finished := by
  have scan : (model.nodes.drop cursor).takeWhile (·.id ∈ visited) = model.nodes.drop cursor :=
    List.takeWhile_eq_self_iff.2 (by simpa using gone)
  have outside : model.nodes[cursor + (model.nodes.drop cursor).length]? = none := by
    rw [List.getElem?_eq_none_iff, List.length_drop]
    omega
  simp only [step, reseed?, scan, outside]
  rfl

end Traversal

namespace Model

variable {model : Model} {produced after : List NodeId} {nodes : List Node}

theorem Sweeps.unique (linked : model.Linked) {other : List NodeId}
    (first : model.Sweeps produced nodes after) (second : model.Sweeps produced nodes other) :
    after = other := by
  induction first generalizing other with
  | nil =>
      cases second
      rfl
  | passed gone _ ih =>
      cases second with
      | passed _ rest => exact ih rest
      | seeded missing => exact absurd gone missing
  | seeded missing sinkOf explored _ ih =>
      cases second with
      | passed gone => exact absurd gone missing
      | seeded _ sinkOf' explored' rest =>
          cases linked.sinkOf_unique sinkOf sinkOf'
          cases explored.unique explored'
          exact ih rest

theorem WellFormed.exists_sweeps (wellFormed : model.WellFormed)
    (members : ∀ node ∈ nodes, node ∈ model.nodes) (scheduled : model.Scheduled produced.reverse) :
    ∃ after, model.Sweeps produced nodes after := by
  have linked := wellFormed.linked
  induction nodes generalizing produced with
  | nil => exact ⟨produced, .nil⟩
  | cons node rest ih =>
      obtain ⟨member, members⟩ := List.forall_mem_cons.1 members
      by_cases gone : node.id ∈ produced
      · obtain ⟨after, sweeps⟩ := ih members scheduled
        exact ⟨after, .passed gone sweeps⟩
      · obtain ⟨sink, isNode, sinkOf, -⟩ := wellFormed.exists_sinkOf member
        obtain ⟨middle, explores⟩ : ∃ middle,
            model.Explores Node.dependents produced [sink.id] middle :=
          wellFormed.exists_explores
            (fun node member id isDependent =>
              linked.contains_child ((linked.mem_dependents member).1 isDependent))
            (List.forall_mem_singleton.2 (contains_iff.2 (linked.numbered.position_lt isNode)))
            scheduled
        obtain ⟨after, sweeps⟩ := ih members (explores.scheduled linked scheduled)
        exact ⟨after, .seeded gone sinkOf explores sweeps⟩

/-- A traversal of a whole model sweeps over the nodes from its cursor on, of which the first ones
    may have been produced since it looked at them. -/
theorem Sweeps.leads (wellFormed : model.WellFormed) (sweeps : model.Sweeps produced nodes after)
    (scheduled : model.Scheduled produced.reverse) {cursor : Nat} {passed : List Node}
    (left : model.nodes.drop cursor = passed ++ nodes)
    (gone : ∀ other ∈ passed, other.id ∈ produced) : ∃ cursor',
      ReflTransGen Traversal.Leads ⟨model, [], produced.reverse, true, cursor⟩
        ⟨model, [], after.reverse, true, cursor'⟩ ∧
      Traversal.step ⟨model, [], after.reverse, true, cursor'⟩ = .finished := by
  induction sweeps generalizing cursor passed with
  | nil =>
      rw [List.append_nil] at left
      exact ⟨cursor, .refl, Traversal.step_of_passed (by simpa [left] using gone)⟩
  | @passed _ _ node rest here _ ih =>
      have left' : model.nodes.drop cursor = (passed ++ [node]) ++ rest := by
        rw [left, List.append_assoc]
        rfl
      exact ih scheduled left'
        (List.forall_mem_append.2 ⟨gone, List.forall_mem_singleton.2 here⟩)
  | @seeded _ middle _ node sink rest missing sinkOf explores _ ih =>
      have member : node ∈ model.nodes := List.drop_subset cursor _ (by simp [left])
      obtain ⟨sink', isNode, sinkOf', same⟩ := wellFormed.exists_sinkOf member
      cases wellFormed.linked.sinkOf_unique sinkOf sinkOf'
      have scheduled' := explores.scheduled wellFormed.linked scheduled
      -- With its sink the node itself has been produced.
      have here : node.id ∈ middle := by
        have path := sinkOf.isAncestor wellFormed.linked member
        have done : sink.id ∈ middle.reverse := by simpa using explores.mem
        exact List.mem_reverse.1 (scheduled'.ancestor_mem wellFormed.linked path done)
      have left' : model.nodes.drop (cursor + passed.length) = [node] ++ rest := by
        rw [← List.drop_drop, left, List.drop_left]
        rfl
      obtain ⟨cursor', path, ends⟩ :=
        ih scheduled' left' (List.forall_mem_singleton.2 here)
      refine ⟨cursor', .head (Traversal.leads_seeded left (by simpa using gone)
        (by simpa using missing)) (.trans ?_ path), ends⟩
      have visit := @Explores.leads model _ _ _ _ true (cursor + passed.length) explores
        (fun _ => rfl) [] (by simp) []
      rw [same]
      simpa using visit

/-- From its start a traversal of a whole model sweeps over all nodes. -/
theorem Sweeps.leads_start (wellFormed : model.WellFormed) {order : List NodeId}
    (sweeps : model.Sweeps [] model.nodes order) : ∃ last,
      ReflTransGen Traversal.Leads (.start model []) last ∧ last.step = .finished ∧
      last.visited = order.reverse := by
  by_cases empty : model.nodes = []
  · rw [empty] at sweeps
    cases sweeps
    refine ⟨_, .refl, ?_, rfl⟩
    simp [Traversal.step, Traversal.start, isEmpty, empty]
  · have left : model.nodes.drop 0 = [] ++ model.nodes := rfl
    obtain ⟨cursor, path, ends⟩ := sweeps.leads wellFormed .nil left (List.forall_mem_nil _)
    have start : Traversal.start model [] = ⟨model, [], [], true, 0⟩ := by
      simp [Traversal.start, isEmpty, empty]
    exact ⟨_, start ▸ path, ends, rfl⟩

/-- A reachable model is traversed, and described, in the order of a recursion: from each node in
    storage order that is still missing the sink is visited to which first dependents lead; and
    visiting a node visits its parents, and if it is missing even then, produces it and visits its
    dependents. -/
theorem Reachable.order_eq_sweeps (reachable : model.Reachable)
    (room : model.size < UInt64.size) : ∃ order,
      (∀ other, model.Sweeps [] model.nodes other ↔ other = order) ∧
      (∃ first nodes last, model.traversal [] = .ok first ∧ first.Run nodes last ∧
        last.next = none ∧ nodes.map Node.id = order) ∧
      model.activeNodes [] = .ok order ∧
      model.describe.nodes.map NodeDescription.id = order := by
  have wellFormed := reachable.wellFormed room
  have known : ∀ output ∈ ([] : List NodeId), model.contains output := List.forall_mem_nil _
  obtain ⟨order, sweeps⟩ : ∃ order, model.Sweeps [] model.nodes order :=
    wellFormed.exists_sweeps (fun _ member => member) .nil
  obtain ⟨last, path, ends, visited⟩ := sweeps.leads_start wellFormed
  have ids := wellFormed.ids_toList_eq known path ends
  rw [visited, List.reverse_reverse] at ids
  obtain ⟨nodes, final, run, stops⟩ :=
    (Traversal.Sound.start known).exists_run wellFormed.linked
  have ran : nodes.map Node.id = order := by rw [← wellFormed.toList_eq known run stops, ids]
  refine ⟨order, fun other => ⟨fun other => other.unique wellFormed.linked sweeps, ?_⟩,
    ⟨_, nodes, final, traversal_eq_ok known, run, stops, ran⟩, ?_, ?_⟩
  · rintro rfl
    exact sweeps
  · rw [activeNodes, traversal_eq_ok known, ← ids]
    rfl
  · rw [← ids, describe, List.map_map]
    rfl

/-- In `sample` the sink of the first node reads from it twice. It is visited again, and produced,
    as a dependent of its own parents; and the last node stands alone. -/
theorem order_eq_sweeps_sample : ∃ order, order = [⟨1⟩, ⟨0⟩, ⟨2⟩, ⟨3⟩] ∧
    (∀ other, sample.Sweeps [] sample.nodes other ↔ other = order) ∧
    (∃ first nodes last, sample.traversal [] = .ok first ∧ first.Run nodes last ∧
      last.next = none ∧ nodes.map Node.id = order) ∧
    sample.activeNodes [] = .ok order ∧
    sample.describe.nodes.map NodeDescription.id = order := by
  obtain ⟨order, sweeps, run, active, described⟩ :=
    Reachable.order_eq_sweeps reachable_sample (by decide)
  have same : sample.activeNodes [] = .ok [⟨1⟩, ⟨0⟩, ⟨2⟩, ⟨3⟩] := rfl
  exact ⟨order, Except.ok.inj (active.symm.trans same), sweeps, run, active, described⟩

end Model

end Dataflow

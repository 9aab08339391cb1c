import Dataflow.Proofs.Halting

/-! # Depth-first search

A traversal keeps on its stack what is still to be done. What it does is a recursion: to visit an
id, visit the parents of its node, produce it, and then visit its dependents if the whole model is
to be produced. A dependent may be a node whose own visit is under way, so it can be produced before
the visits of its parents are over; then it is not produced again. Main statement: with outputs,
where this does not happen, a traversal is a plain depth-first search.
-/

namespace Dataflow

open Relation

namespace Model

/-- Visiting ids one after the other. `produced` are the ids produced before, and `after` those
    produced in the end, both in the order in which they were produced. -/
inductive Explores (model : Model) (next : Node → List NodeId) :
    (produced ids after : List NodeId) → Prop where
  | nil {produced : List NodeId} : Explores model next produced [] produced
  /-- An id that has been produced is passed over. -/
  | done {produced rest after : List NodeId} {id : NodeId} : id ∈ produced →
      Explores model next produced rest after → Explores model next produced (id :: rest) after
  /-- While the parents are visited the node is produced, on the way from one of them. -/
  | overtaken {produced middle rest after : List NodeId} {id : NodeId} {node : Node} :
      id ∉ produced → model.get? id = some node →
      Explores model next produced node.parents middle → id ∈ middle →
      Explores model next middle rest after → Explores model next produced (id :: rest) after
  /-- After the parents the node is produced, and then the ids next to it are visited. -/
  | new {produced middle later rest after : List NodeId} {id : NodeId} {node : Node} :
      id ∉ produced → model.get? id = some node →
      Explores model next produced node.parents middle → id ∉ middle →
      Explores model next (middle ++ [id]) (next node) later →
      Explores model next later rest after → Explores model next produced (id :: rest) after

/-- Plain depth-first search from ids one after the other: parents first, each node once. -/
inductive Visits (model : Model) : (produced ids after : List NodeId) → Prop where
  | nil {produced : List NodeId} : Visits model produced [] produced
  | done {produced rest after : List NodeId} {id : NodeId} : id ∈ produced →
      Visits model produced rest after → Visits model produced (id :: rest) after
  | new {produced middle rest after : List NodeId} {id : NodeId} {node : Node} :
      id ∉ produced → model.get? id = some node → Visits model produced node.parents middle →
      Visits model (middle ++ [id]) rest after → Visits model produced (id :: rest) after

variable {model : Model} {next : Node → List NodeId} {produced ids after : List NodeId}

/-- A node is due once its parents have been produced. -/
theorem Linked.scheduled_concat (linked : model.Linked) {id : NodeId} {node : Node}
    (found : model.get? id = some node) (scheduled : model.Scheduled produced.reverse)
    (new : id ∉ produced) (parents : ∀ parent ∈ node.parents, parent ∈ produced) :
    model.Scheduled (produced ++ [id]).reverse := by
  obtain ⟨member, rfl⟩ := linked.get?_eq_some_iff.1 found
  rw [List.reverse_concat]
  exact .cons member (by simpa using new) (by simpa using parents) scheduled

namespace Explores

theorem isPrefix (explores : model.Explores next produced ids after) : produced <+: after := by
  induction explores with
  | nil => exact List.prefix_rfl
  | done _ _ ih => exact ih
  | overtaken _ _ _ _ _ parents rest => exact parents.trans rest
  | new _ _ _ _ _ _ parents later rest =>
      exact parents.trans ((List.prefix_append _ _).trans (later.trans rest))

/-- In the end all visited ids have been produced. -/
theorem mem (explores : model.Explores next produced ids after) : ∀ id ∈ ids, id ∈ after := by
  induction explores with
  | nil => simp
  | done gone rest ih => exact List.forall_mem_cons.2 ⟨rest.isPrefix.subset gone, ih⟩
  | overtaken _ _ _ gone rest _ ih => exact List.forall_mem_cons.2 ⟨rest.isPrefix.subset gone, ih⟩
  | new _ _ _ _ later rest _ _ ih =>
      have gone := (later.isPrefix.trans rest.isPrefix).subset
        (List.mem_append_right _ List.mem_cons_self)
      exact List.forall_mem_cons.2 ⟨gone, ih⟩

/-- Visiting ids has one result. -/
theorem unique {other : List NodeId} (first : model.Explores next produced ids after)
    (second : model.Explores next produced ids other) : after = other := by
  induction first generalizing other with
  | nil =>
      cases second
      rfl
  | done gone _ ih =>
      cases second with
      | done _ rest => exact ih rest
      | overtaken new | new new => exact absurd gone new
  | overtaken new found _ gone _ sameMiddle ih =>
      cases second with
      | done gone' => exact absurd gone' new
      | overtaken _ found' parents _ rest =>
          cases found.symm.trans found'
          cases sameMiddle parents
          exact ih rest
      | new _ found' parents left =>
          cases found.symm.trans found'
          cases sameMiddle parents
          exact absurd gone left
  | new new found _ left _ _ sameMiddle sameLater ih =>
      cases second with
      | done gone' => exact absurd gone' new
      | overtaken _ found' parents gone =>
          cases found.symm.trans found'
          cases sameMiddle parents
          exact absurd gone left
      | new _ found' parents _ later rest =>
          cases found.symm.trans found'
          cases sameMiddle parents
          cases sameLater later
          exact ih rest

theorem append {middle more : List NodeId} (first : model.Explores next produced ids middle)
    (second : model.Explores next middle more after) :
    model.Explores next produced (ids ++ more) after := by
  induction first with
  | nil => exact second
  | done gone _ ih => exact .done gone (ih second)
  | overtaken new found parents gone _ _ ih => exact .overtaken new found parents gone (ih second)
  | new new found parents left later _ _ _ ih => exact .new new found parents left later (ih second)

/-- Nothing is produced if all ids have been. -/
theorem of_mem (gone : ∀ id ∈ ids, id ∈ produced) : model.Explores next produced ids produced := by
  induction ids with
  | nil => exact .nil
  | cons id rest ih =>
      obtain ⟨here, later⟩ := List.forall_mem_cons.1 gone
      exact .done here (ih later)

/-- Each node is produced once and after its parents. -/
theorem scheduled (linked : model.Linked) (explores : model.Explores next produced ids after)
    (before : model.Scheduled produced.reverse) : model.Scheduled after.reverse := by
  induction explores with
  | nil => exact before
  | done _ _ ih => exact ih before
  | overtaken _ _ _ _ _ parents ih => exact ih (parents before)
  | new _ found explored left _ _ parents later ih =>
      exact ih (later (linked.scheduled_concat found (parents before) left explored.mem))

end Explores

/-- If visiting each of several ids has a result whenever at most `left` nodes are missing, so has
    visiting them one after the other. -/
theorem exists_explores_of_each (linked : model.Linked) {left : Nat}
    (each : ∀ id ∈ ids, ∀ produced : List NodeId, model.Scheduled produced.reverse →
      model.size ≤ produced.length + left → ∃ after, model.Explores next produced [id] after)
    (scheduled : model.Scheduled produced.reverse) (few : model.size ≤ produced.length + left) :
    ∃ after, model.Explores next produced ids after := by
  induction ids generalizing produced with
  | nil => exact ⟨produced, .nil⟩
  | cons id rest ih =>
      obtain ⟨here, later⟩ := List.forall_mem_cons.1 each
      obtain ⟨middle, first⟩ := here produced scheduled few
      have longer := first.isPrefix.length_le
      obtain ⟨after, second⟩ := ih later (first.scheduled linked scheduled) (by omega)
      exact ⟨after, first.append second⟩

/-- Visiting ids of a model without cycles comes to an end: parents are closer to the sources, and
    before the ids next to a node are visited, the node is produced. -/
theorem WellFormed.exists_explores (wellFormed : model.WellFormed)
    (nextKnown : ∀ node ∈ model.nodes, ∀ id ∈ next node, model.contains id)
    (known : ∀ id ∈ ids, model.contains id) (scheduled : model.Scheduled produced.reverse) :
    ∃ after, model.Explores next produced ids after := by
  have linked := wellFormed.linked
  obtain ⟨left, few⟩ : ∃ left, model.size ≤ produced.length + left :=
    ⟨model.size, Nat.le_add_left _ _⟩
  induction left using Nat.strong_induction_on generalizing ids produced with
  | _ left fewer =>
      apply exists_explores_of_each linked _ scheduled few
      intro id member
      have isNode := known id member
      clear member
      induction (acyclic_iff_wellFounded.1 wellFormed.acyclic).apply id with
      | intro id _ above =>
          intro produced scheduled few
          by_cases gone : id ∈ produced
          · exact ⟨produced, .done gone .nil⟩
          obtain ⟨node, found⟩ := contains_iff_get?.1 isNode
          have member := mem_of_get? found
          obtain ⟨middle, parents⟩ := exists_explores_of_each linked (fun parent named =>
            above parent ((linked.isParent_iff found).2 named) (linked.known member named))
            scheduled few
          by_cases overtaken : id ∈ middle
          · exact ⟨middle, .overtaken gone found parents overtaken .nil⟩
          -- The node itself is one node less that is missing.
          have scheduled' := linked.scheduled_concat found (parents.scheduled linked scheduled)
            overtaken parents.mem
          have bound := scheduled'.length_le_size linked
          have longer := parents.isPrefix.length_le
          rw [List.length_reverse, List.length_append, List.length_singleton] at bound
          obtain ⟨later, follow⟩ := fewer (left - 1) (by omega) (nextKnown node member) scheduled'
            (by rw [List.length_append, List.length_singleton]; omega)
          exact ⟨later, .new gone found parents overtaken follow .nil⟩

end Model

namespace Traversal

variable {model : Model} {id : NodeId} {node : Node} {below visited : List NodeId} {full : Bool}
  {cursor : Nat}

theorem leads_dropped (gone : id ∈ visited) :
    Leads ⟨model, id :: below, visited, full, cursor⟩ ⟨model, below, visited, full, cursor⟩ := by
  left
  simp [Moves, step, gone]

theorem leads_ready (new : id ∉ visited) (found : model.get? id = some node)
    (parents : ∀ parent ∈ node.parents, parent ∈ visited) :
    Leads ⟨model, id :: below, visited, full, cursor⟩
      ⟨model, (if full then node.dependents else []) ++ below, id :: visited, full, cursor⟩ := by
  right
  refine ⟨node, ?_⟩
  have ready : isReady ⟨model, id :: below, visited, full, cursor⟩ node := by
    simpa [isReady] using parents
  cases full <;> simp [step, new, found, ready]

theorem leads_waiting (new : id ∉ visited) (found : model.get? id = some node)
    (waits : ¬∀ parent ∈ node.parents, parent ∈ visited) :
    Leads ⟨model, id :: below, visited, full, cursor⟩
      ⟨model, node.parents.filter (· ∉ visited) ++ id :: below, visited, full, cursor⟩ := by
  left
  have ready : ¬isReady ⟨model, id :: below, visited, full, cursor⟩ node := by
    simpa [isReady] using waits
  simp [Moves, step, new, found, ready]

end Traversal

namespace Model

variable {model : Model} {next : Node → List NodeId} {produced ids after : List NodeId}
  {full : Bool} {cursor : Nat}

/-- Before a node is looked at again its parents have been visited. -/
theorem Explores.leads_parents {middle below : List NodeId} {id : NodeId} {node : Node}
    (parents : model.Explores next produced node.parents middle) (new : id ∉ produced)
    (found : model.get? id = some node)
    (path : ReflTransGen Traversal.Leads
      ⟨model, node.parents.filter (· ∉ produced.reverse) ++ id :: below, produced.reverse, full,
        cursor⟩
      ⟨model, id :: below, middle.reverse, full, cursor⟩) :
    ReflTransGen Traversal.Leads ⟨model, id :: below, produced.reverse, full, cursor⟩
      ⟨model, id :: below, middle.reverse, full, cursor⟩ := by
  by_cases ready : ∀ parent ∈ node.parents, parent ∈ produced
  · rw [parents.unique (.of_mem ready)]
  · exact .head (Traversal.leads_waiting (by simpa using new) found (by simpa using ready)) path

/-- A traversal with ids on its stack visits them before it looks at what is below. Of the ids those
    may be left out that had been produced before. -/
theorem Explores.leads (explores : model.Explores next produced ids after)
    (isNext : ∀ node, next node = if full then node.dependents else []) {gone : List NodeId}
    (early : gone ⊆ produced) (below : List NodeId) :
    ReflTransGen Traversal.Leads
      ⟨model, ids.filter (· ∉ gone) ++ below, produced.reverse, full, cursor⟩
      ⟨model, below, after.reverse, full, cursor⟩ := by
  have reversed : ∀ ids : List NodeId, ids.reverse ⊆ ids := fun ids id => List.mem_reverse.1
  induction explores generalizing gone below with
  | nil => exact .refl
  | @done produced rest after id here _ ih =>
      by_cases left : id ∈ gone
      · rw [List.filter_cons_of_neg (by simpa using left)]
        exact ih early below
      · rw [List.filter_cons_of_pos (by simpa using left)]
        exact .head (Traversal.leads_dropped (by simpa using here)) (ih early below)
  | @overtaken produced middle rest after id node new found parents here _ climb ih =>
      have stays : id ∉ gone := fun left => new (early left)
      rw [List.filter_cons_of_pos (by simpa using stays)]
      have path := parents.leads_parents new found
        (climb (reversed _) (id :: (rest.filter (· ∉ gone) ++ below)))
      have later := ih (List.Subset.trans early parents.isPrefix.subset) below
      exact path.trans (.head (Traversal.leads_dropped (by simpa using here)) later)
  | @new produced middle later rest after id node new found parents left explored _ climb follow
      ih =>
      have stays : id ∉ gone := fun left => new (early left)
      rw [List.filter_cons_of_pos (by simpa using stays)]
      have path := parents.leads_parents new found
        (climb (reversed _) (id :: (rest.filter (· ∉ gone) ++ below)))
      have longer : produced <+: later :=
        parents.isPrefix.trans ((List.prefix_append _ _).trans explored.isPrefix)
      have dependents := follow (List.nil_subset _) (rest.filter (· ∉ gone) ++ below)
      rw [List.filter_eq_self.2 (by simp), List.reverse_concat, isNext] at dependents
      refine path.trans (.head ?_ (dependents.trans ?_))
      · exact Traversal.leads_ready (by simpa using left) found (by simpa using parents.mem)
      · exact ih (List.Subset.trans early longer.subset) below

/-- If no ids are next to a node, only the given ids and their ancestors are produced. -/
theorem Explores.needed (linked : model.Linked)
    (explores : model.Explores (fun _ => []) produced ids after) :
    ∀ id ∈ after, id ∈ produced ∨ model.Needed ids id := by
  have more : ∀ {ids : List NodeId} {id first : NodeId}, model.Needed ids id →
      model.Needed (first :: ids) id := by
    rintro ids id first ⟨output, given, path⟩
    exact ⟨output, List.mem_cons_of_mem first given, path⟩
  have child : ∀ {rest : List NodeId} {id child : NodeId} {node : Node},
      model.get? child = some node → model.Needed node.parents id →
        model.Needed (child :: rest) id := by
    rintro rest id child node found ⟨parent, named, path⟩
    exact ⟨child, List.mem_cons_self, path.tail ((linked.isParent_iff found).2 named)⟩
  induction explores with
  | nil => exact fun id gone => .inl gone
  | done _ _ ih => exact fun id gone => (ih id gone).imp_right more
  | overtaken _ found _ _ _ parents ih =>
      intro id gone
      rcases ih id gone with gone | needed
      · exact (parents id gone).imp_right (child found)
      · exact .inr (more needed)
  | new _ found _ _ nothing _ parents _ ih =>
      cases nothing
      intro id gone
      rcases ih id gone with gone | needed
      · rcases List.mem_append.1 gone with gone | last
        · exact (parents id gone).imp_right (child found)
        · rw [List.mem_singleton.1 last]
          exact .inr ⟨_, List.mem_cons_self, .refl⟩
      · exact .inr (more needed)

/-- So without cycles no node is overtaken. -/
theorem WellFormed.not_mem_of_explores (wellFormed : model.WellFormed) {middle : List NodeId}
    {id : NodeId} {node : Node} (new : id ∉ produced) (found : model.get? id = some node)
    (parents : model.Explores (fun _ => []) produced node.parents middle) : id ∉ middle := by
  intro gone
  rcases parents.needed wellFormed.linked id gone with early | ⟨parent, named, path⟩
  · exact new early
  · exact wellFormed.acyclic id
      (.tail' path ((wellFormed.linked.isParent_iff found).2 named))

theorem WellFormed.visits_iff_explores (wellFormed : model.WellFormed) :
    model.Visits produced ids after ↔ model.Explores (fun _ => []) produced ids after := by
  constructor
  · intro visits
    induction visits with
    | nil => exact .nil
    | done gone _ ih => exact .done gone ih
    | new new found _ _ parents ih =>
        exact .new new found parents (wellFormed.not_mem_of_explores new found parents) .nil ih
  · intro explores
    induction explores with
    | nil => exact .nil
    | done gone _ ih => exact .done gone ih
    | overtaken new found explored gone =>
        exact absurd gone (wellFormed.not_mem_of_explores new found explored)
    | new new found _ _ nothing _ parents _ ih =>
        cases nothing
        exact .new new found parents ih

/-- The nodes needed for outputs come in the order of a plain depth-first search from the outputs,
    the last one first. -/
theorem Reachable.activeNodes_eq_visits (reachable : model.Reachable)
    (room : model.size < UInt64.size) {outputs : List NodeId} (given : outputs ≠ [])
    (known : ∀ output ∈ outputs, output ∈ model.nodes.map Node.id) :
    ∃ order, model.activeNodes outputs = .ok order ∧
      ∀ other, model.Visits [] outputs.reverse other ↔ other = order := by
  have wellFormed := reachable.wellFormed room
  simp only [wellFormed.linked.mem_ids_iff] at known
  obtain ⟨order, explores⟩ : ∃ order, model.Explores (fun _ => []) [] outputs.reverse order :=
    wellFormed.exists_explores (by simp) (by simpa using known) .nil
  have path : ReflTransGen Traversal.Leads (.start model outputs)
      ⟨model, [], order.reverse, false, 0⟩ := by
    have path := @Explores.leads model _ _ _ _ false 0 explores (fun _ => rfl) [] (by simp) []
    have active : outputs.isEmpty = false := by simpa using given
    simpa [Traversal.start, active] using path
  refine ⟨order, ?_, fun other => ?_⟩
  · have ids := wellFormed.ids_toList_eq known path rfl
    rw [List.reverse_reverse] at ids
    rw [activeNodes, traversal_eq_ok known, ← ids]
    rfl
  · rw [wellFormed.visits_iff_explores]
    constructor
    · exact fun other => other.unique explores
    · rintro rfl
      exact explores

/-- The output reads from its first parent twice, and from its second one also through the first. -/
theorem activeNodes_eq_visits_sample : ∃ order, sample.activeNodes [⟨0⟩, ⟨2⟩] = .ok order ∧
    order = [⟨1⟩, ⟨0⟩, ⟨2⟩] ∧
    ∀ other, sample.Visits [] [⟨0⟩, ⟨2⟩].reverse other ↔ other = order := by
  obtain ⟨order, active, visits⟩ :=
    Reachable.activeNodes_eq_visits reachable_sample (by decide) (List.cons_ne_nil ⟨0⟩ [⟨2⟩])
      (by decide)
  have same : sample.activeNodes [⟨0⟩, ⟨2⟩] = .ok [⟨1⟩, ⟨0⟩, ⟨2⟩] := rfl
  exact ⟨order, active, Except.ok.inj (active.symm.trans same), visits⟩

end Model

end Dataflow

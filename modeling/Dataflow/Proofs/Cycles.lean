import Dataflow.Proofs.Links
import Dataflow.Model.Cycle

/-! # The cycle check

Taking away nodes whose parents are all gone takes away exactly the nodes from which no parent can
be followed forever. In a finite model those are all nodes if and only if no node is its own
ancestor, which is what the check decides.
-/

namespace Dataflow

open Relation

/-- Without cycles, links in a finite type cannot be followed forever. -/
theorem wellFounded_of_acyclic {α : Type} [Finite α] {link : α → α → Prop}
    (acyclic : ∀ a, ¬TransGen link a a) : WellFounded link := by
  have : Std.Irrefl (TransGen link) := ⟨acyclic⟩
  have ancestors := Finite.wellFounded_of_trans_of_irrefl (TransGen link)
  exact Subrelation.wf TransGen.single ancestors

namespace Model

/-- No node is an ancestor of itself. -/
def Acyclic (model : Model) : Prop := ∀ id, ¬TransGen model.IsParent id id

theorem acyclic_iff_wellFounded {model : Model} :
    model.Acyclic ↔ WellFounded model.IsParent := by
  constructor
  · exact wellFounded_of_acyclic
  · intro wellFounded id cycle
    exact wellFounded.transGen.irrefl.irrefl id cycle

/-- Both directions of links agree, and no node is an ancestor of itself. -/
structure WellFormed (model : Model) : Prop where
  linked : model.Linked
  acyclic : model.Acyclic

end Model

namespace Node

/-- How many parents of a node have not been taken away. -/
def missing (taken : List NodeId) (node : Node) : Nat :=
  node.distinctParents.countP (· ∉ taken)

theorem missing_nil (node : Node) : node.missing [] = node.distinctParents.length := by
  simp [missing]

theorem missing_eq_zero_iff {taken : List NodeId} {node : Node} :
    node.missing taken = 0 ↔ ∀ parent ∈ node.parents, parent ∈ taken := by
  simp [missing, List.countP_eq_zero]

/-- Taking away one more node takes one from the count of each of its dependents. -/
theorem missing_cons {taken : List NodeId} {id : NodeId} (new : id ∉ taken) (node : Node) :
    node.missing (id :: taken) =
      if id ∈ node.parents then node.missing taken - 1 else node.missing taken := by
  have once : node.distinctParents.count id = if id ∈ node.distinctParents then 1 else 0 :=
    (NodeId.nodup_distinct _).count
  simp only [mem_distinctParents] at once
  have split : ∀ parents : List NodeId,
      parents.countP (· ∉ taken) = parents.countP (· ∉ id :: taken) + parents.count id := by
    intro parents
    induction parents with
    | nil => rfl
    | cons parent rest ih =>
        simp only [List.countP_cons, List.count_cons, ih]
        by_cases same : parent = id
        · subst same
          simp [new]
          omega
        · by_cases gone : parent ∈ taken <;> simp [same, gone]
          omega
  unfold missing
  rw [split node.distinctParents, once]
  split <;> omega

end Node

namespace Peeling

theorem release_eq (peeling : Peeling) (id : NodeId) : peeling.release id =
    { peeling with
      degrees := peeling.degrees.modify id.position (· - 1)
      queue := peeling.queue ++
        [id].filter fun id => peeling.degrees[id.position]?.any (· ≤ 1) } := by
  unfold release
  cases found : peeling.degrees[id.position]? with
  | none =>
      have outside := List.getElem?_eq_none_iff.1 found
      simp [List.modify_eq_self outside, found]
  | some degree =>
      have last : degree - 1 = 0 ↔ degree ≤ 1 := by omega
      by_cases few : degree ≤ 1 <;> simp [List.modify_eq_set_getElem?, found, last, few]

/-- Releasing each of several ids once. -/
theorem foldl_release {ids : List NodeId} (once : ids.Nodup) (peeling : Peeling) :
    (ids.foldl release peeling).ordered = peeling.ordered ∧
    (∀ id : NodeId, (ids.foldl release peeling).degrees[id.position]? =
      peeling.degrees[id.position]?.map fun degree => if id ∈ ids then degree - 1 else degree) ∧
    (ids.foldl release peeling).queue = peeling.queue ++
      ids.filter fun id => peeling.degrees[id.position]?.any (· ≤ 1) := by
  induction ids generalizing peeling with
  | nil => simp
  | cons first rest ih =>
      obtain ⟨absent, once⟩ := List.nodup_cons.1 once
      obtain ⟨ordered, degrees, queue⟩ := ih once (peeling.release first)
      have place : ∀ id : NodeId, first.position = id.position ↔ id = first := fun id => by
        rw [NodeId.position_inj, eq_comm]
      simp only [List.foldl_cons]
      refine ⟨?_, ?_, ?_⟩
      · rw [ordered, release_eq]
      · intro id
        rw [degrees id, release_eq, List.getElem?_modify]
        by_cases same : id = first
        · subst same
          simp [absent, Function.comp_def]
        · simp [place, same]
      · rw [queue, release_eq, List.append_assoc]
        change _ = _ ++ ([first] ++ rest).filter _
        rw [List.filter_append]
        congr 2
        apply List.filter_congr
        intro id later
        have different : id ≠ first := fun same => absent (same ▸ later)
        simp [place, different]

/-- What holds while nodes are taken away, `taken` being those that have been. A node is taken away
    or queued once all its parents are taken away; so no chain of ancestors starts at it that goes
    on forever. -/
structure Tracks (model : Model) (taken : List NodeId) (peeling : Peeling) : Prop where
  nodup : (taken ++ peeling.queue).Nodup
  ordered : peeling.ordered = taken.length
  degrees : ∀ node ∈ model.nodes, peeling.degrees[node.id.position]? = some (node.missing taken)
  free : ∀ node ∈ model.nodes, node.id ∈ taken ++ peeling.queue ↔ node.missing taken = 0
  known : ∀ id ∈ taken ++ peeling.queue, model.contains id
  grounded : ∀ id ∈ taken ++ peeling.queue, Acc model.IsParent id

namespace Tracks

variable {model : Model} {taken : List NodeId} {peeling : Peeling}

theorem start (linked : model.Linked) : Tracks model [] (Peeling.start model) where
  nodup := (linked.numbered.nodup_ids).sublist (List.filter_sublist.map _)
  ordered := rfl
  degrees := by
    intro node member
    simp [Peeling.start, linked.numbered.getElem? member, Node.missing_nil]
  free := by
    intro node member
    rw [Node.missing_nil, List.length_eq_zero_iff, ← List.isEmpty_iff]
    simp only [Peeling.start, List.nil_append, List.mem_map, List.mem_filter]
    constructor
    · rintro ⟨other, ⟨present, empty⟩, same⟩
      rwa [← linked.numbered.eq_of_id_eq present member same]
    · intro empty
      exact ⟨node, ⟨member, empty⟩, rfl⟩
  known := by
    intro id queued
    obtain ⟨node, present, rfl⟩ := List.mem_map.1 queued
    exact Model.contains_iff.2 (linked.numbered.position_lt (List.mem_filter.1 present).1)
  grounded := by
    intro id queued
    obtain ⟨node, present, rfl⟩ := List.mem_map.1 queued
    obtain ⟨member, empty⟩ := List.mem_filter.1 present
    constructor
    intro parent isParent
    have found := linked.get?_eq_some_iff.2 ⟨member, rfl⟩
    have named := Node.mem_distinctParents.2 ((linked.isParent_iff found).1 isParent)
    rw [List.isEmpty_iff.1 empty] at named
    exact absurd named List.not_mem_nil

/-- Taking away a node queues those of its dependents that wait for no other parent. -/
theorem queue_take (linked : model.Linked) (peeling : Peeling) {node : Node}
    (member : node ∈ model.nodes)
    (degrees : ∀ node ∈ model.nodes,
      peeling.degrees[node.id.position]? = some (node.missing taken)) :
    ∃ queued : List NodeId,
      (node.dependents.foldl release peeling).queue = peeling.queue ++ queued ∧ queued.Nodup ∧
      (∀ id ∈ queued, model.contains id) ∧
      ∀ other ∈ model.nodes,
        other.id ∈ queued ↔ node.id ∈ other.parents ∧ other.missing taken ≤ 1 := by
  have once : node.dependents.Nodup := (linked.ascending member).imp ne_of_lt
  refine ⟨_, (foldl_release once peeling).2.2, once.filter _, ?_, ?_⟩
  · intro id queued
    exact linked.contains_child ((linked.mem_dependents member).1 (List.mem_filter.1 queued).1)
  · intro other present
    have found := linked.get?_eq_some_iff.2 ⟨present, rfl⟩
    rw [List.mem_filter, degrees other present, linked.mem_dependents member,
      linked.isParent_iff found]
    simp

/-- Taking away the first queued node. -/
theorem take (linked : model.Linked) (tracks : Tracks model taken peeling) {node : Node}
    (member : node ∈ model.nodes) {queue : List NodeId} (next : peeling.queue = node.id :: queue) :
    Tracks model (node.id :: taken)
      (node.dependents.foldl release { peeling with queue, ordered := peeling.ordered + 1 }) := by
  have once : node.dependents.Nodup := (linked.ascending member).imp ne_of_lt
  obtain ⟨ordered, degrees, -⟩ :=
    foldl_release once { peeling with queue, ordered := peeling.ordered + 1 }
  obtain ⟨queued, queue_eq, queued_once, queued_known, mem_queued⟩ := queue_take linked
    { peeling with queue, ordered := peeling.ordered + 1 } member tracks.degrees
  have perm : (taken ++ peeling.queue).Perm (node.id :: taken ++ queue) := by
    rw [next]
    exact List.perm_middle
  have earlier : ∀ id, id ∈ node.id :: taken ++ queue ↔ id ∈ taken ++ peeling.queue :=
    fun id => perm.mem_iff.symm
  have new : node.id ∉ taken := by
    have := perm.nodup_iff.1 tracks.nodup
    simp only [List.cons_append, List.nodup_cons, List.mem_append, not_or] at this
    exact this.1.1
  have parents_gone : ∀ other ∈ model.nodes, other.id ∈ queued →
      ∀ parent ∈ other.parents, parent ∈ node.id :: taken := by
    intro other present later
    obtain ⟨isParent, few⟩ := (mem_queued other present).1 later
    rw [← Node.missing_eq_zero_iff, Node.missing_cons new, if_pos isParent]
    omega
  constructor
  · rw [queue_eq, ← List.append_assoc]
    refine List.nodup_append.2 ⟨perm.nodup_iff.1 tracks.nodup, queued_once, ?_⟩
    rintro id before _ later rfl
    obtain ⟨other, found⟩ := Model.contains_iff_get?.1 (queued_known id later)
    obtain ⟨present, rfl⟩ := linked.get?_eq_some_iff.1 found
    -- A node that was taken away or queued before does not wait for this one.
    have done := (tracks.free other present).1 ((earlier _).1 before)
    exact new (Node.missing_eq_zero_iff.1 done _ ((mem_queued other present).1 later).1)
  · rw [ordered, tracks.ordered]
    rfl
  · intro other present
    have found := linked.get?_eq_some_iff.2 ⟨present, rfl⟩
    rw [degrees other.id, tracks.degrees other present, Option.map_some, Node.missing_cons new]
    simp only [linked.mem_dependents member, linked.isParent_iff found]
  · intro other present
    rw [queue_eq, ← List.append_assoc, List.mem_append, earlier, tracks.free other present,
      mem_queued other present, Node.missing_cons new]
    split
    · next isParent => simp only [isParent, true_and]; omega
    · next isNoParent => simp only [isNoParent, false_and, or_false]
  · intro id isFree
    rw [queue_eq, ← List.append_assoc, List.mem_append, earlier] at isFree
    rcases isFree with before | later
    · exact tracks.known id before
    · exact queued_known id later
  · intro id isFree
    rw [queue_eq, ← List.append_assoc, List.mem_append, earlier] at isFree
    rcases isFree with before | later
    · exact tracks.grounded id before
    · obtain ⟨other, found⟩ := Model.contains_iff_get?.1 (queued_known id later)
      obtain ⟨present, rfl⟩ := linked.get?_eq_some_iff.1 found
      constructor
      intro parent isParent
      have gone := parents_gone other present later parent ((linked.isParent_iff found).1 isParent)
      exact tracks.grounded parent ((earlier parent).1 (List.mem_append_left _ gone))

/-- Once the queue is empty, the nodes taken away are those below no cycle. -/
theorem mem_taken_iff (linked : model.Linked) (tracks : Tracks model taken peeling)
    (drained : peeling.queue = []) {id : NodeId} :
    id ∈ taken ↔ model.contains id ∧ Acc model.IsParent id := by
  constructor
  · intro gone
    exact ⟨tracks.known id (List.mem_append_left _ gone),
      tracks.grounded id (List.mem_append_left _ gone)⟩
  · rintro ⟨known, grounded⟩
    induction grounded with
    | intro id _ ih =>
        obtain ⟨node, found⟩ := Model.contains_iff_get?.1 known
        obtain ⟨member, rfl⟩ := linked.get?_eq_some_iff.1 found
        have free := tracks.free node member
        rw [drained, List.append_nil] at free
        refine free.2 (Node.missing_eq_zero_iff.2 fun parent isParent => ?_)
        exact ih parent ((linked.isParent_iff found).2 isParent) (linked.known member isParent)

/-- A run that may take away as many nodes as are left drains the queue. -/
theorem run (linked : model.Linked) (tracks : Tracks model taken peeling) (count : Nat)
    (enough : model.size ≤ taken.length + count) : ∃ gone after, Tracks model gone after ∧
      after.queue = [] ∧ Peeling.run model count peeling = gone.length := by
  induction count generalizing taken peeling with
  | zero =>
      have bound := linked.length_le_size tracks.nodup tracks.known
      rw [List.length_append] at bound
      exact ⟨taken, peeling, tracks, List.length_eq_zero_iff.1 (by omega), tracks.ordered⟩
  | succ count ih =>
      cases next : peeling.queue with
      | nil => exact ⟨taken, peeling, tracks, next, by simp [Peeling.run, next, tracks.ordered]⟩
      | cons id queue =>
          have known := tracks.known id (by simp [next])
          obtain ⟨node, found⟩ := Model.contains_iff_get?.1 known
          obtain ⟨member, rfl⟩ := linked.get?_eq_some_iff.1 found
          have enough' : model.size ≤ (node.id :: taken).length + count := by
            rw [List.length_cons]
            omega
          obtain ⟨gone, after, tracks', drained, result⟩ :=
            ih (tracks.take linked member next) enough'
          refine ⟨gone, after, tracks', drained, ?_⟩
          simpa [Peeling.run, next, found] using result

end Tracks

end Peeling

namespace Model

variable {model : Model}

/-- As many nodes are put in order as there are nodes from which no parent can be followed
    forever. -/
theorem Linked.orderedCount (linked : model.Linked) : ∃ taken : List NodeId,
    taken.Nodup ∧ taken.length = model.orderedCount ∧
      ∀ id, id ∈ taken ↔ model.contains id ∧ Acc model.IsParent id := by
  obtain ⟨taken, after, tracks, drained, result⟩ :=
    (Peeling.Tracks.start linked).run linked model.size (Nat.le_add_left _ _)
  refine ⟨taken, ?_, result.symm, fun id => tracks.mem_taken_iff linked drained⟩
  exact (List.nodup_append.1 tracks.nodup).1

/-- The check accepts a linked model if and only if it has no cycle. -/
theorem Linked.checkAcyclic_eq_ok_iff (linked : model.Linked) :
    model.checkAcyclic = .ok () ↔ model.Acyclic := by
  obtain ⟨taken, once, length, mem_taken⟩ := linked.orderedCount
  have accepted : model.checkAcyclic = .ok () ↔ model.size ≤ taken.length := by
    rw [checkAcyclic, length]
    split <;> simp <;> omega
  rw [accepted, acyclic_iff_wellFounded]
  constructor
  · intro all
    have within : taken ⊆ model.nodes.map Node.id := fun id gone =>
      linked.mem_ids_iff.2 ((mem_taken id).1 gone).1
    have perm := (List.subperm_of_subset once within).perm_of_length_le (by simpa [size] using all)
    constructor
    intro id
    constructor
    intro parent isParent
    have known := linked.mem_ids_iff.2 (linked.contains_parent isParent)
    exact ((mem_taken parent).1 (perm.mem_iff.2 known)).2
  · intro wellFounded
    have within : model.nodes.map Node.id ⊆ taken := fun id member =>
      (mem_taken id).2 ⟨linked.mem_ids_iff.1 member, wellFounded.apply id⟩
    simpa [size] using (List.subperm_of_subset linked.numbered.nodup_ids within).length_le

end Model

end Dataflow

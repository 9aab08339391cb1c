import Dataflow.Proofs.Traversing

/-! # Progress of a traversal

Ids that have been produced are dropped from the stack until an id is on top that has not. From then
on each step that produces nothing puts a parent of the top on the stack, so the nodes looked at are
ancestors of one another, and the search for the next node cannot go on for longer than there are
nodes. So a traversal ends only when it has produced everything that it was asked for.
-/

namespace Dataflow

open Relation

namespace Model

/-- Ids of different nodes, all of which are descendants of `top`. -/
structure Lineage (model : Model) (top : NodeId) (ids : List NodeId) : Prop where
  once : ids.Nodup
  known : ∀ id ∈ ids, model.contains id
  descends : ∀ id ∈ ids, TransGen model.IsParent top id

namespace Lineage

variable {model : Model} {top : NodeId} {ids : List NodeId}

theorem nil : model.Lineage top [] where
  once := .nil
  known := by simp
  descends := by simp

theorem once_cons (lineage : model.Lineage top ids) (acyclic : model.Acyclic) :
    (top :: ids).Nodup :=
  List.nodup_cons.2 ⟨fun member => acyclic top (lineage.descends top member), lineage.once⟩

/-- Going from an id to one of its parents makes a lineage longer. -/
theorem cons (lineage : model.Lineage top ids) (acyclic : model.Acyclic)
    (known : model.contains top) {parent : NodeId} (isParent : model.IsParent parent top) :
    model.Lineage parent (top :: ids) where
  once := lineage.once_cons acyclic
  known := List.forall_mem_cons.2 ⟨known, lineage.known⟩
  descends := List.forall_mem_cons.2
    ⟨.single isParent, fun id member => .head isParent (lineage.descends id member)⟩

theorem length_lt (lineage : model.Lineage top ids) (wellFormed : model.WellFormed)
    (known : model.contains top) : ids.length < model.size :=
  wellFormed.linked.length_le_size (lineage.once_cons wellFormed.acyclic)
    (List.forall_mem_cons.2 ⟨known, lineage.known⟩)

end Lineage

end Model

namespace Traversal

/-- A step leads from one traversal to the other without producing a node. -/
def Moves (before after : Traversal) : Prop := before.step = .moved after

/-- The loop of steps ends after this many, with a node and the traversal after it, or with
    nothing. -/
inductive Halts : Nat → Traversal → Option (Node × Traversal) → Prop where
  | finished {traversal : Traversal} : traversal.step = .finished → Halts 1 traversal none
  | produced {traversal after : Traversal} {node : Node} :
      traversal.step = .produced node after → Halts 1 traversal (some (node, after))
  | moved {count : Nat} {traversal after : Traversal} {outcome : Option (Node × Traversal)} :
      traversal.Moves after → Halts count after outcome → Halts (count + 1) traversal outcome

namespace Halts

variable {traversal : Traversal} {outcome other : Option (Node × Traversal)} {m n : Nat}

/-- A search of so many steps finds what the loop ends with. -/
theorem seek_eq (halts : Halts m traversal outcome) {steps : Nat} (enough : m ≤ steps) :
    traversal.seek steps = outcome := by
  induction halts generalizing steps with
  | finished step | produced step =>
      obtain ⟨steps, rfl⟩ := Nat.exists_eq_add_of_le' enough
      simp [seek, step]
  | moved step _ ih =>
      obtain ⟨steps, rfl⟩ : ∃ left, steps = left + 1 := ⟨steps - 1, by omega⟩
      rw [seek, step]
      exact ih (by omega)

theorem unique (first : Halts m traversal outcome) (second : Halts n traversal other) :
    outcome = other := by
  rw [← first.seek_eq (Nat.le_max_left m n), second.seek_eq (Nat.le_max_right m n)]

end Halts

namespace Sound

variable {model : Model} {outputs : List NodeId} {traversal : Traversal}

/-- The search for the next node keeps the invariant and produces one node. -/
theorem seek (linked : model.Linked) (sound : Sound model outputs traversal) {steps : Nat}
    {node : Node} {after : Traversal} (found : traversal.seek steps = some (node, after)) :
    Sound model outputs after ∧ after.visited = node.id :: traversal.visited ∧
      node ∈ model.nodes := by
  induction steps generalizing traversal with
  | zero => cases found
  | succ steps ih =>
      have takes := traversal.takes_step
      unfold Traversal.seek at found
      generalize traversal.step = step at takes found
      cases step with
      | finished => cases found
      | moved next =>
          obtain ⟨sound', visited⟩ := sound.moved linked takes
          rw [← visited]
          exact ih sound' found
      | produced node' next =>
          cases found
          exact sound.produced linked takes

/-- With a missing id on top of the stack, a step produces its node or puts a missing parent of it
    on top. -/
theorem step_of_missing (linked : model.Linked) (sound : Sound model outputs traversal)
    {top : NodeId} {below : List NodeId} (stack : traversal.stack = top :: below)
    (new : top ∉ traversal.visited) :
    (∃ node after, traversal.step = .produced node after) ∨
      ∃ first rest, model.IsParent first top ∧ first ∉ traversal.visited ∧
        traversal.step = .moved { traversal with stack := first :: rest } := by
  have takes := traversal.takes_step
  generalize traversal.step = step at takes
  cases takes with
  | stopped empty => cases stack.symm.trans empty
  | complete empty => cases stack.symm.trans empty
  | reseeded empty => cases stack.symm.trans empty
  | dropped stack' gone =>
      obtain ⟨rfl, rfl⟩ := List.cons.inj (stack.symm.trans stack')
      exact absurd gone new
  | unknown stack' _ absent =>
      obtain ⟨rfl, rfl⟩ := List.cons.inj (stack.symm.trans stack')
      have present := sound.known top (stack ▸ List.mem_cons_self)
      rw [← sound.isOf, Model.contains, absent] at present
      cases present
  | ready => exact .inl ⟨_, _, rfl⟩
  | @waiting _ parent _ node stack' _ found named missing =>
      obtain ⟨rfl, rfl⟩ := List.cons.inj (stack.symm.trans stack')
      have waits : parent ∈ node.parents.filter (· ∉ traversal.visited) := by
        simp [named, missing]
      obtain ⟨first, rest, parents⟩ := List.exists_cons_of_ne_nil (List.ne_nil_of_mem waits)
      obtain ⟨firstNamed, firstNew⟩ := List.mem_filter.1 (parents ▸ List.mem_cons_self)
      rw [sound.isOf] at found
      rw [parents]
      exact .inr ⟨first, _, (linked.isParent_iff found).2 firstNamed, by simpa using firstNew, rfl⟩

/-- With an empty stack, a step ends the traversal, or puts a missing id on the stack if the whole
    model is to be produced. -/
theorem step_of_empty (linked : model.Linked) (sound : Sound model outputs traversal)
    (stack : traversal.stack = []) :
    (traversal.step = .finished ∧
      (traversal.full → ∀ node ∈ model.nodes, node.id ∈ traversal.visited)) ∨
    ∃ cursor sink, sink ∉ traversal.visited ∧
      traversal.step = .moved { traversal with cursor, stack := [sink] } := by
  have takes := traversal.takes_step
  generalize traversal.step = step at takes
  cases takes with
  | stopped _ given => exact .inl ⟨rfl, by simp [given]⟩
  | complete _ _ left =>
      refine .inl ⟨rfl, fun _ node member => ?_⟩
      rw [sound.isOf] at left
      rw [← List.take_append_drop traversal.cursor model.nodes] at member
      exact (List.mem_append.1 member).elim (sound.passed node) (left node)
  | @reseeded passed rest node _ _ left _ missing =>
      have member : node ∈ traversal.model.nodes :=
        List.drop_subset traversal.cursor _ (by simp [left])
      refine .inr ⟨_, _, ?_, rfl⟩
      rw [sound.isOf] at member ⊢
      -- With the sink all its ancestors would have been produced.
      intro gone
      exact missing (sound.scheduled.ancestor_mem linked (linked.followToSink _ member).1 gone)
  | dropped stack' => cases stack.symm.trans stack'
  | unknown stack' => cases stack.symm.trans stack'
  | ready stack' => cases stack.symm.trans stack'
  | waiting stack' => cases stack.symm.trans stack'

/-- From a missing id on top of the stack the search climbs from child to parent until it finds a
    node to produce. -/
theorem climb (wellFormed : model.WellFormed) (sound : Sound model outputs traversal) {top : NodeId}
    {below : List NodeId} (stack : traversal.stack = top :: below) (new : top ∉ traversal.visited)
    {lineage : List NodeId} (descends : model.Lineage top lineage) {steps : Nat}
    (enough : model.size ≤ lineage.length + steps) :
    ∃ count ≤ steps, ∃ found, traversal.Halts count (some found) := by
  have linked := wellFormed.linked
  induction steps generalizing traversal top below lineage with
  | zero =>
      have bound := descends.length_lt wellFormed (sound.known top (stack ▸ List.mem_cons_self))
      omega
  | succ steps ih =>
      rcases sound.step_of_missing linked stack new with
        ⟨node, after, step⟩ | ⟨first, rest, isParent, firstNew, step⟩
      · exact ⟨1, by omega, _, .produced step⟩
      · have known := sound.known top (stack ▸ List.mem_cons_self)
        have sound' := (sound.moved linked (step ▸ traversal.takes_step)).1
        have longer := descends.cons wellFormed.acyclic known isParent
        obtain ⟨count, few, found, halts⟩ :=
          ih sound' rfl firstNew longer (by rw [List.length_cons]; omega)
        exact ⟨count + 1, by omega, found, .moved step halts⟩

theorem halts_of_missing (wellFormed : model.WellFormed) (sound : Sound model outputs traversal)
    {top : NodeId} {below : List NodeId} (stack : traversal.stack = top :: below)
    (new : top ∉ traversal.visited) :
    ∃ count ≤ model.size, ∃ found, traversal.Halts count (some found) :=
  sound.climb wellFormed stack new .nil (Nat.le_add_left _ _)

/-- The search ends: each id on the stack may be dropped and an empty stack seeded; from the first
    missing id on, the nodes looked at are ancestors of one another. If it finds no node, it has
    dropped all of the stack, and found the whole model produced if that was asked for. -/
theorem exists_halts (wellFormed : model.WellFormed) (sound : Sound model outputs traversal) :
    ∃ count ≤ traversal.stack.length + model.size + 2, ∃ outcome,
      traversal.Halts count outcome ∧ (outcome = none →
        (∀ id ∈ traversal.stack, id ∈ traversal.visited) ∧
        (traversal.full → ∀ node ∈ model.nodes, node.id ∈ traversal.visited)) := by
  have linked := wellFormed.linked
  generalize stack : traversal.stack = ids
  induction ids generalizing traversal with
  | nil =>
      rcases sound.step_of_empty linked stack with ⟨step, all⟩ | ⟨cursor, sink, missing, step⟩
      · exact ⟨1, by omega, none, .finished step, fun _ => ⟨List.forall_mem_nil _, all⟩⟩
      · have sound' := (sound.moved linked (step ▸ traversal.takes_step)).1
        obtain ⟨count, few, found, halts⟩ := sound'.halts_of_missing wellFormed rfl missing
        exact ⟨count + 1, by omega, _, .moved step halts, nofun⟩
  | cons top below ih =>
      rw [List.length_cons]
      by_cases gone : top ∈ traversal.visited
      · have step : traversal.step = .moved { traversal with stack := below } := by
          simp [Traversal.step, stack, gone]
        have sound' := (sound.moved linked (.dropped stack gone)).1
        obtain ⟨count, few, outcome, halts, drained⟩ := ih sound' rfl
        refine ⟨count + 1, by omega, outcome, .moved step halts, fun none => ?_⟩
        obtain ⟨rest, all⟩ := drained none
        exact ⟨List.forall_mem_cons.2 ⟨gone, rest⟩, all⟩
      · obtain ⟨count, few, found, halts⟩ := sound.halts_of_missing wellFormed stack gone
        exact ⟨count, by omega, _, halts, nofun⟩

/-- The next node is what the loop of steps ends with. -/
theorem next_eq (wellFormed : model.WellFormed) (sound : Sound model outputs traversal)
    {count : Nat} {outcome : Option (Node × Traversal)} (halts : traversal.Halts count outcome) :
    traversal.next = outcome := by
  obtain ⟨count', few, outcome', halts', -⟩ := sound.exists_halts wellFormed
  rw [halts.unique halts']
  apply halts'.seek_eq
  rwa [stepBound, sound.isOf]

theorem halts_next (wellFormed : model.WellFormed) (sound : Sound model outputs traversal) :
    ∃ count ≤ traversal.stack.length + model.size + 2, traversal.Halts count traversal.next := by
  obtain ⟨count, few, outcome, halts, -⟩ := sound.exists_halts wellFormed
  rw [sound.next_eq wellFormed halts]
  exact ⟨count, few, halts⟩

theorem drained (wellFormed : model.WellFormed) (sound : Sound model outputs traversal)
    (finished : traversal.next = none) :
    (∀ id ∈ traversal.stack, id ∈ traversal.visited) ∧
      (traversal.full → ∀ node ∈ model.nodes, node.id ∈ traversal.visited) := by
  obtain ⟨count, -, outcome, halts, drained⟩ := sound.exists_halts wellFormed
  exact drained ((sound.next_eq wellFormed halts).symm.trans finished)

/-- A traversal that has no next node has produced exactly what it was asked for. -/
theorem mem_visited_iff (wellFormed : model.WellFormed) (sound : Sound model outputs traversal)
    (finished : traversal.next = none) {id : NodeId} : id ∈ traversal.visited ↔
      model.contains id ∧ (outputs = [] ∨ model.Needed outputs id) := by
  have linked := wellFormed.linked
  obtain ⟨dropped, all⟩ := sound.drained wellFormed finished
  constructor
  · intro produced
    refine ⟨sound.scheduled.known linked id produced, ?_⟩
    cases given : outputs with
    | nil => exact .inl rfl
    | cons output rest =>
        right
        rw [← given]
        exact sound.needed (by simp [sound.full, given]) id (List.mem_append_right _ produced)
  · rintro ⟨known, rfl | ⟨output, given, path⟩⟩
    · rw [← linked.mem_ids_iff] at known
      obtain ⟨node, member, rfl⟩ := List.mem_map.1 known
      refine all ?_ node member
      rw [sound.full, Model.isEmpty]
      cases nodes : model.nodes with
      | nil =>
          rw [nodes] at member
          cases member
      | cons _ _ => rfl
    · apply sound.scheduled.ancestor_mem linked path
      rcases List.mem_append.1 (sound.pending output given) with stacked | produced
      · exact dropped output stacked
      · exact produced

end Sound

end Traversal

end Dataflow

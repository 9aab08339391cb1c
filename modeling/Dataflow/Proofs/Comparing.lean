import Dataflow.Proofs.Exploring

/-! # Schedules compared

A search that starts where nodes have been produced together with their ancestors passes them over,
and finds the other nodes in the order in which it would have found them anyway. And it looks at
nothing but nodes and their parents. Main statements: the schedule for two lists of outputs is that
for the second, and then what the one for the first has besides; and the schedule for outputs stays
the same when nodes are added to a model.
-/

namespace Dataflow

open Relation

namespace NodeId

variable {early ids : List NodeId} {id : NodeId}

/-- Some ids, behind those that come early. -/
def behind (early ids : List NodeId) : List NodeId := early ++ ids.filter (· ∉ early)

theorem mem_behind : id ∈ behind early ids ↔ id ∈ early ∨ id ∈ ids := by
  by_cases first : id ∈ early <;> simp [behind, first]

theorem subset_behind : early ⊆ behind early ids := fun _ first => mem_behind.2 (.inl first)

theorem behind_nil (early : List NodeId) : behind early [] = early := List.append_nil early

theorem behind_concat_of_mem (first : id ∈ early) :
    behind early (ids ++ [id]) = behind early ids := by
  simp [behind, List.filter_append, first]

theorem behind_concat_of_not_mem (late : id ∉ early) :
    behind early (ids ++ [id]) = behind early ids ++ [id] := by
  simp [behind, List.filter_append, late]

end NodeId

namespace Model

variable {model : Model} {produced ids after : List NodeId}

/-- With outputs the schedule is what a search from them finds, the last one first. -/
theorem WellFormed.activeNodes_of_explores (wellFormed : model.WellFormed)
    {outputs order : List NodeId} (given : outputs ≠ [])
    (known : ∀ output ∈ outputs, model.contains output)
    (explores : model.Explores (fun _ => []) [] outputs.reverse order) :
    model.activeNodes outputs = .ok order := by
  have active : outputs.isEmpty = false := by simpa using given
  have visit := @Explores.leads model _ _ _ _ false 0 explores (fun _ => rfl) [] (by simp) []
  have path : ReflTransGen Traversal.Leads (.start model outputs)
      ⟨model, [], order.reverse, false, 0⟩ := by
    simpa [Traversal.start, active] using visit
  have ids := wellFormed.ids_toList_eq known path rfl
  rw [activeNodes, traversal_eq_ok known]
  exact congrArg Except.ok (ids.trans (List.reverse_reverse order))

theorem WellFormed.exists_search (wellFormed : model.WellFormed) {outputs : List NodeId}
    (known : ∀ output ∈ outputs, model.contains output) :
    ∃ order, model.Explores (fun _ => []) [] outputs.reverse order :=
  wellFormed.exists_explores (by simp) (by simpa using known) .nil

theorem Explores.eq_of_mem {next : Node → List NodeId}
    (explores : model.Explores next produced ids after) (gone : ∀ id ∈ ids, id ∈ produced) :
    after = produced := explores.unique (.of_mem gone)

theorem Linked.parents_mem (linked : model.Linked) (scheduled : model.Scheduled produced.reverse)
    {id : NodeId} {node : Node} (gone : id ∈ produced) (found : model.get? id = some node) :
    ∀ parent ∈ node.parents, parent ∈ produced := by
  intro parent named
  have path := ReflTransGen.single ((linked.isParent_iff found).2 named)
  exact List.mem_reverse.1 (scheduled.ancestor_mem linked path (List.mem_reverse.2 gone))

/-- If ids have been produced, each after its parents, a search goes on as if they had not, except
    that it does not produce them again. -/
theorem Explores.behind (linked : model.Linked) {early : List NodeId}
    (scheduled : model.Scheduled early.reverse)
    (explores : model.Explores (fun _ => []) produced ids after) :
    model.Explores (fun _ => []) (NodeId.behind early produced) ids
      (NodeId.behind early after) := by
  have above : ∀ {id : NodeId} {node : Node} {ids : List NodeId}, id ∈ early →
      model.get? id = some node → ∀ parent ∈ node.parents, parent ∈ NodeId.behind early ids :=
    fun first found parent named =>
      NodeId.subset_behind (linked.parents_mem scheduled first found parent named)
  induction explores with
  | nil => exact .nil
  | done gone _ ih => exact .done (NodeId.mem_behind.2 (.inr gone)) ih
  | @overtaken _ _ _ _ id _ new found _ gone _ parents ih =>
      by_cases first : id ∈ early
      · rw [parents.eq_of_mem (above first found)] at ih
        exact .done (NodeId.subset_behind first) ih
      · exact .overtaken (by simp [NodeId.mem_behind, first, new]) found parents
          (NodeId.mem_behind.2 (.inr gone)) ih
  | @new _ _ _ _ _ id _ new found _ left none _ parents _ ih =>
      cases none
      by_cases first : id ∈ early
      · -- Nothing is found above an id that has been produced early.
        rw [NodeId.behind_concat_of_mem first, parents.eq_of_mem (above first found)] at ih
        exact .done (NodeId.subset_behind first) ih
      · rw [NodeId.behind_concat_of_not_mem first] at ih
        exact .new (by simp [NodeId.mem_behind, first, new]) found parents
          (by simp [NodeId.mem_behind, first, left]) .nil ih

/-- The schedule for two lists of outputs together is the one for the second list, and then what the
    one for the first list has besides, in its order. -/
theorem Reachable.activeNodes_append (reachable : model.Reachable)
    (room : model.size < UInt64.size) {a b : List NodeId} (givenA : a ≠ []) (givenB : b ≠ [])
    (knownA : ∀ output ∈ a, output ∈ model.nodes.map Node.id)
    (knownB : ∀ output ∈ b, output ∈ model.nodes.map Node.id) :
    ∃ first second, model.activeNodes a = .ok first ∧ model.activeNodes b = .ok second ∧
      model.activeNodes (a ++ b) = .ok (second ++ first.filter (· ∉ second)) := by
  have wellFormed := reachable.wellFormed room
  have linked := wellFormed.linked
  simp only [linked.mem_ids_iff] at knownA knownB
  obtain ⟨first, searchA⟩ := wellFormed.exists_search knownA
  obtain ⟨second, searchB⟩ := wellFormed.exists_search knownB
  have rest := searchA.behind linked (searchB.scheduled linked .nil)
  rw [NodeId.behind_nil] at rest
  have search := searchB.append rest
  rw [← List.reverse_append] at search
  refine ⟨first, second, wellFormed.activeNodes_of_explores givenA knownA searchA,
    wellFormed.activeNodes_of_explores givenB knownB searchB, ?_⟩
  exact wellFormed.activeNodes_of_explores (List.append_ne_nil_of_left_ne_nil givenA b)
    (List.forall_mem_append.2 ⟨knownA, knownB⟩) search

/-- The output of the second list is an ancestor of one of the first. It comes first now, together
    with its own parent. -/
theorem activeNodes_append_sample : ∃ first second,
    first = [⟨3⟩, ⟨1⟩, ⟨0⟩, ⟨2⟩] ∧ second = [⟨1⟩, ⟨0⟩] ∧
    sample.activeNodes [⟨2⟩, ⟨3⟩] = .ok first ∧ sample.activeNodes [⟨0⟩] = .ok second ∧
    sample.activeNodes ([⟨2⟩, ⟨3⟩] ++ [⟨0⟩]) = .ok (second ++ first.filter (· ∉ second)) := by
  obtain ⟨first, second, active, active', both⟩ := Reachable.activeNodes_append reachable_sample
    (by decide) (List.cons_ne_nil ⟨2⟩ [⟨3⟩]) (List.cons_ne_nil ⟨0⟩ []) (by decide) (by decide)
  refine ⟨first, second, ?_, ?_, active, active', both⟩
  · exact Except.ok.inj active.symm
  · exact Except.ok.inj active'.symm

/-- Every node of a model is in another one as well, with the same parents. -/
def ParentsStay (model later : Model) : Prop :=
  ∀ id node, model.get? id = some node →
    ∃ same, later.get? id = some same ∧ same.parents = node.parents

namespace ParentsStay

variable {middle later : Model}

theorem refl (model : Model) : model.ParentsStay model := fun _ node found => ⟨node, found, rfl⟩

theorem trans (first : model.ParentsStay middle) (second : middle.ParentsStay later) :
    model.ParentsStay later := by
  intro id node found
  obtain ⟨between, found', parents⟩ := first id node found
  obtain ⟨same, found'', parents'⟩ := second id between found'
  exact ⟨same, found'', parents'.trans parents⟩

theorem contains (stay : model.ParentsStay later) {id : NodeId} (known : model.contains id) :
    later.contains id := by
  obtain ⟨node, found⟩ := contains_iff_get?.1 known
  obtain ⟨same, found', -⟩ := stay id node found
  exact contains_iff_get?.2 ⟨same, found'⟩

/-- A search that looks at parents only finds the same. -/
theorem explores (stay : model.ParentsStay later)
    (explores : model.Explores (fun _ => []) produced ids after) :
    later.Explores (fun _ => []) produced ids after := by
  induction explores with
  | nil => exact .nil
  | done gone _ ih => exact .done gone ih
  | overtaken new found _ gone _ above ih =>
      obtain ⟨same, found', parents⟩ := stay _ _ found
      exact .overtaken new found' (parents ▸ above) gone ih
  | new new found _ left none _ above _ ih =>
      cases none
      obtain ⟨same, found', parents⟩ := stay _ _ found
      exact .new new found' (parents ▸ above) left .nil ih

end ParentsStay

theorem parentsStay_extend {blueprint : Blueprint} :
    model.ParentsStay (model.extend blueprint) := by
  intro id node found
  refine ⟨_, ?_, Node.parents_learn model.freshId (NodeId.distinct blueprint.parents) node⟩
  have inside : id.position < model.nodes.length := (List.getElem?_eq_some_iff.1 found).1
  rw [get?, extend, List.getElem?_append_left (by simpa using inside), List.getElem?_map]
  exact congrArg (Option.map _) found

theorem parentsStay_tryAdd (numbered : Numbered model.nodes) (blueprint : Blueprint) :
    model.ParentsStay (model.tryAdd blueprint) := by
  unfold tryAdd
  cases added : model.add blueprint with
  | error _ => exact .refl model
  | ok result =>
      obtain ⟨id, after⟩ := result
      obtain ⟨-, -, rfl⟩ := (add_eq_ok_iff numbered).1 added
      exact parentsStay_extend

/-- The model after attempts to add nodes, one after the other. -/
def tryAddAll (model : Model) (blueprints : List Blueprint) : Model := blueprints.foldl tryAdd model

theorem size_le_size_tryAddAll (blueprints : List Blueprint) :
    model.size ≤ (model.tryAddAll blueprints).size := by
  induction blueprints generalizing model with
  | nil => exact Nat.le_refl _
  | cons blueprint rest ih => exact size_le_size_tryAdd.trans ih

/-- Attempts to add nodes keep a model well-formed, and nodes that are there keep their parents. -/
theorem WellFormed.tryAddAll (wellFormed : model.WellFormed) (blueprints : List Blueprint)
    (room : (model.tryAddAll blueprints).size < UInt64.size) :
    (model.tryAddAll blueprints).WellFormed ∧ model.ParentsStay (model.tryAddAll blueprints) := by
  induction blueprints generalizing model with
  | nil => exact ⟨wellFormed, .refl model⟩
  | cons blueprint rest ih =>
      have wellFormed' := wellFormed.tryAdd ((size_le_size_tryAddAll rest).trans_lt room)
      obtain ⟨final, stay⟩ := ih wellFormed' room
      exact ⟨final, (parentsStay_tryAdd wellFormed.linked.numbered blueprint).trans stay⟩

/-- However many nodes are added to a reachable model, or rejected, the schedule for outputs that it
    had before stays the same. -/
theorem Reachable.activeNodes_tryAddAll (reachable : model.Reachable) (blueprints : List Blueprint)
    (room : (model.tryAddAll blueprints).size < UInt64.size) {outputs : List NodeId}
    (given : outputs ≠ []) (known : ∀ output ∈ outputs, output ∈ model.nodes.map Node.id) :
    ∃ order, model.activeNodes outputs = .ok order ∧
      (model.tryAddAll blueprints).activeNodes outputs = .ok order := by
  have wellFormed := reachable.wellFormed ((size_le_size_tryAddAll blueprints).trans_lt room)
  obtain ⟨grown, stay⟩ := wellFormed.tryAddAll blueprints room
  simp only [wellFormed.linked.mem_ids_iff] at known
  obtain ⟨order, search⟩ := wellFormed.exists_search known
  exact ⟨order, wellFormed.activeNodes_of_explores given known search,
    grown.activeNodes_of_explores given (fun output member => stay.contains (known output member))
      (stay.explores search)⟩

/-- A node that reads from two of `sample`, one that is rejected as it names its own id, and one
    that nobody asked for. -/
def additions : List Blueprint :=
  [(Blueprint.ofKind "limit").withInput "in" [⟨2⟩, ⟨1⟩],
    (Blueprint.ofKind "loop").withInput "in" [⟨5⟩], .ofKind "spare"]

theorem activeNodes_tryAddAll_sample : (sample.tryAddAll additions).size = 6 ∧
    ∃ order, sample.activeNodes [⟨2⟩, ⟨3⟩] = .ok order ∧
      (sample.tryAddAll additions).activeNodes [⟨2⟩, ⟨3⟩] = .ok order :=
  ⟨rfl, Reachable.activeNodes_tryAddAll reachable_sample additions (by decide) (by simp)
    (by decide)⟩

end Model

end Dataflow

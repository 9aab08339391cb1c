import Dataflow.Proofs.Coverage

/-! # The search for the next node ends

Asking a traversal for its next node runs a loop of steps. Main statements: whatever the state of
the traversal, the loop ends after so many steps, with a node or because there is none left, so the
bound on its steps never cuts it short; nor is the path to a sink cut short, and an empty stack is
always reseeded with a sink that is still missing.
-/

namespace Dataflow

open Relation

namespace Model

variable {model : Model}

/-- The first of the dependents of a node. -/
def FirstDependent (model : Model) (node dependent : Node) : Prop :=
  dependent ∈ model.nodes ∧ node.dependents.head? = some dependent.id

/-- Following first dependents leads from the node to the sink, which has none. -/
structure SinkOf (model : Model) (node sink : Node) : Prop where
  path : ReflTransGen model.FirstDependent node sink
  isSink : sink.dependents = []

/-- A node is the sink itself or one of its ancestors. -/
theorem SinkOf.isAncestor (linked : model.Linked) {node sink : Node}
    (sinkOf : model.SinkOf node sink) (member : node ∈ model.nodes) :
    ReflTransGen model.IsParent node.id sink.id := by
  obtain ⟨path, -⟩ := sinkOf
  induction path using ReflTransGen.head_induction_on with
  | refl => exact .refl
  | head step _ ih =>
      obtain ⟨present, first⟩ := step
      exact .head ((linked.mem_dependents member).1 (List.mem_of_head? first)) (ih present)

theorem Linked.sinkOf_unique (linked : model.Linked) {node a b : Node}
    (first : model.SinkOf node a) (second : model.SinkOf node b) : a = b := by
  have stops : ∀ {sink other : Node}, sink.dependents = [] → ¬model.FirstDependent sink other := by
    rintro sink other isSink ⟨-, first⟩
    rw [isSink] at first
    cases first
  have rightUnique : Relator.RightUnique model.FirstDependent := by
    rintro node x y ⟨memX, firstX⟩ ⟨memY, firstY⟩
    exact linked.numbered.eq_of_id_eq memX memY (Option.some.inj (firstX.symm.trans firstY))
  rcases ReflTransGen.total_of_right_unique rightUnique first.path second.path with path | path
  · rcases path.cases_head with same | ⟨_, step, -⟩
    · exact same
    · exact absurd step (stops first.isSink)
  · rcases path.cases_head with same | ⟨_, step, -⟩
    · exact same.symm
    · exact absurd step (stops second.isSink)

/-- A node has fewer different ancestors than the model has nodes. -/
theorem WellFormed.length_ancestors_lt (wellFormed : model.WellFormed) {id : NodeId}
    (known : model.contains id) {above : List NodeId} (once : above.Nodup)
    (ancestors : ∀ ancestor ∈ above, TransGen model.IsParent ancestor id) :
    above.length < model.size := by
  have once' : (id :: above).Nodup :=
    List.nodup_cons.2 ⟨fun member => wellFormed.acyclic id (ancestors id member), once⟩
  refine wellFormed.linked.length_le_size once' (List.forall_mem_cons.2 ⟨known, ?_⟩)
  intro ancestor member
  obtain ⟨_, isParent, -⟩ := TransGen.head'_iff.1 (ancestors ancestor member)
  exact wellFormed.linked.contains_parent isParent

/-- With enough links first dependents are followed to a sink. The nodes `above` have been
    passed. -/
theorem WellFormed.followToSink (wellFormed : model.WellFormed) {links : Nat} {node : Node}
    (member : node ∈ model.nodes) {above : List NodeId} (once : above.Nodup)
    (passed : ∀ id ∈ above, TransGen model.IsParent id node.id)
    (enough : model.size ≤ above.length + links) :
    ∃ sink ∈ model.nodes, model.SinkOf node sink ∧ model.followToSink links node = sink.id := by
  have linked := wellFormed.linked
  have known : model.contains node.id := contains_iff.2 (linked.numbered.position_lt member)
  induction links generalizing node above with
  | zero =>
      have bound := wellFormed.length_ancestors_lt known once passed
      omega
  | succ links ih =>
      unfold Model.followToSink
      split
      · next dependent found =>
        obtain ⟨id, first, found⟩ := Option.bind_eq_some_iff.1 found
        obtain ⟨present, rfl⟩ := linked.get?_eq_some_iff.1 found
        have isParent := (linked.mem_dependents member).1 (List.mem_of_head? first)
        have new : node.id ∉ above := fun again => wellFormed.acyclic _ (passed _ again)
        have passed' : ∀ id ∈ node.id :: above, TransGen model.IsParent id dependent.id :=
          List.forall_mem_cons.2
            ⟨.single isParent, fun id member => (passed id member).tail isParent⟩
        obtain ⟨sink, isNode, sinkOf, same⟩ := ih present (List.nodup_cons.2 ⟨new, once⟩) passed'
          (by rw [List.length_cons]; omega) (linked.contains_child isParent)
        exact ⟨sink, isNode, ⟨.head ⟨present, first⟩ sinkOf.path, sinkOf.isSink⟩, same⟩
      · next none =>
        refine ⟨node, member, ⟨.refl, ?_⟩, rfl⟩
        cases dependents : node.dependents with
        | nil => rfl
        | cons id rest =>
            have isParent := (linked.mem_dependents member).1 (dependents ▸ List.mem_cons_self)
            obtain ⟨child, found⟩ := contains_iff_get?.1 (linked.contains_child isParent)
            simp [dependents, found] at none

/-- The sink with which a traversal is seeded is the one to which first dependents lead. -/
theorem WellFormed.exists_sinkOf (wellFormed : model.WellFormed) {node : Node}
    (member : node ∈ model.nodes) :
    ∃ sink ∈ model.nodes, model.SinkOf node sink ∧ model.sinkFrom node = sink.id :=
  wellFormed.followToSink member .nil (List.forall_mem_nil _) (Nat.le_add_left _ _)

end Model

namespace Traversal

/-- A step leads from one traversal to the other. -/
def Leads (before after : Traversal) : Prop :=
  before.Moves after ∨ ∃ node, before.step = .produced node after

/-- The search for the next node leads to where a node has been produced or no step is left. -/
theorem Halts.exists_leads {count : Nat} {traversal : Traversal}
    {outcome : Option (Node × Traversal)} (halts : Halts count traversal outcome) :
    ∃ last, ReflTransGen Leads traversal last ∧
      ((outcome = none ∧ last.step = .finished) ∨ ∃ node, outcome = some (node, last)) := by
  induction halts with
  | finished step => exact ⟨_, .refl, .inl ⟨rfl, step⟩⟩
  | produced step => exact ⟨_, .single (.inr ⟨_, step⟩), .inr ⟨_, rfl⟩⟩
  | moved step _ ih =>
      obtain ⟨last, path, ended⟩ := ih
      exact ⟨last, .head (.inl step) path, ended⟩

namespace Sound

variable {model : Model} {outputs : List NodeId} {traversal : Traversal}

theorem moves (linked : model.Linked) (sound : Sound model outputs traversal) {after : Traversal}
    (path : ReflTransGen Moves traversal after) : Sound model outputs after := by
  induction path with
  | refl => exact sound
  | tail _ step ih => exact (ih.moved linked (step ▸ takes_step _)).1

/-- Reseeding puts a sink on the stack that is still missing. -/
theorem exists_sink_of_reseed? (wellFormed : model.WellFormed)
    (sound : Sound model outputs traversal) {seeded : Traversal}
    (reseed : traversal.reseed? = some seeded) : ∃ sink ∈ model.nodes, sink.dependents = [] ∧
      sink.id ∉ traversal.visited ∧ seeded.stack = sink.id :: traversal.stack := by
  obtain rfl := sound.isOf
  rcases traversal.reseed?_cases with
    ⟨none, -⟩ | ⟨passed, node, rest, left, -, missing, some⟩
  · cases none.symm.trans reseed
  · cases some.symm.trans reseed
    have member : node ∈ traversal.model.nodes :=
      List.drop_subset traversal.cursor _ (by simp [left])
    obtain ⟨sink, isNode, sinkOf, same⟩ := wellFormed.exists_sinkOf member
    refine ⟨sink, isNode, sinkOf.isSink, ?_, by rw [same]⟩
    -- With the sink all its ancestors would have been produced.
    intro gone
    have path := sinkOf.isAncestor wellFormed.linked member
    exact missing (sound.scheduled.ancestor_mem wellFormed.linked path gone)

theorem next_eq_of_moves (wellFormed : model.WellFormed) (sound : Sound model outputs traversal)
    {after : Traversal} (step : traversal.Moves after) : traversal.next = after.next := by
  have sound' := (sound.moved wellFormed.linked (step ▸ traversal.takes_step)).1
  obtain ⟨count, -, halts⟩ := sound'.halts_next wellFormed
  exact sound.next_eq wellFormed (.moved step halts)

/-- Steps to the end are a run: what they produce is what asking for the next node again and again
    gives. -/
theorem exists_run_of_leads (wellFormed : model.WellFormed)
    (sound : Sound model outputs traversal) {last : Traversal}
    (path : ReflTransGen Leads traversal last) (ends : last.step = .finished) :
    ∃ nodes final, traversal.Run nodes final ∧ final.next = none ∧
      final.visited = last.visited := by
  induction path using ReflTransGen.head_induction_on with
  | refl => exact ⟨[], last, .stop, sound.next_eq wellFormed (.finished ends), rfl⟩
  | @head traversal middle step _ ih =>
      rcases step with step | ⟨node, step⟩
      · obtain ⟨sound', visited⟩ := sound.moved wellFormed.linked (step ▸ traversal.takes_step)
        have next := sound.next_eq_of_moves wellFormed step
        obtain ⟨nodes, final, run, stops, same⟩ := ih sound'
        cases run with
        | stop => exact ⟨[], traversal, .stop, next.trans stops, visited.symm.trans same⟩
        | more found rest => exact ⟨_, final, .more (next.trans found) rest, stops, same⟩
      · have sound' := (sound.produced wellFormed.linked (step ▸ traversal.takes_step)).1
        have next := sound.next_eq wellFormed (.produced step)
        obtain ⟨nodes, final, run, stops, same⟩ := ih sound'
        exact ⟨node :: nodes, final, .more next run, stops, same⟩

/-- Asking for node after node leads to where no step is left. -/
theorem exists_leads_to_end (wellFormed : model.WellFormed)
    (sound : Sound model outputs traversal) :
    ∃ last, ReflTransGen Leads traversal last ∧ last.step = .finished := by
  obtain ⟨nodes, final, run, ends⟩ := sound.exists_run wellFormed.linked
  induction run with
  | @stop traversal =>
      obtain ⟨count, -, halts⟩ := sound.halts_next wellFormed
      obtain ⟨last, path, ⟨-, step⟩ | ⟨node, next⟩⟩ := halts.exists_leads
      · exact ⟨last, path, step⟩
      · cases ends.symm.trans next
  | @more traversal after _ _ _ next _ ih =>
      obtain ⟨count, -, halts⟩ := sound.halts_next wellFormed
      obtain ⟨middle, first, ⟨none, -⟩ | ⟨node, next'⟩⟩ := halts.exists_leads
      · cases next.symm.trans none
      · cases next.symm.trans next'
        obtain ⟨last, rest, step⟩ := ih (sound.seek wellFormed.linked next).1 ends
        exact ⟨last, first.trans rest, step⟩

end Sound

end Traversal

namespace Model

variable {model : Model} {outputs : List NodeId}

theorem traversal_eq_ok_iff {first : Traversal} : model.traversal outputs = .ok first ↔
    (∀ output ∈ outputs, model.contains output) ∧ first = .start model outputs := by
  constructor
  · intro accepted
    unfold traversal at accepted
    split at accepted
    · cases accepted
    · next none =>
      cases accepted
      exact ⟨by simpa [List.find?_eq_none] using none, rfl⟩
  · rintro ⟨known, rfl⟩
    exact traversal_eq_ok known

/-- Where steps lead from the start of a traversal to its end, the order of its nodes can be read
    off there. -/
theorem WellFormed.ids_toList_eq (wellFormed : model.WellFormed)
    (known : ∀ output ∈ outputs, model.contains output) {last : Traversal}
    (path : ReflTransGen Traversal.Leads (.start model outputs) last)
    (ends : last.step = .finished) :
    (Traversal.start model outputs).toList.map Node.id = last.visited.reverse := by
  have sound := Traversal.Sound.start known
  obtain ⟨nodes, final, run, stops, same⟩ := sound.exists_run_of_leads wellFormed path ends
  have visited := (sound.run wellFormed.linked run).2.1
  rw [wellFormed.toList_eq known run stops, ← same, visited]
  simp [Traversal.start]

end Model

end Dataflow

import Dataflow.Proofs.Progress
import Dataflow.Proofs.Reachable

/-! # What traversals produce

A traversal is run by asking for the next node until there is none. Every run comes to an end. One
without outputs produces each node of the model once, one with outputs produces them and their
ancestors once, and both produce parents before children.
-/

namespace Dataflow

open Relation

namespace Traversal

/-- Asking for the next node again and again gives these nodes in turn, and leaves the traversal
    `last`. -/
inductive Run : Traversal → List Node → Traversal → Prop where
  | stop {traversal : Traversal} : Run traversal [] traversal
  | more {traversal after last : Traversal} {node : Node} {nodes : List Node} :
      traversal.next = some (node, after) → Run after nodes last →
      Run traversal (node :: nodes) last

/-- Asking for the next node gives these nodes in turn, and then no more. -/
def Gives (traversal : Traversal) (nodes : List Node) : Prop :=
  ∃ last, traversal.Run nodes last ∧ last.next = none

namespace Run

variable {traversal last : Traversal} {nodes : List Node}

/-- A run to the end produces the nodes still to come. -/
theorem take_eq (run : traversal.Run nodes last) (ends : last.next = none) {count : Nat}
    (enough : nodes.length ≤ count) : traversal.take count = nodes := by
  induction run generalizing count with
  | stop =>
      cases count with
      | zero => rfl
      | succ count => rw [Traversal.take, ends]
  | more next _ ih =>
      rw [List.length_cons] at enough
      cases count with
      | zero => omega
      | succ count =>
          rw [Traversal.take, next]
          exact congrArg _ (ih ends (by omega))

end Run

namespace Sound

variable {model : Model} {outputs : List NodeId} {traversal last : Traversal} {nodes : List Node}

theorem run (linked : model.Linked) (sound : Sound model outputs traversal)
    (run : traversal.Run nodes last) : Sound model outputs last ∧
      last.visited = (nodes.map Node.id).reverse ++ traversal.visited ∧
      ∀ node ∈ nodes, node ∈ model.nodes := by
  induction run with
  | stop => exact ⟨sound, rfl, by simp⟩
  | more next _ ih =>
      obtain ⟨sound', visited, member⟩ := sound.seek linked next
      obtain ⟨final, visited', members⟩ := ih sound'
      refine ⟨final, ?_, List.forall_mem_cons.2 ⟨member, members⟩⟩
      rw [visited', visited]
      simp

/-- Every run comes to an end, since no node comes twice. -/
theorem exists_run (linked : model.Linked) (sound : Sound model outputs traversal) :
    ∃ nodes last, traversal.Run nodes last ∧ last.next = none := by
  induction left : model.size - traversal.visited.length using Nat.strong_induction_on
    generalizing traversal with
  | _ left ih =>
      cases next : traversal.next with
      | none => exact ⟨[], traversal, .stop, next⟩
      | some found =>
          obtain ⟨node, after⟩ := found
          obtain ⟨sound', visited, -⟩ := sound.seek linked next
          have bound := sound'.scheduled.length_le_size linked
          have longer : after.visited.length = traversal.visited.length + 1 := by
            rw [visited, List.length_cons]
          obtain ⟨nodes, last, run, ends⟩ := ih _ (by omega) sound' rfl
          exact ⟨node :: nodes, last, .more next run, ends⟩

end Sound

end Traversal

namespace Model

variable {model : Model} {outputs : List NodeId}

/-- These are the nodes that a traversal for outputs is to produce, each once and after its parents.
    Without outputs it is the whole model. -/
structure Covers (model : Model) (outputs : List NodeId) (nodes : List Node) : Prop where
  members : ∀ node ∈ nodes, node ∈ model.nodes
  once : (nodes.map Node.id).Nodup
  order : model.RespectsParents (nodes.map Node.id)
  mem_iff : ∀ id, id ∈ nodes.map Node.id ↔
    model.contains id ∧ (outputs = [] ∨ model.Needed outputs id)

theorem Covers.perm {nodes : List Node} (covers : model.Covers [] nodes) (linked : model.Linked) :
    nodes.Perm model.nodes :=
  linked.perm_of_ids covers.members covers.once fun id known =>
    (covers.mem_iff id).2 ⟨known, .inl rfl⟩

/-- A run to the end covers what was asked for. -/
theorem WellFormed.covers_of_run (wellFormed : model.WellFormed)
    (known : ∀ output ∈ outputs, model.contains output) {nodes : List Node} {last : Traversal}
    (run : (Traversal.start model outputs).Run nodes last) (ends : last.next = none) :
    model.Covers outputs nodes := by
  have linked := wellFormed.linked
  obtain ⟨sound, visited, members⟩ := (Traversal.Sound.start known).run linked run
  have produced : nodes.map Node.id = last.visited.reverse := by
    rw [visited]
    simp [Traversal.start]
  constructor
  · exact members
  · rw [produced]
    exact List.nodup_reverse.2 sound.scheduled.nodup
  · rw [produced]
    exact sound.scheduled.respectsParents linked
  · intro id
    rw [produced, List.mem_reverse]
    exact sound.mem_visited_iff wellFormed ends

/-- The nodes still to come when a traversal starts are those of a run to the end. -/
theorem WellFormed.toList_eq (wellFormed : model.WellFormed)
    (known : ∀ output ∈ outputs, model.contains output) {nodes : List Node} {last : Traversal}
    (run : (Traversal.start model outputs).Run nodes last) (ends : last.next = none) :
    (Traversal.start model outputs).toList = nodes := by
  have covers := wellFormed.covers_of_run known run ends
  have few : nodes.length ≤ model.size := by
    have ids := wellFormed.linked.length_le_size covers.once fun id member =>
      ((covers.mem_iff id).1 member).1
    rwa [List.length_map] at ids
  exact run.take_eq ends few

theorem WellFormed.covers_toList (wellFormed : model.WellFormed)
    (known : ∀ output ∈ outputs, model.contains output) :
    model.Covers outputs (Traversal.start model outputs).toList := by
  obtain ⟨nodes, last, run, ends⟩ := (Traversal.Sound.start known).exists_run wellFormed.linked
  rw [wellFormed.toList_eq known run ends]
  exact wellFormed.covers_of_run known run ends

theorem Linked.contains_of_needed (linked : model.Linked)
    (known : ∀ output ∈ outputs, model.contains output) {id : NodeId}
    (needed : model.Needed outputs id) : model.contains id := by
  obtain ⟨output, given, path⟩ := needed
  cases path using ReflTransGen.head_induction_on with
  | refl => exact known id given
  | head isParent _ => exact linked.contains_parent isParent

theorem WellFormed.schedule_perm (wellFormed : model.WellFormed) :
    model.schedule.Perm model.nodes := by
  have known : ∀ output ∈ ([] : List NodeId), model.contains output := List.forall_mem_nil _
  exact (wellFormed.covers_toList known).perm wellFormed.linked

theorem traversal_eq_ok (known : ∀ output ∈ outputs, model.contains output) :
    model.traversal outputs = .ok (.start model outputs) := by
  have search : outputs.find? (fun id => !model.contains id) = none := by
    simpa [List.find?_eq_none] using known
  rw [traversal, search]

theorem traversal_eq_error {before : List NodeId} {missing : NodeId} (after : List NodeId)
    (known : ∀ output ∈ before, model.contains output) (unknown : ¬model.contains missing) :
    model.traversal (before ++ missing :: after) = .error (.unknownNode missing) := by
  have search : (before ++ missing :: after).find? (fun id => !model.contains id) =
      some missing := by
    rw [List.find?_append, List.find?_eq_none.2 (by simpa using known)]
    simp [unknown]
  rw [traversal, search]

/-- Without outputs, asking a traversal of a reachable model for nodes comes to an end, and produces
    each node once and after its parents. -/
theorem Reachable.full_run (reachable : model.Reachable) (room : model.size < UInt64.size) :
    ∃ first, model.traversal [] = .ok first ∧
      (∃ nodes last, first.Run nodes last ∧ last.next = none) ∧
      ∀ nodes last, first.Run nodes last → last.next = none →
        nodes.Perm model.nodes ∧ model.RespectsParents (nodes.map Node.id) := by
  have wellFormed := reachable.wellFormed room
  have known : ∀ output ∈ ([] : List NodeId), model.contains output := List.forall_mem_nil _
  refine ⟨_, traversal_eq_ok known, ?_, ?_⟩
  · exact (Traversal.Sound.start known).exists_run wellFormed.linked
  · intro nodes last run ends
    have covers := wellFormed.covers_of_run known run ends
    exact ⟨covers.perm wellFormed.linked, covers.order⟩

theorem full_run_sample : ∃ first, sample.traversal [] = .ok first ∧
    (∃ nodes last, first.Run nodes last ∧ last.next = none) ∧
    ∀ nodes last, first.Run nodes last → last.next = none →
      nodes.Perm sample.nodes ∧ sample.RespectsParents (nodes.map Node.id) :=
  Reachable.full_run reachable_sample (by decide)

example : sample.schedule.map Node.id = [⟨1⟩, ⟨0⟩, ⟨2⟩, ⟨3⟩] := rfl

/-- With outputs, a traversal of a reachable model fails at the first one that is not there.
    Otherwise it produces them and their ancestors, each once and after its parents. -/
theorem Reachable.activeNodes_eq (reachable : model.Reachable) (room : model.size < UInt64.size)
    (given : outputs ≠ []) :
    (∀ before missing after, outputs = before ++ missing :: after →
      (∀ output ∈ before, output ∈ model.nodes.map Node.id) →
      missing ∉ model.nodes.map Node.id →
        model.traversal outputs = .error (.unknownNode missing) ∧
        model.activeNodes outputs = .error (.unknownNode missing)) ∧
    ((∀ output ∈ outputs, output ∈ model.nodes.map Node.id) →
      ∃ order, model.activeNodes outputs = .ok order ∧ order.Nodup ∧
        (∀ id, id ∈ order ↔ ∃ output ∈ outputs, ReflTransGen model.IsParent id output) ∧
        model.RespectsParents order) := by
  have wellFormed := reachable.wellFormed room
  have linked := wellFormed.linked
  simp only [linked.mem_ids_iff]
  constructor
  · rintro before missing after rfl known unknown
    have fails := traversal_eq_error after known unknown
    refine ⟨fails, ?_⟩
    rw [activeNodes, fails]
    rfl
  · intro known
    have covers := wellFormed.covers_toList known
    refine ⟨_, ?_, covers.once, ?_, covers.order⟩
    · rw [activeNodes, traversal_eq_ok known]
      rfl
    · intro id
      rw [covers.mem_iff]
      constructor
      · rintro ⟨-, none | needed⟩
        · exact absurd none given
        · exact needed
      · intro needed
        exact ⟨linked.contains_of_needed known needed, .inr needed⟩

theorem activeNodes_eq_sample :
    (∀ before missing after, [⟨2⟩, ⟨0⟩, ⟨2⟩] = before ++ missing :: after →
      (∀ output ∈ before, output ∈ sample.nodes.map Node.id) →
      missing ∉ sample.nodes.map Node.id →
        sample.traversal [⟨2⟩, ⟨0⟩, ⟨2⟩] = .error (.unknownNode missing) ∧
        sample.activeNodes [⟨2⟩, ⟨0⟩, ⟨2⟩] = .error (.unknownNode missing)) ∧
    ((∀ output ∈ [⟨2⟩, ⟨0⟩, ⟨2⟩], output ∈ sample.nodes.map Node.id) →
      ∃ order, sample.activeNodes [⟨2⟩, ⟨0⟩, ⟨2⟩] = .ok order ∧ order.Nodup ∧
        (∀ id, id ∈ order ↔ ∃ output ∈ [⟨2⟩, ⟨0⟩, ⟨2⟩], ReflTransGen sample.IsParent id output) ∧
        sample.RespectsParents order) :=
  Reachable.activeNodes_eq reachable_sample (by decide) (by simp)

example : sample.activeNodes [⟨2⟩, ⟨0⟩, ⟨2⟩] = .ok [⟨1⟩, ⟨0⟩, ⟨2⟩] := rfl

end Model

end Dataflow

import Dataflow.Proofs.Restoring
import Dataflow.Proofs.Stuck

/-! # The queue of the cycle check

The check takes one node after the other from its queue and releases the dependents of each in turn.
No node enters the queue twice, and none is released more often than it has distinct parents, so the
queue is empty in the end, when the nodes on and behind cycles are left. Main statement: this holds
of every model that the first two phases of restoring have built, with or without cycles.
-/

namespace Dataflow

open Relation

namespace Peeling

/-- What the check of a model passes through: the ids that have entered the queue, the earliest
    first; the dependents of the node taken last that are still to be released; and the state. -/
inductive Passes (model : Model) : List NodeId → List NodeId → Peeling → Prop where
  | start : Passes model (start model).queue [] (.start model)
  | take {entered queue : List NodeId} {id : NodeId} {peeling : Peeling} :
      Passes model entered [] peeling → peeling.queue = id :: queue →
      Passes model entered (((model.get? id).map Node.dependents).getD [])
        { peeling with queue, ordered := peeling.ordered + 1 }
  | release {entered added rest : List NodeId} {id : NodeId} {peeling : Peeling} :
      Passes model entered (id :: rest) peeling →
      (peeling.release id).queue = peeling.queue ++ added →
      Passes model (entered ++ added) rest (peeling.release id)

/-- Releasing nodes takes none away. -/
theorem ordered_foldl (ids : List NodeId) (peeling : Peeling) :
    (ids.foldl release peeling).ordered = peeling.ordered := by
  induction ids generalizing peeling with
  | nil => rfl
  | cons id rest ih => rw [List.foldl_cons, ih, release_eq]

/-- Releasing nodes only adds to the queue. -/
theorem queue_foldl_isPrefix (ids : List NodeId) (peeling : Peeling) :
    peeling.queue <+: (ids.foldl release peeling).queue := by
  induction ids generalizing peeling with
  | nil => exact List.prefix_rfl
  | cons id rest ih =>
      have first : peeling.queue <+: (peeling.release id).queue := by
        rw [release_eq]
        exact List.prefix_append _ _
      exact first.trans (ih _)

/-- The state of a check, in terms of the last state in which no dependent was to be released. -/
inductive Tracked (model : Model) : List NodeId → List NodeId → Peeling → Prop where
  | between {taken : List NodeId} {peeling : Peeling} :
      Tracks model taken peeling → Tracked model taken [] peeling
  | within {taken queue released waiting : List NodeId} {peeling : Peeling} {node : Node} :
      Tracks model taken peeling → node ∈ model.nodes → peeling.queue = node.id :: queue →
      node.dependents = released ++ waiting →
      Tracked model (node.id :: taken) waiting
        (released.foldl release { peeling with queue, ordered := peeling.ordered + 1 })

namespace Tracked

variable {model : Model} {taken waiting : List NodeId} {peeling : Peeling}

/-- With the last dependent of a node its round is over. -/
theorem tracks (linked : model.Linked) (tracked : Tracked model taken [] peeling) :
    Tracks model taken peeling := by
  cases tracked with
  | between tracks => exact tracks
  | within tracks member next dependents =>
      rw [List.append_nil] at dependents
      rw [← dependents]
      exact tracks.take linked member next

/-- The round can be finished: a later state has the same nodes taken away, and no shorter queue. -/
theorem exists_tracks (linked : model.Linked) (tracked : Tracked model taken waiting peeling) :
    ∃ after, Tracks model taken after ∧ after.ordered = peeling.ordered ∧
      peeling.queue <+: after.queue := by
  cases tracked with
  | between tracks => exact ⟨peeling, tracks, rfl, List.prefix_rfl⟩
  | @within taken queue released _ before node tracks member next dependents =>
      have whole := tracks.take linked member next
      rw [dependents] at whole
      refine ⟨_, whole, ?_, ?_⟩
      · rw [ordered_foldl, ordered_foldl]
      · rw [List.foldl_append]
        exact queue_foldl_isPrefix waiting _

theorem nodup (linked : model.Linked) (tracked : Tracked model taken waiting peeling) :
    (taken ++ peeling.queue).Nodup := by
  obtain ⟨after, tracks, -, grows⟩ := tracked.exists_tracks linked
  exact tracks.nodup.sublist (grows.sublist.append_left taken)

theorem ordered (linked : model.Linked) (tracked : Tracked model taken waiting peeling) :
    peeling.ordered = taken.length := by
  obtain ⟨after, tracks, same, -⟩ := tracked.exists_tracks linked
  rw [← same, tracks.ordered]

theorem length_le_size (linked : model.Linked) (tracked : Tracked model taken waiting peeling) :
    peeling.ordered + peeling.queue.length ≤ model.size := by
  obtain ⟨after, tracks, same, grows⟩ := tracked.exists_tracks linked
  have bound := linked.length_le_size tracks.nodup tracks.known
  rw [List.length_append, ← tracks.ordered, same] at bound
  have := grows.length_le
  omega

/-- A node that is still to be released waits for a parent. -/
theorem exists_degree (linked : model.Linked) {id : NodeId} {rest : List NodeId}
    (tracked : Tracked model taken (id :: rest) peeling) :
    ∃ degree, peeling.degrees[id.position]? = some (degree + 1) := by
  cases tracked with
  | @within taken queue released _ before node tracks member next dependents =>
      have once : (released ++ id :: rest).Nodup :=
        dependents ▸ (linked.ascending member).imp ne_of_lt
      obtain ⟨once_released, -, apart⟩ := List.nodup_append.1 once
      have later : id ∉ released := fun earlier => apart id earlier id List.mem_cons_self rfl
      have isParent : model.IsParent node.id id :=
        (linked.mem_dependents member).1 (by simp [dependents])
      obtain ⟨child, present, rfl, named⟩ := isParent
      -- Its degree is that from before the round, which counts the node taken last.
      have degree : (released.foldl release
          { before with queue, ordered := before.ordered + 1 }).degrees[child.id.position]? =
            some (child.missing taken) := by
        rw [(foldl_release once_released _).2.1, tracks.degrees child present]
        simp [later]
      have new : node.id ∉ taken := by
        have once := tracks.nodup
        rw [next] at once
        intro earlier
        exact (List.nodup_append.1 once).2.2 _ earlier _ List.mem_cons_self rfl
      have waits : child.missing taken ≠ 0 := fun none =>
        new (Node.missing_eq_zero_iff.1 none node.id named)
      obtain ⟨degree', positive⟩ := Nat.exists_eq_succ_of_ne_zero waits
      exact ⟨degree', by rw [degree, positive]⟩

end Tracked

namespace Passes

variable {model : Model} {entered waiting : List NodeId} {peeling : Peeling}

/-- The ids that have entered the queue are those taken from it and those still in it. -/
theorem tracked (linked : model.Linked) (passes : Passes model entered waiting peeling) :
    ∃ taken, Tracked model taken waiting peeling ∧ entered.Perm (taken ++ peeling.queue) := by
  induction passes with
  | start => exact ⟨[], .between (.start linked), .refl _⟩
  | @take entered queue id peeling _ next ih =>
      obtain ⟨taken, tracked, perm⟩ := ih
      have tracks := tracked.tracks linked
      obtain ⟨node, found⟩ := Model.contains_iff_get?.1 (tracks.known id (by simp [next]))
      obtain ⟨member, rfl⟩ := linked.get?_eq_some_iff.1 found
      refine ⟨node.id :: taken, ?_, ?_⟩
      · rw [found]
        exact .within tracks member next (List.nil_append _).symm
      · rw [next] at perm
        exact perm.trans List.perm_middle
  | @release entered added rest id _ _ grows ih =>
      obtain ⟨taken, tracked, perm⟩ := ih
      refine ⟨taken, ?_, ?_⟩
      · cases tracked with
        | @within _ _ released _ _ node tracks member next dependents =>
            have split : node.dependents = (released ++ [id]) ++ rest := by simp [dependents]
            simpa only [List.foldl_concat] using Tracked.within tracks member next split
      · rw [grows, ← List.append_assoc]
        exact perm.append_right added

/-- No node enters the queue twice. -/
theorem nodup (linked : model.Linked) (passes : Passes model entered waiting peeling) :
    entered.Nodup := by
  obtain ⟨taken, tracked, perm⟩ := passes.tracked linked
  exact perm.nodup_iff.2 (tracked.nodup linked)

theorem length_le_size (linked : model.Linked) (passes : Passes model entered waiting peeling) :
    peeling.ordered + peeling.queue.length ≤ model.size := by
  obtain ⟨taken, tracked, -⟩ := passes.tracked linked
  exact tracked.length_le_size linked

/-- No count of missing parents is taken below zero. -/
theorem exists_degree (linked : model.Linked) {id : NodeId}
    (passes : Passes model entered (id :: waiting) peeling) :
    ∃ degree, peeling.degrees[id.position]? = some (degree + 1) := by
  obtain ⟨taken, tracked, -⟩ := passes.tracked linked
  exact tracked.exists_degree linked

/-- All dependents of a node are released in turn. -/
theorem foldl_release {ids : List NodeId} (passes : Passes model entered (ids ++ waiting) peeling) :
    ∃ entered', Passes model entered' waiting (ids.foldl Peeling.release peeling) := by
  induction ids generalizing entered peeling with
  | nil => exact ⟨entered, passes⟩
  | cons id rest ih =>
      obtain ⟨added, grows⟩ := queue_foldl_isPrefix [id] peeling
      exact ih (passes.release grows.symm)

/-- The check passes through the state in which it ends, with an empty queue unless it was stopped
    after so many nodes. -/
theorem exists_run (passes : Passes model entered [] peeling) (count : Nat) :
    ∃ entered' last, Passes model entered' [] last ∧ run model count peeling = last.ordered ∧
      (last.queue = [] ∨ last.ordered = peeling.ordered + count) := by
  induction count generalizing entered peeling with
  | zero => exact ⟨entered, peeling, passes, rfl, .inr rfl⟩
  | succ count ih =>
      cases next : peeling.queue with
      | nil => exact ⟨entered, peeling, passes, by simp [run, next], .inl next⟩
      | cons id queue =>
          have round := passes.take next
          rw [← List.append_nil (Option.getD _ _)] at round
          obtain ⟨entered₁, passes₁⟩ := round.foldl_release
          obtain ⟨entered₂, last, passes₂, result, drained⟩ := ih passes₁
          refine ⟨entered₂, last, passes₂, by simpa [run, next] using result, ?_⟩
          refine drained.imp_right fun stopped => ?_
          rw [stopped, ordered_foldl]
          exact Nat.succ_add_eq_add_succ peeling.ordered count

/-- The check of a linked model ends with an empty queue. -/
theorem exists_last (linked : model.Linked) : ∃ entered last, Passes model entered [] last ∧
    last.queue = [] ∧ last.ordered = model.orderedCount := by
  obtain ⟨entered, last, passes, result, drained⟩ := (@start model).exists_run model.size
  refine ⟨entered, last, passes, ?_, result.symm⟩
  have bound := passes.length_le_size linked
  rcases drained with empty | stopped
  · exact empty
  · exact List.length_eq_zero_iff.1 (by omega)

end Passes

end Peeling

namespace Model

/-- The check of what the first two phases of restoring have built finds out whether there is a
    cycle, and otherwise counts the nodes on and behind cycles. On its way no node enters the queue
    twice, it does not take away more nodes than there are, and it lowers no count of missing
    parents that is zero; and it goes on until the queue is empty. -/
theorem checkAcyclic_of_linkNodes {description : ModelDescription} {context : Context}
    (room : description.size < UInt64.size) {staged model : Model} {scope : Scope}
    (registered : registerNodes context.openScope .empty
      (NodeDescription.sortById description.nodes) = (.ok staged, scope))
    (linking : linkNodes scope.frame staged = .ok model) :
    (model.checkAcyclic = .ok () ↔ model.Acyclic) ∧
    (¬model.Acyclic →
      model.checkAcyclic = .error (.cyclicGraph {id | BehindCycle model.IsParent id}.ncard)) ∧
    (∀ entered waiting peeling, Peeling.Passes model entered waiting peeling →
      entered.Nodup ∧ peeling.ordered ≤ model.size ∧
      ∀ id rest, waiting = id :: rest →
        ∃ degree, peeling.degrees[id.position]? = some (degree + 1)) ∧
    ∃ entered last, Peeling.Passes model entered [] last ∧
      last.queue = [] ∧ last.ordered = model.orderedCount := by
  obtain ⟨-, -, linked, -⟩ := ranked_of_linkNodes room registered linking
  refine ⟨linked.checkAcyclic_eq_ok_iff, linked.checkAcyclic_of_cycle, ?_,
    Peeling.Passes.exists_last linked⟩
  intro entered waiting peeling passes
  refine ⟨passes.nodup linked, ?_, ?_⟩
  · exact (Nat.le_add_right _ _).trans (passes.length_le_size linked)
  · rintro id rest rfl
    exact passes.exists_degree linked

end Model

/-- A node that reads from itself, one that reads from it twice, one that reads from both and from
    a source, and the source. -/
def ModelDescription.looped : ModelDescription where
  nodes := [⟨⟨8⟩, "scale", [⟨"left", [⟨3⟩]⟩, ⟨"right", [⟨3⟩]⟩], .empty⟩,
    ⟨⟨3⟩, "delay", [⟨"in", [⟨3⟩]⟩], .empty⟩, ⟨⟨5⟩, "load", [], .empty⟩,
    ⟨⟨6⟩, "sum", [⟨"in", [⟨5⟩, ⟨8⟩, ⟨3⟩]⟩], .empty⟩]

namespace Model

theorem checkAcyclic_of_linkNodes_looped : ∃ staged scope model,
    registerNodes (Context.new none).openScope .empty
      (NodeDescription.sortById ModelDescription.looped.nodes) = (.ok staged, scope) ∧
    linkNodes scope.frame staged = .ok model ∧ model.checkAcyclic = .error (.cyclicGraph 3) ∧
    (model.checkAcyclic = .ok () ↔ model.Acyclic) ∧
    (¬model.Acyclic →
      model.checkAcyclic = .error (.cyclicGraph {id | BehindCycle model.IsParent id}.ncard)) ∧
    (∀ entered waiting peeling, Peeling.Passes model entered waiting peeling →
      entered.Nodup ∧ peeling.ordered ≤ model.size ∧
      ∀ id rest, waiting = id :: rest →
        ∃ degree, peeling.degrees[id.position]? = some (degree + 1)) ∧
    ∃ entered last, Peeling.Passes model entered [] last ∧
      last.queue = [] ∧ last.ordered = model.orderedCount :=
  ⟨_, _, _, rfl, rfl, rfl,
    @checkAcyclic_of_linkNodes .looped (.new none) (by decide) _ _ _ rfl rfl⟩

end Model

end Dataflow

import Dataflow.Proofs.Cycles
import Dataflow.Proofs.Linking

/-! # Restoring models

Registering the nodes in the order of their ids gives each as its new id the number of smaller ids.
Together with linking and the cycle check this says which descriptions can be restored, and as which
model.
-/

namespace Dataflow

namespace ModelDescription

/-- The new id of a described node: the number of described nodes with smaller ids. -/
def rank (description : ModelDescription) (id : NodeId) : NodeId :=
  .ofNat (description.nodes.countP (·.id < id))

/-- The described nodes in the order of their ids, with all ids replaced by new ones. -/
def ranked (description : ModelDescription) : List NodeDescription :=
  (NodeDescription.sortById description.nodes).map (·.rename description.rank)

end ModelDescription

namespace NodeDescription

/-- With distinct ids, sorting puts each node behind as many as have smaller ids. -/
theorem countP_lt {nodes : List NodeDescription} (sorted : nodes.Pairwise fun a b => a.id < b.id)
    {k : Nat} {described : NodeDescription} (place : nodes[k]? = some described) :
    nodes.countP (·.id < described.id) = k := by
  induction nodes generalizing k with
  | nil => cases place
  | cons first rest ih =>
      obtain ⟨least, sorted⟩ := List.pairwise_cons.1 sorted
      cases k with
      | zero =>
          obtain rfl : first = described := Option.some.inj place
          rw [List.countP_eq_zero]
          intro other member
          rcases List.mem_cons.1 member with rfl | later
          · simp
          · simpa using (least other later).le
      | succ k =>
          rw [List.getElem?_cons_succ] at place
          have less := least described (List.mem_of_getElem? place)
          rw [List.countP_cons, ih sorted place]
          simp [less]

theorem pairwise_lt_sortById {nodes : List NodeDescription}
    (once : (nodes.map NodeDescription.id).Nodup) :
    (sortById nodes).Pairwise fun a b => a.id < b.id := by
  have once' := ((sortById_perm nodes).map NodeDescription.id).nodup_iff.2 once
  rw [List.Nodup, List.pairwise_map] at once'
  exact ((pairwise_sortById nodes).and once').imp fun both => lt_of_le_of_ne both.1 both.2

end NodeDescription

namespace Model

/-- Restoring succeeds if all of its phases do. -/
theorem restoreIn_eq_ok_iff_phases {description : ModelDescription} {context : Context}
    {model : Model} : (restoreIn description context).1 = .ok model ↔ ∃ staged scope,
      registerNodes context.openScope .empty (NodeDescription.sortById description.nodes) =
        (.ok staged, scope) ∧
      linkNodes scope.frame staged = .ok model ∧ model.checkAcyclic = .ok () := by
  simp only [restoreIn, Except.bind_eq_ok_iff]
  constructor
  · rintro ⟨staged, registered, last, linked, _, checked, same⟩
    cases same
    exact ⟨staged, _, Prod.ext registered rfl, linked, checked⟩
  · rintro ⟨staged, scope, registered, linked, checked⟩
    rw [registered]
    exact ⟨staged, rfl, model, linked, (), checked, rfl⟩

/-- Restoring leaves a context as it was, also when it fails. -/
theorem context_of_restoreIn (description : ModelDescription) (context : Context) :
    (restoreIn description context).2 = context := by
  obtain ⟨frame, scope⟩ := exists_frame_of_registerNodes context .empty .empty
    (NodeDescription.sortById description.nodes)
  rw [← Scope.openScope_eq_setFrame] at scope
  simp only [restoreIn, scope, Scope.close_setFrame_openScope]

/-- Restoring neither drops nor adds a node. -/
theorem size_of_restoreIn {description : ModelDescription} {context : Context} {model : Model}
    (ok : (restoreIn description context).1 = .ok model) : model.size = description.size := by
  obtain ⟨staged, scope, registered, linked, -⟩ := restoreIn_eq_ok_iff_phases.1 ok
  rw [size_of_linkNodes linked, size_of_registerNodes (congrArg Prod.fst registered),
    (NodeDescription.sortById_perm description.nodes).length_eq]
  exact Nat.zero_add _

/-- The frame that registration leaves maps ids to their ranks. -/
theorem Staged.rename_eq_rank {description : ModelDescription} {frame : Frame} {model : Model}
    (staged : Staged (NodeDescription.sortById description.nodes) frame model) {id : NodeId}
    (described : id ∈ description.nodes.map NodeDescription.id) :
    frame.rename id = description.rank id := by
  have perm := NodeDescription.sortById_perm description.nodes
  obtain ⟨node, member, rfl⟩ := List.mem_map.1 described
  obtain ⟨k, place⟩ := List.mem_iff_getElem?.1 (perm.mem_iff.2 member)
  have once := (perm.map NodeDescription.id).nodup_iff.1 staged.once
  rw [staged.rename_eq place, ModelDescription.rank, ← perm.countP_eq,
    NodeDescription.countP_lt (NodeDescription.pairwise_lt_sortById once) place]

theorem Staged.linkNodes_eq_ok_iff_ranked {description : ModelDescription} {frame : Frame}
    {model after : Model}
    (staged : Staged (NodeDescription.sortById description.nodes) frame model) :
    linkNodes frame model = .ok after ↔ NodeDescription.Closed description.nodes ∧
      after.Linked ∧ after.nodes.map NodeDescription.ofNode = description.ranked := by
  have perm := NodeDescription.sortById_perm description.nodes
  have sameClosed : NodeDescription.Closed (NodeDescription.sortById description.nodes) ↔
      NodeDescription.Closed description.nodes := ⟨.of_perm perm, .of_perm perm.symm⟩
  rw [staged.linkNodes_eq_ok_iff, sameClosed]
  refine and_congr_right fun closed => ?_
  have renamed : (NodeDescription.sortById description.nodes).map (·.rename frame.rename) =
      description.ranked := by
    apply List.map_congr_left
    intro node member
    have present := perm.mem_iff.1 member
    apply NodeDescription.rename_congr
    · exact staged.rename_eq_rank (List.mem_map_of_mem present)
    · intro parent named
      exact staged.rename_eq_rank (closed node present parent named)
  rw [renamed]

theorem restoreIn_of_registerNodes_error {description : ModelDescription} {context : Context}
    {e : ModelError} (failed : (registerNodes context.openScope .empty
      (NodeDescription.sortById description.nodes)).1 = .error e) :
    (restoreIn description context).1 = .error e := by
  simp only [restoreIn, failed]
  rfl

theorem restoreIn_of_linkNodes_error {description : ModelDescription} {context : Context}
    {staged : Model} {scope : Scope} {e : ModelError}
    (registered : registerNodes context.openScope .empty
      (NodeDescription.sortById description.nodes) = (.ok staged, scope))
    (failed : linkNodes scope.frame staged = .error e) :
    (restoreIn description context).1 = .error e := by
  simp only [restoreIn, registered]
  change linkNodes scope.frame staged >>= _ = _
  rw [failed]
  rfl

/-- If all nodes can be registered and linked, the cycle check of the model with the new ids
    decides. -/
theorem exists_restoreIn_eq_checkAcyclic {description : ModelDescription} {context : Context}
    (room : description.size < UInt64.size)
    (registrable : NodeDescription.Registrable context description.nodes)
    (closed : NodeDescription.Closed description.nodes) : ∃ model : Model,
      model.Linked ∧ model.nodes.map NodeDescription.ofNode = description.ranked ∧
      (restoreIn description context).1 = model.checkAcyclic.map fun _ => model := by
  have perm := (NodeDescription.sortById_perm description.nodes).symm
  obtain ⟨frame, staged, registered, isStaged⟩ :=
    exists_staged (by rwa [← perm.length_eq]) (registrable.of_perm perm)
  obtain ⟨model, linked⟩ := isStaged.exists_linkNodes (closed.of_perm perm)
  obtain ⟨-, isLinked, nodes⟩ := isStaged.linkNodes_eq_ok_iff_ranked.1 linked
  refine ⟨model, isLinked, nodes, ?_⟩
  simp only [restoreIn, registered, Scope.frame_setFrame_openScope]
  change linkNodes frame staged >>= _ = _
  rw [linked]
  change (model.checkAcyclic >>= fun _ => Except.ok model) = _
  cases model.checkAcyclic <;> rfl

/-- What the first two phases have built is linked and has the new ids. They get that far only if
    kinds are accepted, ids are distinct and parents are described. -/
theorem ranked_of_linkNodes {description : ModelDescription} {context : Context}
    (room : description.size < UInt64.size) {staged model : Model} {scope : Scope}
    (registered : registerNodes context.openScope .empty
      (NodeDescription.sortById description.nodes) = (.ok staged, scope))
    (linking : linkNodes scope.frame staged = .ok model) :
    NodeDescription.Registrable context description.nodes ∧
      NodeDescription.Closed description.nodes ∧
      model.Linked ∧ model.nodes.map NodeDescription.ofNode = description.ranked := by
  have perm := NodeDescription.sortById_perm description.nodes
  have length : (NodeDescription.sortById description.nodes).length < UInt64.size := by
    rwa [perm.length_eq]
  have registrable := registrable_of_registerNodes length (congrArg Prod.fst registered)
  obtain ⟨frame, staged', registered', isStaged⟩ := exists_staged length registrable
  cases registered.symm.trans registered'
  rw [Scope.frame_setFrame_openScope] at linking
  exact ⟨registrable.of_perm perm, isStaged.linkNodes_eq_ok_iff_ranked.1 linking⟩

/-- Which descriptions can be restored in a context, and as which model: kinds are accepted, ids are
    distinct, parents are described, and the model with the new ids has no cycle. -/
theorem restoreIn_eq_ok_iff {description : ModelDescription} {context : Context} {model : Model}
    (room : description.size < UInt64.size) :
    (restoreIn description context).1 = .ok model ↔
      NodeDescription.Registrable context description.nodes ∧
      NodeDescription.Closed description.nodes ∧
      model.WellFormed ∧ model.nodes.map NodeDescription.ofNode = description.ranked := by
  rw [restoreIn_eq_ok_iff_phases]
  constructor
  · rintro ⟨staged, scope, registered, linked, checked⟩
    obtain ⟨registrable, closed, isLinked, nodes⟩ := ranked_of_linkNodes room registered linked
    exact ⟨registrable, closed, ⟨isLinked, isLinked.checkAcyclic_eq_ok_iff.1 checked⟩, nodes⟩
  · rintro ⟨registrable, closed, wellFormed, nodes⟩
    have perm := (NodeDescription.sortById_perm description.nodes).symm
    obtain ⟨frame, staged, registered, isStaged⟩ :=
      exists_staged (by rwa [← perm.length_eq]) (registrable.of_perm perm)
    have linked := isStaged.linkNodes_eq_ok_iff_ranked.2 ⟨closed, wellFormed.linked, nodes⟩
    rw [← Scope.frame_setFrame_openScope context frame] at linked
    exact ⟨staged, _, registered, linked,
      wellFormed.linked.checkAcyclic_eq_ok_iff.2 wellFormed.acyclic⟩

end Model

end Dataflow

import Dataflow.Proofs.Registration

/-! # Linking registered nodes

The second phase of restoring takes one registered node after the other, renames its parents, and
tells them of it. It goes through if and only if all parents are described, and what it results in
is determined by the descriptions.
-/

namespace Dataflow

namespace NodeDescription

/-- The parents that a described node reads from, with repeats. -/
def parents (described : NodeDescription) : List NodeId := Input.allParents described.inputs

/-- All parents are among the nodes. -/
def Closed (nodes : List NodeDescription) : Prop :=
  ∀ described ∈ nodes, ∀ parent ∈ described.parents, parent ∈ nodes.map NodeDescription.id

theorem Closed.of_perm {a b : List NodeDescription} (perm : a.Perm b) (closed : Closed a) :
    Closed b := fun described member parent named =>
  (perm.map NodeDescription.id).mem_iff.1 (closed described (perm.mem_iff.2 member) parent named)

/-- A description with its parents renamed. -/
def renameParents (f : NodeId → NodeId) (described : NodeDescription) : NodeDescription :=
  { described with inputs := described.inputs.map (Input.rename f) }

/-- A description with its id and its parents renamed. -/
def rename (f : NodeId → NodeId) (described : NodeDescription) : NodeDescription :=
  { described.renameParents f with id := f described.id }

theorem parents_rename (f : NodeId → NodeId) (described : NodeDescription) :
    (described.rename f).parents = described.parents.map f :=
  Input.allParents_rename f described.inputs

theorem rename_congr {f g : NodeId → NodeId} {described : NodeDescription}
    (id : f described.id = g described.id)
    (parents : ∀ parent ∈ described.parents, f parent = g parent) :
    described.rename f = described.rename g := by
  rw [rename, rename, renameParents, renameParents, id, Input.rename_congr parents]

theorem map_ofNode_learn (id : NodeId) (parents : List NodeId) (nodes : List Node) :
    (nodes.map (Node.learn id parents)).map ofNode = nodes.map ofNode := by
  rw [List.map_map]
  apply List.map_congr_left
  intro node _
  simp [ofNode]

end NodeDescription

namespace Model

theorem linkParents_eq_ok_iff {model after : Model} {id : NodeId} {parents : List NodeId} :
    linkParents model id parents = .ok after ↔
      (∀ parent ∈ parents, model.contains parent) ∧ after = model.link id parents := by
  unfold linkParents
  induction parents generalizing model with
  | nil =>
      constructor
      · rintro ⟨⟩
        exact ⟨nofun, rfl⟩
      · rintro ⟨-, rfl⟩
        rfl
  | cons parent rest ih =>
      rw [List.foldlM_cons, List.forall_mem_cons]
      by_cases inside : model.contains parent
      · have same : model.link id (parent :: rest) = (model.link id [parent]).link id rest := rfl
        rw [if_pos inside, same]
        refine Iff.trans ih ?_
        simp only [contains_link, inside, true_and]
      · simp [inside, Bind.bind, Except.bind]

theorem linkNode_eq_ok_iff {frame : Frame} {model after : Model} {id : NodeId} {node : Node}
    (found : model.get? id = some node) : linkNode frame model id = .ok after ↔
      (∀ parent ∈ node.parents, frame.Knows parent ∧ model.contains (frame.rename parent)) ∧
        after = Model.link
          { model with nodes := model.nodes.set id.position (node.renameParents frame.rename) } id
          (node.renameParents frame.rename).distinctParents := by
  have contains_set (nodes : List Node) (parent : NodeId)
      (same : nodes.length = model.nodes.length) :
      Model.contains { model with nodes } parent ↔ model.contains parent := by
    rw [contains_iff, contains_iff, size, size, same]
  simp only [linkNode, found, Except.bind_eq_ok_iff, linkParents_eq_ok_iff]
  constructor
  · rintro ⟨parents, resolved, inside, rfl⟩
    have known := Node.knows_of_resolveParents_ok resolved
    rw [Node.resolveParents_of_knows known] at resolved inside ⊢
    cases resolved
    refine ⟨fun parent named => ⟨known parent named, ?_⟩, rfl⟩
    rw [← contains_set _ _ List.length_set]
    apply inside
    rw [Node.mem_distinctParents, Node.parents_renameParents]
    exact List.mem_map_of_mem named
  · rintro ⟨known, rfl⟩
    rw [Node.resolveParents_of_knows fun parent named => (known parent named).1]
    refine ⟨_, rfl, fun parent renamed => ?_, rfl⟩
    rw [Node.mem_distinctParents, Node.parents_renameParents] at renamed
    obtain ⟨stored, named, rfl⟩ := List.mem_map.1 renamed
    rw [contains_set _ _ List.length_set]
    exact (known stored named).2

theorem size_of_linkNode {frame : Frame} {model after : Model} {id : NodeId}
    (ok : linkNode frame model id = .ok after) : after.size = model.size := by
  cases found : model.get? id with
  | none =>
      rw [linkNode, found] at ok
      cases ok
      rfl
  | some node =>
      obtain ⟨-, rfl⟩ := (linkNode_eq_ok_iff found).1 ok
      rw [size_link]
      exact List.length_set

theorem size_of_linkNodes {frame : Frame} {model after : Model}
    (ok : linkNodes frame model = .ok after) : after.size = model.size := by
  unfold linkNodes at ok
  generalize model.nodes.map Node.id = ids at ok
  induction ids generalizing model with
  | nil =>
      cases ok
      rfl
  | cons id rest ih =>
      rw [List.foldlM_cons] at ok
      obtain ⟨next, first, later⟩ := Except.bind_eq_ok_iff.1 ok
      rw [ih later, size_of_linkNode first]

/-- What holds when the first `count` of the registered nodes have been linked: their parents are
    renamed, and those of the others are not. -/
structure Resolved (frame : Frame) (staged : List NodeDescription) (count : Nat) (model : Model) :
    Prop where
  linked : model.LinkedUpTo count
  nodes : model.nodes.map NodeDescription.ofNode =
    (staged.take count).map (·.renameParents frame.rename) ++ staged.drop count

namespace Resolved

variable {frame : Frame} {staged : List NodeDescription} {count : Nat} {model after : Model}

theorem size_eq (resolved : Resolved frame staged count model) : model.size = staged.length := by
  have lengths := congrArg List.length resolved.nodes
  simp only [List.length_map, List.length_append, List.length_take, List.length_drop] at lengths
  rw [size]
  omega

theorem length_renamed {described : NodeDescription} (place : staged[count]? = some described) :
    ((staged.take count).map (·.renameParents frame.rename)).length = count := by
  have inside := (List.getElem?_eq_some_iff.1 place).1
  rw [List.length_map, List.length_take]
  omega

/-- The next node to be linked is still as it was registered. -/
theorem next (resolved : Resolved frame staged count model) {described : NodeDescription}
    (place : staged[count]? = some described) : ∃ node,
      model.nodes[count]? = some node ∧ .ofNode node = described ∧ node.id = .ofNat count := by
  have length := @length_renamed frame staged count described place
  have found : (model.nodes.map NodeDescription.ofNode)[count]? = some described := by
    rw [resolved.nodes, List.getElem?_append_right length.le, length, Nat.sub_self,
      List.getElem?_drop, Nat.add_zero, place]
  rw [List.getElem?_map, Option.map_eq_some_iff] at found
  obtain ⟨node, found, same⟩ := found
  refine ⟨node, found, same, ?_⟩
  rw [← resolved.linked.numbered count node found, NodeId.ofNat_position]

theorem nodes_set (resolved : Resolved frame staged count model) {node : Node}
    (place : staged[count]? = some (.ofNode node)) :
    (model.nodes.set count (node.renameParents frame.rename)).map NodeDescription.ofNode =
      (staged.take (count + 1)).map (·.renameParents frame.rename) ++ staged.drop (count + 1) := by
  have length := @length_renamed frame staged count _ place
  have taken : staged.take (count + 1) = staged.take count ++ [.ofNode node] := by
    rw [List.take_add_one, place]
    rfl
  have dropped : staged.drop count = .ofNode node :: staged.drop (count + 1) := by
    obtain ⟨inside, here⟩ := List.getElem?_eq_some_iff.1 place
    rw [List.drop_eq_getElem_cons inside, here]
  rw [List.map_set, resolved.nodes, taken, dropped, List.set_append_right _ _ length.le, length,
    Nat.sub_self, List.set_cons_zero, List.map_append, List.append_assoc]
  rfl

theorem of_linkNode (resolved : Resolved frame staged count model)
    {described : NodeDescription} (place : staged[count]? = some described)
    (ok : linkNode frame model (.ofNat count) = .ok after) :
    (∀ parent ∈ described.parents, frame.Knows parent) ∧
      Resolved frame staged (count + 1) after := by
  obtain ⟨node, found, rfl, id⟩ := resolved.next place
  have position : node.id.position = count := resolved.linked.numbered count node found
  have get : model.get? node.id = some node := by rw [get?, position, found]
  rw [← id, linkNode_eq_ok_iff get, position] at ok
  obtain ⟨known, rfl⟩ := ok
  have changed : LinkedUpTo
      { model with nodes := model.nodes.set count (node.renameParents frame.rename) } count :=
    resolved.linked.setInputs found _
  have place' : (model.nodes.set count (node.renameParents frame.rename))[count]? =
      some (node.renameParents frame.rename) :=
    List.getElem?_set_self (List.getElem?_eq_some_iff.1 found).1
  have linked := changed.link place' (by
    intro parent renamed
    rw [Node.parents_renameParents] at renamed
    obtain ⟨stored, named, rfl⟩ := List.mem_map.1 renamed
    rw [contains_iff, size, List.length_set]
    exact contains_iff.1 (known stored named).2)
  refine ⟨fun parent named => (known parent named).1, linked, ?_⟩
  rw [nodes_link _ changed.numbered, NodeDescription.map_ofNode_learn]
  exact resolved.nodes_set place

theorem get?_next (resolved : Resolved frame staged count model) {described : NodeDescription}
    (place : staged[count]? = some described) : ∃ node, model.get? (.ofNat count) = some node ∧
      .ofNode node = described ∧ node.id = .ofNat count := by
  obtain ⟨node, found, same, id⟩ := resolved.next place
  refine ⟨node, ?_, same, id⟩
  rw [← id, get?, resolved.linked.numbered count node found, found]

/-- The next node can be linked if all its parents are described: their new ids are ids of nodes. -/
theorem exists_linkNode (resolved : Resolved frame staged count model)
    (targets : ∀ id, frame.Knows id → (frame.rename id).position < staged.length)
    {described : NodeDescription} (place : staged[count]? = some described)
    (known : ∀ parent ∈ described.parents, frame.Knows parent) :
    ∃ after, linkNode frame model (.ofNat count) = .ok after := by
  obtain ⟨node, found, rfl, -⟩ := resolved.get?_next place
  refine ⟨_, (linkNode_eq_ok_iff found).2 ⟨fun parent named => ⟨known parent named, ?_⟩, rfl⟩⟩
  rw [contains_iff, resolved.size_eq]
  exact targets parent (known parent named)

/-- Otherwise the first of them that is not is reported. -/
theorem linkNode_eq_error (resolved : Resolved frame staged count model)
    {described : NodeDescription} (place : staged[count]? = some described) {parent : NodeId}
    (first : described.parents.find? (fun id => (frame.get? id).isNone) = some parent) :
    linkNode frame model (.ofNat count) = .error
      (.danglingReference ((frame.stored? (.ofNat count)).getD (.ofNat count)) parent) := by
  obtain ⟨node, found, rfl, id⟩ := resolved.get?_next place
  have failed := Node.resolveParents_error first
  simp only [linkNode, found, failed, id]
  rfl

/-- When all nodes have been linked, the model is, and all parents are renamed. -/
theorem all_iff : Resolved frame staged staged.length model ↔ model.Linked ∧
    model.nodes.map NodeDescription.ofNode = staged.map (·.renameParents frame.rename) := by
  constructor
  · intro resolved
    have linked := resolved.linked
    have nodes := resolved.nodes
    rw [← resolved.size_eq] at linked
    rw [List.take_length, List.drop_length, List.append_nil] at nodes
    exact ⟨linked, nodes⟩
  · rintro ⟨linked, nodes⟩
    have size : model.size = staged.length := by
      simpa [Model.size] using congrArg List.length nodes
    constructor
    · rwa [← size]
    · rw [List.take_length, List.drop_length, List.append_nil]
      exact nodes

/-- Linking the nodes from the next one on. -/
theorem linkNodes_eq_ok_iff (resolved : Resolved frame staged count model)
    (targets : ∀ id, frame.Knows id → (frame.rename id).position < staged.length) {left : Nat}
    (length : staged.length = count + left) :
    ((List.range' count left).map NodeId.ofNat).foldlM (linkNode frame) model = .ok after ↔
      (∀ described ∈ staged.drop count, ∀ parent ∈ described.parents, frame.Knows parent) ∧
        Resolved frame staged staged.length after := by
  induction left generalizing count model with
  | zero =>
      obtain rfl : staged.length = count := length
      have same : Resolved frame staged staged.length after ↔ model = after := by
        constructor
        · intro resolved'
          obtain ⟨linked, nodes⟩ := all_iff.1 resolved
          obtain ⟨linked', nodes'⟩ := all_iff.1 resolved'
          exact linked.eq_of_descriptions linked' (nodes.trans nodes'.symm)
        · rintro rfl
          exact resolved
      rw [same, List.drop_length]
      simp [pure, Except.pure]
  | succ left ih =>
      have inside : count < staged.length := by omega
      have place := List.getElem?_eq_getElem inside
      rw [List.range'_succ, List.map_cons, List.foldlM_cons, Except.bind_eq_ok_iff,
        List.drop_eq_getElem_cons inside, List.forall_mem_cons, and_assoc]
      constructor
      · rintro ⟨next, first, later⟩
        obtain ⟨known, resolved'⟩ := resolved.of_linkNode place first
        exact ⟨known, (ih resolved' (by omega)).1 later⟩
      · rintro ⟨known, later⟩
        obtain ⟨next, first⟩ := resolved.exists_linkNode targets place known
        obtain ⟨-, resolved'⟩ := resolved.of_linkNode place first
        exact ⟨next, first, (ih resolved' (by omega)).2 later⟩

/-- The next nodes can be linked if all their parents are described. -/
theorem exists_linkNodes (resolved : Resolved frame staged count model)
    (targets : ∀ id, frame.Knows id → (frame.rename id).position < staged.length) {left : Nat}
    (inside : count + left ≤ staged.length)
    (known : ∀ described ∈ (staged.drop count).take left, ∀ parent ∈ described.parents,
      frame.Knows parent) :
    ∃ after, ((List.range' count left).map NodeId.ofNat).foldlM (linkNode frame) model = .ok after ∧
      Resolved frame staged (count + left) after := by
  induction left generalizing count model with
  | zero => exact ⟨model, rfl, resolved⟩
  | succ left ih =>
      have here : count < staged.length := by omega
      have place := List.getElem?_eq_getElem here
      rw [List.drop_eq_getElem_cons here, List.take_succ_cons, List.forall_mem_cons] at known
      obtain ⟨next, first⟩ := resolved.exists_linkNode targets place known.1
      obtain ⟨-, resolved'⟩ := resolved.of_linkNode place first
      obtain ⟨after, later, last⟩ := ih resolved' (by omega) known.2
      rw [Nat.add_right_comm] at last
      exact ⟨after, Except.bind_eq_ok_iff.2 ⟨next, first, later⟩, last⟩

end Resolved

namespace Staged

variable {done : List NodeDescription} {frame : Frame} {model : Model}

theorem rename_eq (staged : Staged done frame model) {k : Nat} {described : NodeDescription}
    (place : done[k]? = some described) : frame.rename described.id = .ofNat k := by
  rw [Frame.rename, staged.get? k described place, Option.getD_some]

/-- There is a new id for each described node. -/
theorem length_lt (staged : Staged done frame model) : done.length < UInt64.size := by
  rw [← staged.size_eq, ← staged.unlinked.nextId]
  exact model.nextId.toNat_lt

/-- New ids lie inside the model. -/
theorem rename_lt (staged : Staged done frame model) {id : NodeId} (known : frame.Knows id) :
    (frame.rename id).position < done.length := by
  obtain ⟨described, member, rfl⟩ := List.mem_map.1 ((staged.knows id).1 known)
  obtain ⟨k, place⟩ := List.mem_iff_getElem?.1 member
  have inside := (List.getElem?_eq_some_iff.1 place).1
  rw [staged.rename_eq place, NodeId.position_ofNat (inside.trans staged.length_lt)]
  exact inside

theorem map_renumber (staged : Staged done frame model) :
    (NodeDescription.renumber done).map (·.renameParents frame.rename) =
      done.map (·.rename frame.rename) := by
  apply List.ext_getElem (by simp [NodeDescription.renumber])
  intro k _ inside
  rw [List.length_map] at inside
  simp [NodeDescription.renumber, NodeDescription.rename, NodeDescription.renameParents,
    staged.rename_eq (List.getElem?_eq_getElem inside)]

/-- New ids leave the parents of described nodes as they are. -/
theorem forall_parents_renumber {nodes : List NodeDescription} {p : NodeId → Prop} :
    (∀ described ∈ NodeDescription.renumber nodes, ∀ parent ∈ described.parents, p parent) ↔
      ∀ described ∈ nodes, ∀ parent ∈ described.parents, p parent := by
  simp only [NodeDescription.renumber, List.forall_mem_iff_getElem]
  simp [NodeDescription.parents]

/-- All parents are registered if and only if they are described. -/
theorem forall_knows_iff (staged : Staged done frame model) :
    (∀ described ∈ NodeDescription.renumber done, ∀ parent ∈ described.parents,
      frame.Knows parent) ↔ NodeDescription.Closed done := by
  simp only [forall_parents_renumber, staged.knows]
  rfl

theorem length_renumber (nodes : List NodeDescription) :
    (NodeDescription.renumber nodes).length = nodes.length := List.length_mapIdx

theorem take_renumber (before after : List NodeDescription) :
    (NodeDescription.renumber (before ++ after)).take before.length =
      NodeDescription.renumber before := by
  rw [NodeDescription.renumber, List.mapIdx_append, List.take_left' List.length_mapIdx]
  rfl

/-- Before any node is linked, none has its parents renamed. -/
theorem resolved (staged : Staged done frame model) :
    Resolved frame (NodeDescription.renumber done) 0 model where
  linked := staged.unlinked
  nodes := by
    rw [List.take_zero, List.drop_zero, staged.nodes]
    rfl

theorem linkNodes_eq (staged : Staged done frame model) : linkNodes frame model =
    ((List.range' 0 done.length).map NodeId.ofNat).foldlM (linkNode frame) model := by
  rw [linkNodes, staged.unlinked.numbered.ids_eq, List.range_eq_range', ← staged.size_eq]
  rfl

theorem targets (staged : Staged done frame model) (id : NodeId) (known : frame.Knows id) :
    (frame.rename id).position < (NodeDescription.renumber done).length := by
  rw [length_renumber]
  exact staged.rename_lt known

theorem linkNodes_eq_ok_iff (staged : Staged done frame model) {after : Model} :
    linkNodes frame model = .ok after ↔
      NodeDescription.Closed done ∧ after.Linked ∧
        after.nodes.map NodeDescription.ofNode = done.map (·.rename frame.rename) := by
  rw [staged.linkNodes_eq, staged.resolved.linkNodes_eq_ok_iff staged.targets
    (by rw [length_renumber, Nat.zero_add]), List.drop_zero, staged.forall_knows_iff,
    Resolved.all_iff, staged.map_renumber]

/-- Registered nodes can be linked if all their parents are described. -/
theorem exists_linkNodes (staged : Staged done frame model)
    (closed : NodeDescription.Closed done) : ∃ after, linkNodes frame model = .ok after := by
  rw [← staged.forall_knows_iff] at closed
  have all : (NodeDescription.renumber done).take done.length = NodeDescription.renumber done :=
    List.take_of_length_le (length_renumber done).le
  obtain ⟨after, linked, -⟩ := staged.resolved.exists_linkNodes staged.targets
    (by rw [length_renumber, Nat.zero_add]) (by rwa [List.drop_zero, all])
  exact ⟨after, staged.linkNodes_eq.trans linked⟩

/-- The way back from a new id leads to the stored one. -/
theorem stored?_eq (staged : Staged done frame model) (once : frame.Once) {k : Nat}
    {described : NodeDescription} (place : done[k]? = some described) :
    frame.stored? (.ofNat k) = some described.id := by
  obtain ⟨id, back⟩ := once.exists_stored? (staged.get? k described place)
  have there := once.get?_of_stored? back
  have known : frame.Knows id := by simp [Frame.Knows, there]
  obtain ⟨other, member, rfl⟩ := List.mem_map.1 ((staged.knows id).1 known)
  obtain ⟨j, place'⟩ := List.mem_iff_getElem?.1 member
  have same : NodeId.ofNat j = .ofNat k :=
    Option.some.inj ((staged.get? j other place').symm.trans there)
  have jInside := (List.getElem?_eq_some_iff.1 place').1
  have kInside := (List.getElem?_eq_some_iff.1 place).1
  rw [← NodeId.position_inj, NodeId.position_ofNat (jInside.trans staged.length_lt),
    NodeId.position_ofNat (kInside.trans staged.length_lt)] at same
  rw [same, place] at place'
  rw [back, Option.some.inj place']

/-- Ids that are not described are unknown. -/
theorem isNone_get? (staged : Staged done frame model) :
    (fun id => (frame.get? id).isNone) = fun id => decide (id ∉ done.map NodeDescription.id) := by
  funext id
  rw [Bool.eq_iff_iff, Option.isNone_iff_eq_none, decide_eq_true_iff, ← staged.knows,
    Frame.Knows, not_ne_iff]

/-- Linking stops at the first node with a parent that is not described, and reports the first such
    parent. Both go by their stored ids. -/
theorem linkNodes_eq_error (staged : Staged done frame model) (once : frame.Once)
    {before after : List NodeDescription} {described : NodeDescription}
    (place : done = before ++ described :: after)
    (earlier : ∀ other ∈ before, ∀ parent ∈ other.parents, parent ∈ done.map NodeDescription.id)
    {parent : NodeId}
    (first : described.parents.find? (· ∉ done.map NodeDescription.id) = some parent) :
    linkNodes frame model = .error (.danglingReference described.id parent) := by
  have length : done.length = before.length + (after.length + 1) := by simp [place]
  have here : done[before.length]? = some described := by simp [place]
  have inside : 0 + before.length ≤ (NodeDescription.renumber done).length := by
    rw [length_renumber]
    omega
  have taken : (NodeDescription.renumber done).take before.length =
      NodeDescription.renumber before := by rw [place, take_renumber]
  -- The nodes before this one are linked, and it is still as it was registered.
  obtain ⟨linked, linking, resolved⟩ := staged.resolved.exists_linkNodes staged.targets inside (by
    simpa only [List.drop_zero, taken, forall_parents_renumber, staged.knows] using earlier)
  have next : (NodeDescription.renumber done)[0 + before.length]? =
      some { described with id := .ofNat (0 + before.length) } := by
    simp [NodeDescription.renumber, here]
  rw [← staged.isNone_get?] at first
  have failed := resolved.linkNode_eq_error next first
  rw [Nat.zero_add, staged.stored?_eq once here, Option.getD_some] at failed
  rw [staged.linkNodes_eq, length, ← List.range'_append_1, List.map_append, List.foldlM_append,
    linking, Nat.zero_add, List.range'_succ, List.map_cons]
  change List.foldlM _ linked _ = _
  rw [List.foldlM_cons, failed]
  rfl

end Staged

end Model

end Dataflow

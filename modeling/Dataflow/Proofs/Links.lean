import Dataflow.Proofs.Numbering

/-! # Links between nodes

A link is kept twice: the child names the parent in an input, and the parent lists the child among
its dependents. Models are built by telling one node after the other's parents of it, so the
invariant counts the nodes that have been linked so far. One linking step serves both ways of
building a model, and the dependents of a linked model follow from its inputs.
-/

namespace Dataflow

namespace Model

/-- The node of id `child` reads from the node of id `parent`. -/
def IsParent (model : Model) (parent child : NodeId) : Prop :=
  ∃ node ∈ model.nodes, node.id = child ∧ parent ∈ node.parents

/-- The first `count` nodes are dependents of their parents, and nothing else is a dependent. -/
structure LinkedUpTo (model : Model) (count : Nat) : Prop where
  numbered : Numbered model.nodes
  nextId : model.nextId.toNat = model.size
  known : ∀ node ∈ model.nodes.take count, ∀ parent ∈ node.parents, model.contains parent
  dependents : ∀ node ∈ model.nodes, ∀ id, id ∈ node.dependents ↔
    ∃ child ∈ model.nodes.take count, child.id = id ∧ node.id ∈ child.parents
  ascending : ∀ node ∈ model.nodes, node.dependents.Pairwise (· < ·)

/-- All nodes are dependents of their parents, and nothing else is a dependent. The links may form
    cycles. -/
def Linked (model : Model) : Prop := model.LinkedUpTo model.size

namespace LinkedUpTo

variable {model : Model} {count : Nat}

/-- Telling the parents of the next node of it links one node more. -/
theorem link (linked : model.LinkedUpTo count) {node : Node}
    (next : model.nodes[count]? = some node)
    (known : ∀ parent ∈ node.parents, model.contains parent) :
    (model.link node.id node.distinctParents).LinkedUpTo (count + 1) := by
  have place : node.id.position = count := linked.numbered count node next
  have grown : model.nodes.take (count + 1) = model.nodes.take count ++ [node] := by
    rw [List.take_add_one, next]
    rfl
  have nodes := nodes_link model linked.numbered node.id node.distinctParents
  constructor
  · rw [nodes]
    exact linked.numbered.map fun other => by simp
  · rw [nextId_link, size_link]
    exact linked.nextId
  · rw [nodes, ← List.map_take, grown]
    intro other member parent isParent
    obtain ⟨before, present, rfl⟩ := List.mem_map.1 member
    rw [Node.parents_learn] at isParent
    rw [contains_link]
    rcases List.mem_append.1 present with earlier | last
    · exact linked.known before earlier parent isParent
    · rw [List.mem_singleton.1 last] at isParent
      exact known parent isParent
  · rw [nodes, ← List.map_take, grown]
    intro other member id
    obtain ⟨before, present, rfl⟩ := List.mem_map.1 member
    rw [Node.mem_dependents_learn, linked.dependents before present id]
    simp only [Node.id_learn, Node.mem_distinctParents, List.map_append, List.mem_append,
      List.mem_map, List.mem_singleton, List.map_cons, List.map_nil]
    constructor
    · rintro (⟨child, earlier, same, isParent⟩ | ⟨rfl, isParent⟩)
      · exact ⟨_, .inl ⟨child, earlier, rfl⟩, by simpa using same, by simpa using isParent⟩
      · exact ⟨_, .inr rfl, by simp, by simpa using isParent⟩
    · rintro ⟨_, ⟨child, earlier, rfl⟩ | rfl, same, isParent⟩
      · exact .inl ⟨child, earlier, by simpa using same, by simpa using isParent⟩
      · exact .inr ⟨by simpa using same.symm, by simpa using isParent⟩
  · rw [nodes]
    intro other member
    obtain ⟨before, present, rfl⟩ := List.mem_map.1 member
    apply Node.ascending_learn _ (linked.ascending before present)
    intro id isDependent
    obtain ⟨child, earlier, rfl, _⟩ := (linked.dependents before present id).1 isDependent
    obtain ⟨k, hk, found⟩ := List.mem_take_iff_getElem.1 earlier
    have childPlace := linked.numbered k child (List.getElem?_eq_some_iff.2 ⟨by omega, found⟩)
    rw [NodeId.lt_iff]
    omega

/-- A node that has just been appended is not linked yet. -/
theorem append (linked : model.LinkedUpTo count) (inside : count ≤ model.size)
    (room : model.size + 1 < UInt64.size) (kind : String) (inputs : List Input)
    (attributes : Attributes) : (model.append kind inputs attributes).LinkedUpTo count := by
  have newPlace : (NodeId.mk model.nextId).position = model.size := linked.nextId
  have before : (model.append kind inputs attributes).nodes.take count =
      model.nodes.take count := List.take_append_of_le_length inside
  constructor
  · exact linked.numbered.append newPlace
  · have bound : (1 : UInt64).toNat = 1 := rfl
    rw [size_append, Model.append, UInt64.toNat_add, linked.nextId, bound]
    exact Nat.mod_eq_of_lt room
  · rw [before]
    intro node member parent isParent
    have present := linked.known node member parent isParent
    rw [contains_iff] at present ⊢
    rw [size_append]
    omega
  · rw [before]
    intro node member id
    rcases List.mem_append.1 member with old | new
    · exact linked.dependents node old id
    · rw [List.mem_singleton.1 new]
      simp only [List.not_mem_nil, false_iff, not_exists, not_and]
      intro child earlier _ isParent
      have present := contains_iff.1 (linked.known child earlier _ isParent)
      omega
  · intro node member
    rcases List.mem_append.1 member with old | new
    · exact linked.ascending node old
    · rw [List.mem_singleton.1 new]
      exact .nil

/-- The inputs of a node that is not linked yet may still change. -/
theorem setInputs (linked : model.LinkedUpTo count) {node : Node}
    (next : model.nodes[count]? = some node) (inputs : List Input) :
    LinkedUpTo { model with nodes := model.nodes.set count { node with inputs } } count := by
  have before : (model.nodes.set count { node with inputs }).take count =
      model.nodes.take count := List.take_set_of_le (Nat.le_refl _)
  have size : Model.size { model with nodes := model.nodes.set count { node with inputs } } =
      model.size := List.length_set
  constructor
  · exact linked.numbered.set (linked.numbered count node next)
  · rw [size]
    exact linked.nextId
  · rw [before]
    intro child member parent isParent
    rw [contains_iff, size]
    exact contains_iff.1 (linked.known child member parent isParent)
  · rw [before]
    intro other member id
    rcases List.mem_or_eq_of_mem_set member with old | rfl
    · exact linked.dependents other old id
    · exact linked.dependents node (List.mem_of_getElem? next) id
  · intro other member
    rcases List.mem_or_eq_of_mem_set member with old | rfl
    · exact linked.ascending other old
    · exact linked.ascending node (List.mem_of_getElem? next)

end LinkedUpTo

theorem linkedUpTo_empty : empty.LinkedUpTo 0 where
  numbered := by simp [empty, Numbered]
  nextId := rfl
  known := by simp [empty]
  dependents := by simp [empty]
  ascending := by simp [empty]

namespace Linked

variable {model : Model}

theorem numbered (linked : model.Linked) : Numbered model.nodes := LinkedUpTo.numbered linked

theorem nextId (linked : model.Linked) : model.nextId.toNat = model.size :=
  LinkedUpTo.nextId linked

theorem size_lt (linked : model.Linked) : model.size < UInt64.size := by
  rw [← linked.nextId]
  exact model.nextId.toNat_lt

theorem known (linked : model.Linked) {node : Node} (member : node ∈ model.nodes)
    {parent : NodeId} (isParent : parent ∈ node.parents) : model.contains parent := by
  apply LinkedUpTo.known linked node _ parent isParent
  rwa [size, List.take_length]

theorem mem_dependents (linked : model.Linked) {node : Node} (member : node ∈ model.nodes)
    {id : NodeId} : id ∈ node.dependents ↔ model.IsParent node.id id := by
  rw [LinkedUpTo.dependents linked node member id, size, List.take_length]
  rfl

theorem ascending (linked : model.Linked) {node : Node} (member : node ∈ model.nodes) :
    node.dependents.Pairwise (· < ·) := LinkedUpTo.ascending linked node member

theorem get?_eq_some_iff (linked : model.Linked) {id : NodeId} {node : Node} :
    model.get? id = some node ↔ node ∈ model.nodes ∧ node.id = id := by
  constructor
  · intro found
    exact ⟨mem_of_get? found, NodeId.position_inj.1 (linked.numbered _ _ found)⟩
  · rintro ⟨member, rfl⟩
    exact linked.numbered.getElem? member

/-- Looking up a position finds the node of that id. -/
theorem get?_eq_find? (linked : model.Linked) (id : NodeId) :
    model.get? id = model.nodes.find? (·.id = id) := by
  apply Option.ext
  intro node
  rw [linked.get?_eq_some_iff]
  constructor
  · rintro ⟨member, rfl⟩
    cases search : model.nodes.find? (·.id = node.id) with
    | none => simpa using List.find?_eq_none.1 search node member
    | some other =>
        have same : other.id = node.id := by simpa using List.find?_some search
        rw [linked.numbered.eq_of_id_eq (List.mem_of_find?_eq_some search) member same]
  · intro search
    exact ⟨List.mem_of_find?_eq_some search, by simpa using List.find?_some search⟩

theorem mem_ids_iff (linked : model.Linked) {id : NodeId} :
    id ∈ model.nodes.map Node.id ↔ model.contains id := by
  rw [contains_iff_get?, List.mem_map]
  simp only [linked.get?_eq_some_iff]

theorem isParent_iff (linked : model.Linked) {child : NodeId} {node : Node}
    (found : model.get? child = some node) {parent : NodeId} :
    model.IsParent parent child ↔ parent ∈ node.parents := by
  obtain ⟨member, rfl⟩ := linked.get?_eq_some_iff.1 found
  constructor
  · rintro ⟨other, present, same, isParent⟩
    rwa [linked.numbered.eq_of_id_eq member present same.symm]
  · intro isParent
    exact ⟨node, member, rfl, isParent⟩

theorem contains_parent (linked : model.Linked) {parent child : NodeId}
    (isParent : model.IsParent parent child) : model.contains parent := by
  obtain ⟨node, member, -, isParent⟩ := isParent
  exact linked.known member isParent

theorem contains_child (linked : model.Linked) {parent child : NodeId}
    (isParent : model.IsParent parent child) : model.contains child := by
  obtain ⟨node, member, rfl, -⟩ := isParent
  exact contains_iff.2 (linked.numbered.position_lt member)

/-- Distinct ids of nodes are no more than there are nodes. -/
theorem length_le_size (linked : model.Linked) {ids : List NodeId} (once : ids.Nodup)
    (known : ∀ id ∈ ids, model.contains id) : ids.length ≤ model.size := by
  have within : ids ⊆ model.nodes.map Node.id := fun id member =>
    linked.mem_ids_iff.2 (known id member)
  simpa [size] using (List.subperm_of_subset once within).length_le

/-- Nodes of a linked model that have all of its ids, each once, are the nodes of the model. -/
theorem perm_of_ids (linked : model.Linked) {nodes : List Node}
    (members : ∀ node ∈ nodes, node ∈ model.nodes) (once : (nodes.map Node.id).Nodup)
    (all : ∀ id, model.contains id → id ∈ nodes.map Node.id) : nodes.Perm model.nodes := by
  apply (List.perm_ext_iff_of_nodup once.of_map linked.numbered.nodup_ids.of_map).2
  intro node
  constructor
  · exact members node
  · intro member
    obtain ⟨other, present, same⟩ := List.mem_map.1
      (all node.id (contains_iff.2 (linked.numbered.position_lt member)))
    rwa [← linked.numbered.eq_of_id_eq (members other present) member same]

end Linked

/-- The parents of nodes are read off their descriptions. -/
theorem isParent_iff_description {model : Model} {parent child : NodeId} :
    model.IsParent parent child ↔ ∃ described ∈ model.nodes.map NodeDescription.ofNode,
      described.id = child ∧ parent ∈ Input.allParents described.inputs := by
  constructor
  · rintro ⟨node, member, same, isParent⟩
    exact ⟨_, List.mem_map_of_mem member, same, isParent⟩
  · rintro ⟨_, member, same, isParent⟩
    obtain ⟨node, present, rfl⟩ := List.mem_map.1 member
    exact ⟨node, present, same, isParent⟩

/-- A linked model is determined by the descriptions of its nodes in storage order: its dependents
    follow from its inputs. -/
theorem Linked.eq_of_descriptions {a b : Model} (ha : a.Linked) (hb : b.Linked)
    (same : a.nodes.map NodeDescription.ofNode = b.nodes.map NodeDescription.ofNode) : a = b := by
  have isParent : ∀ parent child, a.IsParent parent child ↔ b.IsParent parent child := by
    intro parent child
    rw [isParent_iff_description, isParent_iff_description, same]
  have sizes : a.size = b.size := by simpa [size] using congrArg List.length same
  have nodes : a.nodes = b.nodes := by
    apply List.ext_getElem sizes
    intro k hx hy
    have described := List.getElem_of_eq same (by simpa using hx)
    simp only [List.getElem_map] at described
    have memX : a.nodes[k] ∈ a.nodes := List.getElem_mem hx
    have memY : b.nodes[k] ∈ b.nodes := List.getElem_mem hy
    generalize a.nodes[k] = x at described memX
    generalize b.nodes[k] = y at described memY
    have dependents : x.dependents = y.dependents := by
      apply (ha.ascending memX).eq_of_mem_iff (hb.ascending memY)
      intro id
      rw [ha.mem_dependents memX, hb.mem_dependents memY, isParent,
        show x.id = y.id from congrArg NodeDescription.id described]
    obtain ⟨id, kind, inputs, _, attributes⟩ := x
    obtain ⟨id', kind', inputs', _, attributes'⟩ := y
    obtain ⟨rfl, rfl, rfl, rfl⟩ := NodeDescription.mk.inj described
    exact congrArg (Node.mk id kind inputs · attributes) dependents
  have nextIds : a.nextId = b.nextId := UInt64.toNat_inj.1 (by rw [ha.nextId, hb.nextId, sizes])
  obtain ⟨_, _⟩ := a
  obtain ⟨_, _⟩ := b
  exact congr (congrArg Model.mk nodes) nextIds

end Model

end Dataflow

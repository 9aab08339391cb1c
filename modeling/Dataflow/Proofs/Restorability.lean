import Dataflow.Proofs.RoundTrip
import Dataflow.Proofs.Stuck

/-! # Which descriptions can be restored

The conditions are read off the description alone: known kinds, distinct ids, described parents, and
no cycle among the stored ids. Taking ranks turns the links of a description into those of its
model, and no two ids of a description share a rank, so a cycle on one side is a cycle on the other.
-/

namespace Dataflow

open Relation

namespace ModelDescription

variable {description : ModelDescription}

/-- The described node of id `child` names `parent` in an input. -/
def IsParent (description : ModelDescription) (parent child : NodeId) : Prop :=
  ∃ described ∈ description.nodes, described.id = child ∧ parent ∈ described.parents

/-- What a description has to satisfy to be restored in a context. -/
structure Restorable (description : ModelDescription) (context : Context) : Prop where
  accepted : ∀ registry, context.registry = some registry →
    ∀ described ∈ description.nodes, registry.contains described.kind
  distinct : description.nodes.Pairwise fun a b => a.id ≠ b.id
  closed : ∀ described ∈ description.nodes, ∀ input ∈ described.inputs, ∀ parent ∈ input.parents,
    ∃ other ∈ description.nodes, other.id = parent
  acyclic : ∀ id, ¬TransGen description.IsParent id id

/-- A description with all ids replaced. -/
def rename (f : NodeId → NodeId) (description : ModelDescription) : ModelDescription where
  nodes := description.nodes.map (·.rename f)

/-- How many described nodes have smaller ids. -/
def smaller (description : ModelDescription) (id : NodeId) : Nat :=
  description.nodes.countP (·.id < id)

/-- The node that a described node with `k` smaller ids becomes. Its dependents are the new ids of
    those that name it. -/
structure BecomesNode (description : ModelDescription) (described : NodeDescription) (k : Nat)
    (node : Node) : Prop where
  id : node.id.position = k
  kind : node.kind = described.kind
  attributes : node.attributes = described.attributes
  inputs : node.inputs = described.inputs.map fun input =>
    { input with parents := input.parents.map fun parent => .ofNat (description.smaller parent) }
  dependents : ∀ id, id ∈ node.dependents ↔
    ∃ child ∈ description.nodes, id.position = description.smaller child.id ∧
      ∃ input ∈ child.inputs, described.id ∈ input.parents
  ascending : node.dependents.Pairwise (· < ·)

/-- The model that a description stands for: one node for each described one, at the position that
    its id has among the described ids. -/
structure BecomesModel (description : ModelDescription) (model : Model) : Prop where
  size : model.size = description.size
  nextId : model.nextId.toNat = description.size
  nodes : ∀ described ∈ description.nodes, ∃ node,
    model.nodes[description.smaller described.id]? = some node ∧
      description.BecomesNode described (description.smaller described.id) node

theorem smaller_lt_smaller {a b : NodeId} (described : a ∈ description.nodes.map NodeDescription.id)
    (less : a < b) : description.smaller a < description.smaller b := by
  obtain ⟨node, member, rfl⟩ := List.mem_map.1 described
  obtain ⟨before, after, split⟩ := List.append_of_mem member
  have mono : ∀ nodes : List NodeDescription,
      nodes.countP (·.id < node.id) ≤ nodes.countP (·.id < b) := fun nodes =>
    List.countP_mono_left fun other _ below => by
      simpa using lt_trans (by simpa using below) less
  have earlier := mono before
  have later := mono after
  simp only [smaller, split, List.countP_append, List.countP_cons, less, lt_irrefl]
  simp only [decide_true, decide_false, Bool.false_eq_true, if_true, if_false]
  omega

theorem smaller_inj {a b : NodeId} (ha : a ∈ description.nodes.map NodeDescription.id)
    (hb : b ∈ description.nodes.map NodeDescription.id)
    (same : description.smaller a = description.smaller b) : a = b := by
  rcases lt_trichotomy a b with less | equal | greater
  · exact absurd same (smaller_lt_smaller ha less).ne
  · exact equal
  · exact absurd same (smaller_lt_smaller hb greater).ne'

theorem position_rank (room : description.size < UInt64.size) (id : NodeId) :
    (description.rank id).position = description.smaller id :=
  NodeId.position_ofNat (List.countP_le_length.trans_lt room)

theorem rank_inj (room : description.size < UInt64.size) {a b : NodeId}
    (ha : a ∈ description.nodes.map NodeDescription.id)
    (hb : b ∈ description.nodes.map NodeDescription.id)
    (same : description.rank a = description.rank b) : a = b := by
  apply smaller_inj ha hb
  rw [← position_rank room, ← position_rank room, same]

theorem ranked_getElem? (distinct : (description.nodes.map NodeDescription.id).Nodup)
    {described : NodeDescription} (member : described ∈ description.nodes) :
    description.ranked[description.smaller described.id]? =
      some (described.rename description.rank) := by
  have perm := NodeDescription.sortById_perm description.nodes
  obtain ⟨k, place⟩ := List.mem_iff_getElem?.1 (perm.mem_iff.2 member)
  have count := NodeDescription.countP_lt (NodeDescription.pairwise_lt_sortById distinct) place
  rw [perm.countP_eq] at count
  rw [ranked, List.getElem?_map, smaller, count, place, Option.map_some]

theorem isParent_eq_of_perm {nodes : List NodeDescription} (perm : nodes.Perm description.nodes) :
    (ModelDescription.mk nodes).IsParent = description.IsParent := by
  funext parent child
  simp only [IsParent, perm.mem_iff]

theorem isParent_rename (f : NodeId → NodeId) (description : ModelDescription) :
    (description.rename f).IsParent = Relation.Map description.IsParent f f := by
  funext parent child
  apply propext
  constructor
  · rintro ⟨_, member, rfl, named⟩
    obtain ⟨described, listed, rfl⟩ := List.mem_map.1 member
    rw [NodeDescription.parents_rename] at named
    obtain ⟨stored, isParent, rfl⟩ := List.mem_map.1 named
    exact ⟨stored, described.id, ⟨described, listed, rfl, isParent⟩, rfl, rfl⟩
  · rintro ⟨stored, _, ⟨described, listed, rfl, isParent⟩, rfl, rfl⟩
    refine ⟨described.rename f, List.mem_map_of_mem listed, rfl, ?_⟩
    rw [NodeDescription.parents_rename]
    exact List.mem_map_of_mem isParent

/-- Links of the model are links of the description under new ids. -/
theorem isParent_eq_of_ranked {model : Model}
    (nodes : model.nodes.map NodeDescription.ofNode = description.ranked) :
    model.IsParent = Relation.Map description.IsParent description.rank description.rank := by
  rw [← isParent_eq_of_perm (NodeDescription.sortById_perm description.nodes), ← isParent_rename]
  funext parent child
  rw [Model.isParent_iff_description, nodes]
  rfl

/-- Links lead from described nodes to described nodes. -/
theorem mem_ids_of_isParent (closed : NodeDescription.Closed description.nodes)
    (parent child : NodeId) (isParent : description.IsParent parent child) :
    parent ∈ {id | id ∈ description.nodes.map NodeDescription.id} ∧
      child ∈ {id | id ∈ description.nodes.map NodeDescription.id} := by
  obtain ⟨described, member, rfl, named⟩ := isParent
  exact ⟨closed described member parent named, List.mem_map_of_mem member⟩

theorem injOn_rank (room : description.size < UInt64.size) :
    {id | id ∈ description.nodes.map NodeDescription.id}.InjOn description.rank :=
  fun _ ha _ hb same => rank_inj room ha hb same

/-- A description has a cycle if and only if its model has one. -/
theorem acyclic_iff_of_ranked (room : description.size < UInt64.size)
    (closed : NodeDescription.Closed description.nodes) {model : Model}
    (nodes : model.nodes.map NodeDescription.ofNode = description.ranked) :
    model.Acyclic ↔ ∀ id, ¬TransGen description.IsParent id id := by
  have chains := fun a b => transGen_map_iff (x := a) (y := b) (injOn_rank room)
    (mem_ids_of_isParent closed)
  simp only [Model.Acyclic, isParent_eq_of_ranked nodes, chains]
  constructor
  · intro acyclic id cycle
    exact acyclic _ ⟨id, id, cycle, rfl, rfl⟩
  · rintro acyclic _ ⟨a, b, chain, rfl, same⟩
    have ends := known_of_transGen (mem_ids_of_isParent closed) chain
    obtain rfl := injOn_rank room ends.2 ends.1 same
    exact acyclic _ chain

/-- As many nodes of a description are on or behind a cycle as of its model. -/
theorem ncard_behindCycle_of_ranked (room : description.size < UInt64.size)
    (closed : NodeDescription.Closed description.nodes) {model : Model}
    (nodes : model.nodes.map NodeDescription.ofNode = description.ranked) :
    {id | BehindCycle model.IsParent id}.ncard =
      {id | BehindCycle description.IsParent id}.ncard := by
  rw [isParent_eq_of_ranked nodes]
  exact ncard_behindCycle_map (injOn_rank room) (mem_ids_of_isParent closed)

theorem closed_iff : NodeDescription.Closed description.nodes ↔
    ∀ described ∈ description.nodes, ∀ input ∈ described.inputs, ∀ parent ∈ input.parents,
      ∃ other ∈ description.nodes, other.id = parent := by
  simp only [NodeDescription.Closed, NodeDescription.parents, Input.allParents, List.mem_flatMap,
    List.mem_map, forall_exists_index, and_imp]
  exact forall₂_congr fun _ _ => ⟨fun h input port parent named => h parent input port named,
    fun h parent input port named => h input port parent named⟩

theorem restorable_iff {context : Context} : description.Restorable context ↔
    NodeDescription.Registrable context description.nodes ∧
    NodeDescription.Closed description.nodes ∧ ∀ id, ¬TransGen description.IsParent id id := by
  rw [closed_iff]
  constructor
  · rintro ⟨accepted, distinct, closed, acyclic⟩
    exact ⟨⟨fun described member registry shared => accepted registry shared described member,
      List.pairwise_map.2 distinct⟩, closed, acyclic⟩
  · rintro ⟨⟨accepted, once⟩, closed, acyclic⟩
    exact ⟨fun registry shared described member => accepted described member registry shared,
      List.pairwise_map.1 once, closed, acyclic⟩

end ModelDescription

namespace Model

variable {description : ModelDescription} {context : Context} {model : Model}

/-- Nothing but the conditions on a description can keep it from being restored. -/
theorem exists_restoreIn_iff (room : description.size < UInt64.size) :
    (∃ model, (restoreIn description context).1 = .ok model) ↔ description.Restorable context := by
  rw [ModelDescription.restorable_iff]
  constructor
  · intro restored
    obtain ⟨model, ok⟩ := restored
    obtain ⟨registrable, closed, wellFormed, nodes⟩ := (restoreIn_eq_ok_iff room).1 ok
    exact ⟨registrable, closed,
      (ModelDescription.acyclic_iff_of_ranked room closed nodes).1 wellFormed.acyclic⟩
  · intro restorable
    obtain ⟨registrable, closed, acyclic⟩ := restorable
    obtain ⟨model, linked, nodes, restored⟩ :=
      exists_restoreIn_eq_checkAcyclic room registrable closed
    refine ⟨model, ?_⟩
    rw [restored, linked.checkAcyclic_eq_ok_iff.2
      ((ModelDescription.acyclic_iff_of_ranked room closed nodes).2 acyclic)]
    rfl

/-- A restored model has the nodes that the description says. -/
theorem becomesModel_of_restoreIn (room : description.size < UInt64.size)
    (ok : (restoreIn description context).1 = .ok model) : description.BecomesModel model := by
  obtain ⟨registrable, closed, wellFormed, nodes⟩ := (restoreIn_eq_ok_iff room).1 ok
  have size := size_of_restoreIn ok
  refine ⟨size, wellFormed.linked.nextId.trans size, fun described member => ?_⟩
  have place := ModelDescription.ranked_getElem? registrable.once member
  rw [← nodes, List.getElem?_map, Option.map_eq_some_iff] at place
  obtain ⟨node, found, same⟩ := place
  have present := List.mem_of_getElem? found
  have id : node.id = description.rank described.id := congrArg NodeDescription.id same
  refine ⟨node, found, ?_, congrArg NodeDescription.kind same,
    congrArg NodeDescription.attributes same, congrArg NodeDescription.inputs same, ?_,
    wellFormed.linked.ascending present⟩
  · rw [id, ModelDescription.position_rank room]
  · intro child
    rw [wellFormed.linked.mem_dependents present, ModelDescription.isParent_eq_of_ranked nodes, id]
    constructor
    · rintro ⟨parent, _, ⟨other, listed, rfl, named⟩, sameRank, rfl⟩
      obtain rfl := ModelDescription.rank_inj room (closed other listed parent named)
        (List.mem_map_of_mem member) sameRank
      exact ⟨other, listed, ModelDescription.position_rank room _, List.mem_flatMap.1 named⟩
    · rintro ⟨other, listed, position, named⟩
      refine ⟨described.id, other.id, ⟨other, listed, rfl, List.mem_flatMap.2 named⟩, rfl, ?_⟩
      rw [← NodeId.position_inj, position, ModelDescription.position_rank room]

/-- A description that fits in memory is restored exactly when its kinds are known, its ids
    distinct, its parents described and its links free of cycles, and then as the model that it
    stands for. -/
theorem restoreIn_iff_restorable (description : ModelDescription) (context : Context)
    (room : description.size < UInt64.size) :
    ((∃ model, (restoreIn description context).1 = .ok model) ↔
      description.Restorable context) ∧
    ∀ model, (restoreIn description context).1 = .ok model → description.BecomesModel model :=
  ⟨exists_restoreIn_iff room, fun _ ok => becomesModel_of_restoreIn room ok⟩

theorem restoreIn_iff_restorable_crossed :
    ModelDescription.crossed.size < UInt64.size ∧
    ((∃ model, (restoreIn .crossed .sample).1 = .ok model) ↔
      ModelDescription.crossed.Restorable .sample) ∧
    ∀ model, (restoreIn .crossed .sample).1 = .ok model →
      ModelDescription.crossed.BecomesModel model :=
  ⟨by decide, restoreIn_iff_restorable .crossed .sample (by decide)⟩

end Model

end Dataflow

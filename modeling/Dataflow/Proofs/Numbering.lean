import Mathlib
import Dataflow.Description

/-! # Numbering

The node at position `k` of a model has id `k`. So an id names one node only, and telling nodes of a
dependent, which goes by their ids, is a map over all nodes.
-/

namespace Dataflow

namespace NodeId

theorem position_inj {a b : NodeId} : a.position = b.position ↔ a = b := by
  constructor
  · intro same
    cases a
    cases b
    exact congrArg NodeId.mk (UInt64.toNat_inj.1 same)
  · rintro rfl
    rfl

theorem lt_iff {a b : NodeId} : a < b ↔ a.position < b.position := UInt64.lt_iff_toNat_lt

theorem le_iff {a b : NodeId} : a ≤ b ↔ a.position ≤ b.position := UInt64.le_iff_toNat_le

/-- Ids are ordered as their numbers are. -/
instance : LinearOrder NodeId where
  le_refl a := le_iff.2 (Nat.le_refl _)
  le_trans _ _ _ := le_trans
  le_antisymm a b hab hba := position_inj.1 (Nat.le_antisymm (le_iff.1 hab) (le_iff.1 hba))
  le_total a b := by
    rw [le_iff, le_iff]
    exact Nat.le_total _ _
  lt_iff_le_not_ge a b := by
    rw [lt_iff, le_iff, le_iff]
    omega
  toDecidableLE := inferInstance
  toDecidableLT := inferInstance
  toDecidableEq := inferInstance

/-- The id that stands for a position. -/
def ofNat (k : Nat) : NodeId := ⟨.ofNat k⟩

theorem position_ofNat {k : Nat} (small : k < UInt64.size) : (ofNat k).position = k :=
  UInt64.toNat_ofNat_of_lt' small

@[simp] theorem ofNat_position (id : NodeId) : ofNat id.position = id :=
  congrArg NodeId.mk UInt64.ofNat_toNat

instance : Finite NodeId :=
  Finite.of_injective (fun id => (⟨id.position, id.raw.toNat_lt⟩ : Fin UInt64.size))
    fun _ _ same => position_inj.1 (congrArg Fin.val same)

end NodeId

namespace Node

section AddDependent

variable (node : Node) (id : NodeId)

@[simp] theorem id_addDependent : (node.addDependent id).id = node.id := by
  unfold addDependent
  split <;> rfl

@[simp] theorem kind_addDependent : (node.addDependent id).kind = node.kind := by
  unfold addDependent
  split <;> rfl

@[simp] theorem inputs_addDependent : (node.addDependent id).inputs = node.inputs := by
  unfold addDependent
  split <;> rfl

@[simp] theorem attributes_addDependent :
    (node.addDependent id).attributes = node.attributes := by
  unfold addDependent
  split <;> rfl

theorem mem_dependents_addDependent {other : NodeId} :
    other ∈ (node.addDependent id).dependents ↔ other ∈ node.dependents ∨ other = id := by
  unfold addDependent
  split
  · next present =>
    exact ⟨.inl, fun h => h.elim (fun h => h) (fun same => same ▸ present)⟩
  · simp

@[simp] theorem addDependent_idem :
    (node.addDependent id).addDependent id = node.addDependent id := by
  have present : id ∈ (node.addDependent id).dependents :=
    (mem_dependents_addDependent node id).2 (.inr rfl)
  rw [addDependent, if_pos present]

end AddDependent

theorem ascending_addDependent {node : Node} {id : NodeId}
    (ascending : node.dependents.Pairwise (· < ·)) (last : ∀ other ∈ node.dependents, other < id) :
    (node.addDependent id).dependents.Pairwise (· < ·) := by
  unfold addDependent
  split
  · exact ascending
  · exact List.pairwise_append.2 ⟨ascending, List.pairwise_singleton _ _, by simpa using last⟩

@[simp] theorem mem_distinctParents {node : Node} {id : NodeId} :
    id ∈ node.distinctParents ↔ id ∈ node.parents := NodeId.mem_distinct

/-- A node learns of a dependent if it is one of the given parents. -/
def learn (id : NodeId) (parents : List NodeId) (node : Node) : Node :=
  if node.id ∈ parents then node.addDependent id else node

section Learn

variable (id : NodeId) (parents : List NodeId) (node : Node)

@[simp] theorem id_learn : (node.learn id parents).id = node.id := by
  unfold learn
  split <;> simp

@[simp] theorem kind_learn : (node.learn id parents).kind = node.kind := by
  unfold learn
  split <;> simp

@[simp] theorem inputs_learn : (node.learn id parents).inputs = node.inputs := by
  unfold learn
  split <;> simp

@[simp] theorem attributes_learn : (node.learn id parents).attributes = node.attributes := by
  unfold learn
  split <;> simp

@[simp] theorem parents_learn : (node.learn id parents).parents = node.parents := by
  simp only [Node.parents, inputs_learn]

theorem mem_dependents_learn {other : NodeId} :
    other ∈ (node.learn id parents).dependents ↔
      other ∈ node.dependents ∨ other = id ∧ node.id ∈ parents := by
  unfold learn
  split
  · next told => simp [mem_dependents_addDependent, told]
  · next untold => simp [untold]

end Learn

theorem ascending_learn {node : Node} {id : NodeId} (parents : List NodeId)
    (ascending : node.dependents.Pairwise (· < ·)) (last : ∀ other ∈ node.dependents, other < id) :
    (node.learn id parents).dependents.Pairwise (· < ·) := by
  unfold learn
  split
  · exact ascending_addDependent ascending last
  · exact ascending

end Node

namespace Model

/-- The node at position `k` has id `k`. -/
def Numbered (nodes : List Node) : Prop :=
  ∀ (k : Nat) (node : Node), nodes[k]? = some node → node.id.position = k

namespace Numbered

variable {nodes : List Node}

theorem getElem? (numbered : Numbered nodes) {node : Node} (member : node ∈ nodes) :
    nodes[node.id.position]? = some node := by
  obtain ⟨k, found⟩ := List.mem_iff_getElem?.1 member
  rwa [numbered k node found]

theorem eq_of_id_eq (numbered : Numbered nodes) {a b : Node} (ha : a ∈ nodes) (hb : b ∈ nodes)
    (same : a.id = b.id) : a = b := by
  have found := numbered.getElem? ha
  rw [same, numbered.getElem? hb] at found
  exact (Option.some.inj found).symm

theorem position_lt (numbered : Numbered nodes) {node : Node} (member : node ∈ nodes) :
    node.id.position < nodes.length :=
  (List.getElem?_eq_some_iff.1 (numbered.getElem? member)).1

theorem map (numbered : Numbered nodes) {f : Node → Node} (keeps : ∀ node, (f node).id = node.id) :
    Numbered (nodes.map f) := by
  intro k node found
  rw [List.getElem?_map, Option.map_eq_some_iff] at found
  obtain ⟨before, found, rfl⟩ := found
  rw [keeps]
  exact numbered k before found

theorem append (numbered : Numbered nodes) {node : Node} (next : node.id.position = nodes.length) :
    Numbered (nodes ++ [node]) := by
  intro k other found
  rcases Nat.lt_or_ge k nodes.length with inside | outside
  · rw [List.getElem?_append_left inside] at found
    exact numbered k other found
  · rw [List.getElem?_append_right outside, List.getElem?_singleton] at found
    split at found
    · cases found
      omega
    · cases found

theorem set (numbered : Numbered nodes) {k : Nat} {node : Node} (place : node.id.position = k) :
    Numbered (nodes.set k node) := by
  intro i other found
  rw [List.getElem?_set] at found
  split at found
  · split at found
    · cases found
      omega
    · cases found
  · exact numbered i other found

theorem modify_eq_map (numbered : Numbered nodes) (id : NodeId) (f : Node → Node) :
    nodes.modify id.position f = nodes.map fun node => if node.id = id then f node else node := by
  apply List.ext_getElem?
  intro k
  rw [List.getElem?_modify, List.getElem?_map]
  cases found : nodes[k]? with
  | none => rfl
  | some node =>
      have place : node.id.position = k := numbered k node found
      by_cases same : node.id = id
      · have : id.position = k := same ▸ place
        simp [same, this]
      · have : id.position ≠ k := fun h => same (NodeId.position_inj.1 (place.trans h.symm))
        simp [same, this]

/-- Ids ascend with positions. -/
theorem pairwise_id (numbered : Numbered nodes) : nodes.Pairwise fun a b => a.id < b.id := by
  rw [List.pairwise_iff_getElem]
  intro i j hi hj less
  rw [NodeId.lt_iff, numbered i _ (List.getElem?_eq_getElem hi),
    numbered j _ (List.getElem?_eq_getElem hj)]
  exact less

/-- The ids in storage order. -/
theorem ids_eq (numbered : Numbered nodes) :
    nodes.map Node.id = (List.range nodes.length).map NodeId.ofNat := by
  apply List.ext_getElem (by simp)
  intro k inside _
  rw [List.length_map] at inside
  have place := numbered k _ (List.getElem?_eq_getElem inside)
  rw [List.getElem_map, List.getElem_map, List.getElem_range,
    ← NodeId.ofNat_position nodes[k].id, place]

theorem nodup_ids (numbered : Numbered nodes) : (nodes.map Node.id).Nodup := by
  rw [List.Nodup, List.pairwise_map]
  exact numbered.pairwise_id.imp fun less => ne_of_lt less

end Numbered

theorem contains_iff {model : Model} {id : NodeId} :
    model.contains id ↔ id.position < model.size := by
  simp [contains, get?, size]

@[simp] theorem size_append (model : Model) (kind : String) (inputs : List Input)
    (attributes : Attributes) : (model.append kind inputs attributes).size = model.size + 1 := by
  simp [append, size]

theorem contains_iff_get? {model : Model} {id : NodeId} :
    model.contains id ↔ ∃ node, model.get? id = some node := Option.isSome_iff_exists

theorem mem_of_get? {model : Model} {id : NodeId} {node : Node}
    (found : model.get? id = some node) : node ∈ model.nodes := List.mem_of_getElem? found

theorem nodes_link (model : Model) (numbered : Numbered model.nodes) (id : NodeId)
    (parents : List NodeId) :
    (model.link id parents).nodes = model.nodes.map (Node.learn id parents) := by
  obtain ⟨nodes, nextId⟩ := model
  simp only [link]
  induction parents generalizing nodes with
  | nil => exact (List.map_id'' (fun node => by simp [Node.learn]) nodes).symm
  | cons parent rest ih =>
      rw [List.foldl_cons, numbered.modify_eq_map, ih]
      · rw [List.map_map]
        apply List.map_congr_left
        intro node _
        by_cases first : node.id = parent <;> by_cases later : node.id ∈ rest <;>
          simp_all [Node.learn]
      · apply numbered.map
        intro node
        split <;> simp

@[simp] theorem nextId_link (model : Model) (id : NodeId) (parents : List NodeId) :
    (model.link id parents).nextId = model.nextId := rfl

@[simp] theorem size_link (model : Model) (id : NodeId) (parents : List NodeId) :
    (model.link id parents).size = model.size := by
  obtain ⟨nodes, nextId⟩ := model
  simp only [link, size]
  induction parents generalizing nodes with
  | nil => rfl
  | cons parent rest ih =>
      rw [List.foldl_cons, ih]
      exact List.length_modify _ _ _

@[simp] theorem contains_link {model : Model} {id other : NodeId} {parents : List NodeId} :
    (model.link id parents).contains other ↔ model.contains other := by
  rw [contains_iff, contains_iff, size_link]

end Model

end Dataflow

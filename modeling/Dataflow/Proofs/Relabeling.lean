import Dataflow.Proofs.Failures

/-! # Other ids in the same order

The ids of a description only say which nodes it names and in which order they are taken: live ids
are never compared with them. Main statement: ids can be replaced by any others in the same order,
and restoring gives the same model or the same error about the new ids.
-/

namespace Dataflow

open Relation

/-- The error with the stored ids that it names replaced. An unknown node is named by a live id. -/
def ModelError.rename (r : NodeId → NodeId) : ModelError → ModelError
  | .unknownNode id => .unknownNode id
  | .duplicateNode id => .duplicateNode (r id)
  | .danglingReference node parent => .danglingReference (r node) (r parent)
  | .cyclicGraph remaining => .cyclicGraph remaining
  | .unknownKind kind => .unknownKind kind

namespace NodeDescription

/-- The ids of nodes and of their parents. -/
def mentioned (nodes : List NodeDescription) : List NodeId :=
  nodes.flatMap fun described => described.id :: described.parents

variable {nodes : List NodeDescription} {r : NodeId → NodeId} {context : Context}

theorem id_mem_mentioned {described : NodeDescription} (member : described ∈ nodes) :
    described.id ∈ mentioned nodes :=
  List.mem_flatMap.2 ⟨described, member, List.mem_cons_self⟩

theorem parent_mem_mentioned {described : NodeDescription} (member : described ∈ nodes)
    {parent : NodeId} (named : parent ∈ described.parents) : parent ∈ mentioned nodes :=
  List.mem_flatMap.2 ⟨described, member, List.mem_cons_of_mem _ named⟩

theorem mentioned_subset {before : List NodeDescription} (listed : before ⊆ nodes) :
    {id | id ∈ mentioned before} ⊆ {id | id ∈ mentioned nodes} := by
  intro id known
  obtain ⟨described, member, place⟩ := List.mem_flatMap.1 known
  exact List.mem_flatMap.2 ⟨described, listed member, place⟩

theorem rename_rename (f g : NodeId → NodeId) (described : NodeDescription) :
    (described.rename f).rename g = described.rename (g ∘ f) := by
  have inputs : Input.rename g ∘ Input.rename f = Input.rename (g ∘ f) := by
    funext input
    simp only [Function.comp_apply, Input.rename, List.map_map]
  simp only [rename, renameParents, List.map_map, inputs, Function.comp_apply]

theorem ids_rename (r : NodeId → NodeId) (nodes : List NodeDescription) :
    (nodes.map (·.rename r)).map NodeDescription.id = (nodes.map NodeDescription.id).map r := by
  simp only [List.map_map]
  rfl

theorem mem_ids_rename {id : NodeId} (member : id ∈ nodes.map NodeDescription.id) :
    r id ∈ (nodes.map (·.rename r)).map NodeDescription.id := by
  rw [ids_rename]
  exact List.mem_map_of_mem member

theorem mem_ids_rename_iff (inj : {id | id ∈ mentioned nodes}.InjOn r) {id : NodeId}
    (known : id ∈ mentioned nodes) :
    r id ∈ (nodes.map (·.rename r)).map NodeDescription.id ↔
      id ∈ nodes.map NodeDescription.id := by
  constructor
  · intro member
    rw [ids_rename] at member
    obtain ⟨other, listed, same⟩ := List.mem_map.1 member
    obtain ⟨described, present, rfl⟩ := List.mem_map.1 listed
    rwa [← inj (id_mem_mentioned present) known same]
  · exact mem_ids_rename

theorem insertById_rename {node : NodeDescription}
    (mono : ∀ other ∈ nodes, r node.id ≤ r other.id ↔ node.id ≤ other.id) :
    insertById (node.rename r) (nodes.map (·.rename r)) =
      (insertById node nodes).map (·.rename r) := by
  induction nodes with
  | nil => rfl
  | cons other rest ih =>
      obtain ⟨first, later⟩ := List.forall_mem_cons.1 mono
      have ids : (node.rename r).id ≤ (other.rename r).id ↔ node.id ≤ other.id := first
      simp only [List.map_cons, insertById, ids, ih later]
      split
      · rfl
      · rfl

/-- Ids in the same order are sorted in the same way. -/
theorem sortById_rename (mono : StrictMonoOn r {id | id ∈ mentioned nodes}) :
    sortById (nodes.map (·.rename r)) = (sortById nodes).map (·.rename r) := by
  induction nodes with
  | nil => rfl
  | cons node rest ih =>
      have sorted := ih (mono.mono (mentioned_subset (List.subset_cons_self node rest)))
      change insertById _ (sortById (rest.map (·.rename r))) = _
      rw [sorted]
      apply insertById_rename
      intro other member
      have listed := List.mem_cons_of_mem node ((sortById_perm rest).mem_iff.1 member)
      exact mono.le_iff_le (id_mem_mentioned List.mem_cons_self) (id_mem_mentioned listed)

theorem map_rename_of_place {before after : List NodeDescription} {described : NodeDescription}
    (place : nodes = before ++ described :: after) :
    nodes.map (·.rename r) =
      before.map (·.rename r) ++ described.rename r :: after.map (·.rename r) := by
  rw [place, List.map_append, List.map_cons]

theorem Registrable.rename (registrable : Registrable context nodes)
    (inj : {id | id ∈ mentioned nodes}.InjOn r) : Registrable context (nodes.map (·.rename r)) where
  accepted := by
    intro _ member
    obtain ⟨described, listed, rfl⟩ := List.mem_map.1 member
    exact registrable.accepted described listed
  once := by
    rw [ids_rename]
    apply registrable.once.map_on
    intro a ha b hb same
    obtain ⟨_, listed, rfl⟩ := List.mem_map.1 ha
    obtain ⟨_, listed', rfl⟩ := List.mem_map.1 hb
    exact inj (id_mem_mentioned listed) (id_mem_mentioned listed') same

/-- Nodes that have all their parents among others still have them under the new ids. -/
theorem forall_parents_rename {others : List NodeDescription}
    (closed : ∀ described ∈ nodes, ∀ parent ∈ described.parents,
      parent ∈ others.map NodeDescription.id) :
    ∀ described ∈ nodes.map (·.rename r), ∀ parent ∈ described.parents,
      parent ∈ (others.map (·.rename r)).map NodeDescription.id := by
  intro _ member parent named
  obtain ⟨described, listed, rfl⟩ := List.mem_map.1 member
  rw [parents_rename] at named
  obtain ⟨stored, isParent, rfl⟩ := List.mem_map.1 named
  exact mem_ids_rename (closed described listed stored isParent)

/-- The first fault stays the first one. -/
theorem Failure.rename {e : ModelError} (failure : Failure context nodes e)
    (inj : {id | id ∈ mentioned nodes}.InjOn r) :
    Failure context (nodes.map (·.rename r)) (e.rename r) := by
  cases failure with
  | @unknownKind before after described place earlier unknown =>
      have listed : before ⊆ nodes := place ▸ List.subset_append_left before _
      have earlier' := earlier.rename (inj.mono (mentioned_subset listed))
      change Failure context _ (.unknownKind (described.rename r).kind)
      exact .unknownKind (map_rename_of_place place) earlier' unknown
  | @duplicateNode before after described place earlier known repeated =>
      have listed : before ⊆ nodes := place ▸ List.subset_append_left before _
      have earlier' := earlier.rename (inj.mono (mentioned_subset listed))
      exact .duplicateNode (map_rename_of_place place) earlier' known (mem_ids_rename repeated)
  | @danglingReference before after described present rest parent registrable place earlier
      parents first missing =>
      have listed : described ∈ nodes := by simp [place]
      have named : parent ∈ described.parents := by simp [parents]
      have parents' : (described.rename r).parents = present.map r ++ r parent :: rest.map r := by
        rw [parents_rename, parents, List.map_append, List.map_cons]
      apply Failure.danglingReference (registrable.rename inj) (map_rename_of_place place)
        (forall_parents_rename earlier) parents'
      · intro id member
        obtain ⟨stored, isFirst, rfl⟩ := List.mem_map.1 member
        exact mem_ids_rename (first stored isFirst)
      · rwa [mem_ids_rename_iff inj (parent_mem_mentioned listed named)]
  | cyclicGraph registrable closed cycle =>
      have isParent := ModelDescription.isParent_rename r ⟨nodes⟩
      have inside : ∀ a b, (ModelDescription.mk nodes).IsParent a b →
          a ∈ mentioned nodes ∧ b ∈ mentioned nodes := by
        intro a b link
        obtain ⟨described, listed, rfl, named⟩ := link
        exact ⟨parent_mem_mentioned listed named, id_mem_mentioned listed⟩
      have count := ncard_behindCycle_map inj inside
      rw [← isParent] at count
      rw [ModelError.rename, ← count]
      apply Failure.cyclicGraph (registrable.rename inj) (forall_parents_rename closed)
      change TransGen ((ModelDescription.mk nodes).rename r).IsParent _ _
      rw [isParent]
      exact cycle.lift r fun a b link => ⟨a, b, link, rfl, rfl⟩

end NodeDescription

/-- A third of an id. It keeps the order of ids that are three apart. -/
def NodeId.third (id : NodeId) : NodeId := ⟨id.raw / 3⟩

namespace ModelDescription

open NodeDescription

variable {description : ModelDescription} {r : NodeId → NodeId}

theorem size_rename (r : NodeId → NodeId) (description : ModelDescription) :
    (description.rename r).size = description.size :=
  List.length_map ..

theorem rank_rename (mono : StrictMonoOn r {id | id ∈ mentioned description.nodes}) {id : NodeId}
    (known : id ∈ mentioned description.nodes) :
    (description.rename r).rank (r id) = description.rank id := by
  rw [rank, rank, rename, List.countP_map]
  congr 1
  apply List.countP_congr
  intro other listed
  have order : (other.rename r).id < r id ↔ other.id < id :=
    mono.lt_iff_lt (id_mem_mentioned listed) known
  simpa using order

/-- Nodes with other ids in the same order become the same nodes. -/
theorem ranked_rename (mono : StrictMonoOn r {id | id ∈ mentioned description.nodes}) :
    (description.rename r).ranked = description.ranked := by
  rw [ranked, ranked, rename, sortById_rename mono, List.map_map]
  apply List.map_congr_left
  intro described sorted
  have listed := (sortById_perm description.nodes).mem_iff.1 sorted
  rw [Function.comp_apply, rename_rename]
  apply rename_congr
  · exact rank_rename mono (id_mem_mentioned listed)
  · intro parent named
    exact rank_rename mono (parent_mem_mentioned listed named)

/-- `crossed` with a parent that is not described. -/
def frayed : ModelDescription where
  nodes := [⟨⟨9⟩, "sum", [⟨"left", [⟨4⟩, ⟨4⟩]⟩, ⟨"right", [⟨7⟩]⟩], .empty⟩,
    ⟨⟨4⟩, "scale", [⟨"in", [⟨7⟩, ⟨30⟩]⟩], .empty⟩, ⟨⟨7⟩, "load", [], .empty⟩]

end ModelDescription

namespace Model

open NodeDescription

variable {description : ModelDescription} {r : NodeId → NodeId} {context : Context}

theorem restoreIn_rename_of_ok (room : description.size < UInt64.size)
    (mono : StrictMonoOn r {id | id ∈ mentioned description.nodes}) {model : Model}
    (ok : (restoreIn description context).1 = .ok model) :
    (restoreIn (description.rename r) context).1 = .ok model := by
  have room' : (description.rename r).size < UInt64.size := by rwa [ModelDescription.size_rename]
  obtain ⟨registrable, closed, wellFormed, nodes⟩ := (restoreIn_eq_ok_iff room).1 ok
  rw [restoreIn_eq_ok_iff room', ModelDescription.ranked_rename mono]
  exact ⟨registrable.rename mono.injOn, forall_parents_rename closed, wellFormed, nodes⟩

theorem restoreIn_rename_of_error (room : description.size < UInt64.size)
    (mono : StrictMonoOn r {id | id ∈ mentioned description.nodes}) {e : ModelError}
    (failed : (restoreIn description context).1 = .error e) :
    (restoreIn (description.rename r) context).1 = .error (e.rename r) := by
  have room' : (description.rename r).size < UInt64.size := by rwa [ModelDescription.size_rename]
  have failure := (restoreIn_eq_error_iff_failure room).1 failed
  rw [restoreIn_eq_error_iff_failure room', ModelDescription.rename, sortById_rename mono]
  apply failure.rename
  exact mono.injOn.mono (mentioned_subset (sortById_perm description.nodes).subset)

/-- A description that fits in memory is restored alike under other ids in the same order: as the
    same model, or with the same error about the new ids. -/
theorem restoreIn_rename (room : description.size < UInt64.size)
    (mono : StrictMonoOn r {id | id ∈ mentioned description.nodes}) (context : Context) :
    (restoreIn (description.rename r) context).1 =
      (restoreIn description context).1.mapError (ModelError.rename r) := by
  cases outcome : (restoreIn description context).1 with
  | ok model => exact restoreIn_rename_of_ok room mono outcome
  | error e => exact restoreIn_rename_of_error room mono outcome

/-- Some of the new ids of `frayed` are also live ids. -/
theorem restoreIn_rename_third :
    ModelDescription.frayed.size < UInt64.size ∧
    StrictMonoOn NodeId.third {id | id ∈ mentioned ModelDescription.frayed.nodes} ∧
    (restoreIn .frayed .sample).1 = .error (.danglingReference ⟨4⟩ ⟨30⟩) ∧
    (restoreIn (ModelDescription.frayed.rename .third) .sample).1 =
      .error (.danglingReference ⟨1⟩ ⟨10⟩) := by
  have mono : ∀ a ∈ mentioned ModelDescription.frayed.nodes,
      ∀ b ∈ mentioned ModelDescription.frayed.nodes, a < b → a.third < b.third := by
    decide
  have strict : StrictMonoOn NodeId.third {id | id ∈ mentioned ModelDescription.frayed.nodes} :=
    fun a ha b hb => mono a ha b hb
  exact ⟨by decide, strict, rfl, (restoreIn_rename (by decide) strict .sample).trans rfl⟩

end Model

end Dataflow

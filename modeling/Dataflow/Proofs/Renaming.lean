import Dataflow.Proofs.Numbering
import Dataflow.Scope.Frame

/-! # Renaming parents through a frame

Resolving the parents of a node renames each occurrence once, and succeeds when the frame knows all
of them. Otherwise the first parent that it does not know is reported.
-/

namespace Dataflow

/-- An input with its parents renamed; order and repeats stay. -/
def Input.rename (f : NodeId → NodeId) (input : Input) : Input :=
  { input with parents := input.parents.map f }

theorem Input.allParents_rename (f : NodeId → NodeId) (inputs : List Input) :
    Input.allParents (inputs.map (Input.rename f)) = (Input.allParents inputs).map f := by
  simp only [allParents, List.flatMap_map, List.map_flatMap]
  rfl

theorem Input.rename_congr {f g : NodeId → NodeId} {inputs : List Input}
    (same : ∀ id ∈ Input.allParents inputs, f id = g id) :
    inputs.map (Input.rename f) = inputs.map (Input.rename g) := by
  apply List.map_congr_left
  intro input member
  have parents : input.parents.map f = input.parents.map g :=
    List.map_congr_left fun id named => same id (List.mem_flatMap.2 ⟨input, member, named⟩)
  simp only [rename, parents]

theorem Input.map_rename_id (inputs : List Input) :
    inputs.map (Input.rename fun id => id) = inputs := by
  apply List.map_id''
  intro input
  simp only [rename, List.map_id']

namespace Frame

/-- The new id of a stored one. An id that is not registered stays. -/
def rename (frame : Frame) (id : NodeId) : NodeId := (frame.get? id).getD id

/-- Whether an id is registered. -/
def Knows (frame : Frame) (id : NodeId) : Prop := frame.get? id ≠ none

theorem replaceIds_of_knows {frame : Frame} {ids : List NodeId}
    (known : ∀ id ∈ ids, frame.Knows id) : frame.replaceIds ids = (ids.map frame.rename, none) := by
  induction ids with
  | nil => rfl
  | cons id rest ih =>
      obtain ⟨new, found⟩ := Option.ne_none_iff_exists'.1 (known id List.mem_cons_self)
      have rest_known := ih fun other member => known other (List.mem_cons_of_mem _ member)
      simp only [replaceIds, found, rest_known, List.map_cons, rename, Option.getD_some]

theorem replaceIds_missing (frame : Frame) (ids : List NodeId) :
    (frame.replaceIds ids).2 = ids.find? fun id => (frame.get? id).isNone := by
  induction ids with
  | nil => rfl
  | cons id rest ih => cases found : frame.get? id <;> simp [replaceIds, found, ih]

theorem replaceParents_of_knows {frame : Frame} {inputs : List Input}
    (known : ∀ id ∈ Input.allParents inputs, frame.Knows id) :
    frame.replaceParents inputs = (inputs.map (Input.rename frame.rename), none) := by
  induction inputs with
  | nil => rfl
  | cons input rest ih =>
      have first : ∀ id ∈ input.parents, frame.Knows id := fun id named =>
        known id (List.mem_append_left _ named)
      have later := ih fun id named => known id (List.mem_append_right _ named)
      simp only [replaceParents, replaceIds_of_knows first, later, List.map_cons, Input.rename]

theorem replaceParents_missing (frame : Frame) (inputs : List Input) :
    (frame.replaceParents inputs).2 =
      (Input.allParents inputs).find? fun id => (frame.get? id).isNone := by
  induction inputs with
  | nil => rfl
  | cons input rest ih =>
      have first := replaceIds_missing frame input.parents
      simp only [Input.allParents, List.flatMap_cons, List.find?_append, ← first]
      unfold replaceParents
      cases replaced : frame.replaceIds input.parents with
      | mk parents missing => cases missing <;> simp [ih, Input.allParents]

end Frame

namespace Node

/-- A node with its parents renamed. -/
def renameParents (f : NodeId → NodeId) (node : Node) : Node :=
  { node with inputs := node.inputs.map (Input.rename f) }

@[simp] theorem parents_renameParents (f : NodeId → NodeId) (node : Node) :
    (node.renameParents f).parents = node.parents.map f := Input.allParents_rename f _

variable {frame : Frame} {node : Node}

/-- A node whose parents are all known gets them renamed. -/
theorem resolveParents_of_knows (known : ∀ parent ∈ node.parents, frame.Knows parent) :
    node.resolveParents frame =
      (.ok (node.renameParents frame.rename).distinctParents, node.renameParents frame.rename) := by
  simp only [resolveParents, Frame.replaceParents_of_knows known, renameParents]

/-- The first unknown parent of a node makes it fail. -/
theorem resolveParents_error {parent : NodeId}
    (first : node.parents.find? (fun id => (frame.get? id).isNone) = some parent) :
    (node.resolveParents frame).1 =
      .error (.danglingReference ((frame.stored? node.id).getD node.id) parent) := by
  have missing := (Frame.replaceParents_missing frame node.inputs).trans first
  simp only [resolveParents, missing]

/-- Resolving succeeds only if all parents are known. -/
theorem knows_of_resolveParents_ok {distinct : List NodeId}
    (resolved : (node.resolveParents frame).1 = .ok distinct) :
    ∀ parent ∈ node.parents, frame.Knows parent := by
  cases search : node.parents.find? (fun id => (frame.get? id).isNone) with
  | none =>
      intro parent named absent
      simpa [absent] using List.find?_eq_none.1 search parent named
  | some parent =>
      rw [resolveParents_error search] at resolved
      cases resolved

end Node

end Dataflow

import Dataflow.Proofs.Frames
import Dataflow.Proofs.Links
import Dataflow.Proofs.Outcomes
import Dataflow.Model.Restore

/-! # Registering described nodes

The first phase of restoring takes one description after the other, gives it the next new id, and
appends its node. It goes through if and only if all kinds are accepted and no id comes twice.
-/

namespace Dataflow

namespace Scope

@[simp] theorem setFrame_setFrame (scope : Scope) (first second : Frame) :
    (scope.setFrame first).setFrame second = scope.setFrame second := by
  simp [setFrame]

theorem openScope_eq_setFrame (context : Context) :
    context.openScope = context.openScope.setFrame .empty := by
  simp [Context.openScope, setFrame, Context.depth, List.set_append_right]

theorem isInnermost_setFrame_openScope (context : Context) (frame : Frame) :
    (context.openScope.setFrame frame).IsInnermost := by
  simp [Context.openScope, setFrame, IsInnermost, Context.depth]

end Scope

/-- Nodes of a kind can be restored in a context: it has no registry, or one with the kind. -/
def Context.Accepts (context : Context) (kind : String) : Prop :=
  ∀ registry, context.registry = some registry → registry.contains kind

theorem Context.accepts_iff {context : Context} {kind : String} :
    context.Accepts kind ↔
      (context.registry.any fun registry => !registry.contains kind) = false := by
  cases stored : context.registry <;> simp [Accepts, stored]

namespace NodeDescription

/-- Descriptions under new ids, which count them from zero up. Parents keep their stored ids. -/
def renumber (nodes : List NodeDescription) : List NodeDescription :=
  nodes.mapIdx fun k described => { described with id := .ofNat k }

/-- All kinds are known and no id comes twice. -/
structure Registrable (context : Context) (nodes : List NodeDescription) : Prop where
  accepted : ∀ described ∈ nodes, context.Accepts described.kind
  once : (nodes.map NodeDescription.id).Nodup

theorem Registrable.of_perm {context : Context} {a b : List NodeDescription} (perm : a.Perm b)
    (registrable : Registrable context a) : Registrable context b where
  accepted described member := registrable.accepted described (perm.mem_iff.2 member)
  once := (perm.map NodeDescription.id).nodup_iff.1 registrable.once

end NodeDescription

namespace Model

open NodeDescription

/-- What holds when the descriptions `done` have been registered in an empty model. -/
structure Staged (done : List NodeDescription) (frame : Frame) (model : Model) : Prop where
  unlinked : model.LinkedUpTo 0
  nodes : model.nodes.map NodeDescription.ofNode = renumber done
  once : (done.map NodeDescription.id).Nodup
  get? : ∀ (k : Nat) (described : NodeDescription), done[k]? = some described →
    frame.get? described.id = some (.ofNat k)
  knows : ∀ id, frame.Knows id ↔ id ∈ done.map NodeDescription.id

/-- In a scope of its own, registering a node depends on the registry and the frame of the scope. -/
theorem registerNode_setFrame (context : Context) (frame : Frame) (model : Model)
    (described : NodeDescription) :
    registerNode (context.openScope.setFrame frame) model described =
      if context.registry.any fun registry => !registry.contains described.kind then
        .error (.unknownKind described.kind)
      else
        (frame.register described.id ⟨model.nextId⟩).map fun frame =>
          (context.openScope.setFrame frame,
            model.append described.kind described.inputs described.attributes) := by
  simp only [registerNode, Scope.register, Scope.frame_setFrame_openScope]
  change (if context.registry.any _ then _ else _) = _
  cases frame.register described.id ⟨model.nextId⟩ <;> simp [Except.map]

theorem registerNode_eq_ok_iff {context : Context} {frame : Frame} {model after : Model}
    {described : NodeDescription} {scope : Scope} :
    registerNode (context.openScope.setFrame frame) model described = .ok (scope, after) ↔
      (context.Accepts described.kind ∧ ¬frame.Knows described.id) ∧
        scope = context.openScope.setFrame ⟨(described.id, ⟨model.nextId⟩) :: frame.pairs⟩ ∧
        after = model.append described.kind described.inputs described.attributes := by
  rw [registerNode_setFrame, Context.accepts_iff]
  split
  · next refused => simp [refused]
  · next accepted =>
    rw [Except.map_eq_ok_iff]
    simp only [Frame.register_eq_ok_iff]
    simp [accepted, Frame.Knows, eq_comm]

/-- Registering goes on with further descriptions where it stopped. -/
theorem registerNodes_append {scope next : Scope} {model staged : Model}
    {before : List NodeDescription}
    (registered : registerNodes scope model before = (.ok staged, next))
    (after : List NodeDescription) :
    registerNodes scope model (before ++ after) = registerNodes next staged after := by
  induction before generalizing scope model with
  | nil =>
      cases registered
      rfl
  | cons described rest ih =>
      rw [registerNodes] at registered
      rw [List.cons_append, registerNodes]
      cases step : registerNode scope model described with
      | error e =>
          rw [step] at registered
          cases registered
      | ok result =>
          rw [step] at registered
          exact ih registered

/-- Registering changes the frame of its own scope only, also when it fails. -/
theorem exists_frame_of_registerNodes (context : Context) (frame : Frame) (model : Model)
    (nodes : List NodeDescription) : ∃ frame',
      (registerNodes (context.openScope.setFrame frame) model nodes).2 =
        context.openScope.setFrame frame' := by
  induction nodes generalizing frame model with
  | nil => exact ⟨frame, rfl⟩
  | cons described rest ih =>
      unfold registerNodes
      split
      · exact ⟨frame, rfl⟩
      · next scope next registered =>
        obtain ⟨-, rfl, rfl⟩ := registerNode_eq_ok_iff.1 registered
        exact ih _ _

/-- Registering nodes keeps stored ids apart. -/
theorem once_of_registerNodes (context : Context) {frame : Frame} (once : frame.Once)
    (model : Model) (nodes : List NodeDescription) :
    (registerNodes (context.openScope.setFrame frame) model nodes).2.frame.Once := by
  induction nodes generalizing frame model with
  | nil => rwa [registerNodes, Scope.frame_setFrame_openScope]
  | cons described rest ih =>
      unfold registerNodes
      split
      · rwa [Scope.frame_setFrame_openScope]
      · next scope next registered =>
        obtain ⟨⟨-, new⟩, rfl, rfl⟩ := registerNode_eq_ok_iff.1 registered
        exact ih (once.register (Frame.register_eq_ok_iff.2 ⟨not_not.1 new, rfl⟩)) _

namespace Staged

variable {done : List NodeDescription} {frame : Frame} {model : Model}

theorem start : Staged [] .empty Model.empty where
  unlinked := linkedUpTo_empty
  nodes := rfl
  once := .nil
  get? := by simp
  knows := by simp [Frame.Knows, Frame.get?, Frame.empty]

theorem size_eq (staged : Staged done frame model) : model.size = done.length := by
  simpa [size, NodeDescription.renumber] using congrArg List.length staged.nodes

theorem push (staged : Staged done frame model) (room : done.length + 1 < UInt64.size)
    {described : NodeDescription} (new : ¬frame.Knows described.id) :
    Staged (done ++ [described]) ⟨(described.id, ⟨model.nextId⟩) :: frame.pairs⟩
      (model.append described.kind described.inputs described.attributes) := by
  have newId : NodeId.mk model.nextId = .ofNat done.length := by
    rw [← staged.size_eq, ← staged.unlinked.nextId]
    exact (NodeId.ofNat_position _).symm
  have absent : described.id ∉ done.map NodeDescription.id := fun member =>
    new ((staged.knows _).2 member)
  constructor
  · exact staged.unlinked.append (Nat.zero_le _) (by rwa [staged.size_eq]) _ _ _
  · rw [NodeDescription.renumber, List.mapIdx_append, ← NodeDescription.renumber, ← staged.nodes,
      append, List.map_append, newId]
    simp [NodeDescription.ofNode]
  · rw [List.map_append]
    refine List.nodup_append.2 ⟨staged.once, List.nodup_singleton _, ?_⟩
    rintro id member _ last rfl
    exact absent (List.mem_singleton.1 last ▸ member)
  · intro k other found
    rw [Frame.get?_cons, newId]
    rcases Nat.lt_or_ge k done.length with inside | outside
    · rw [List.getElem?_append_left inside] at found
      have member : other.id ∈ done.map NodeDescription.id :=
        List.mem_map_of_mem (List.mem_of_getElem? found)
      have different : other.id ≠ described.id := by
        intro same
        exact absent (same ▸ member)
      rw [if_neg different]
      exact staged.get? k other found
    · rw [List.getElem?_append_right outside, List.getElem?_singleton] at found
      split at found
      · next first =>
        cases found
        rw [if_pos rfl, show done.length = k by omega]
      · cases found
  · intro id
    rw [List.map_append, List.mem_append, ← staged.knows, Frame.Knows, Frame.get?_cons]
    by_cases same : id = described.id <;> simp [same, Frame.Knows]

/-- Registering further descriptions goes through if their kinds are accepted and no id comes
    twice. -/
theorem registerNodes {context : Context} (staged : Staged done frame model)
    {nodes : List NodeDescription} (room : done.length + nodes.length < UInt64.size)
    (accepted : ∀ described ∈ nodes, context.Accepts described.kind)
    (once : ((done ++ nodes).map NodeDescription.id).Nodup) : ∃ frame' after,
      Model.registerNodes (context.openScope.setFrame frame) model nodes =
        (.ok after, context.openScope.setFrame frame') ∧ Staged (done ++ nodes) frame' after := by
  induction nodes generalizing done frame model with
  | nil => exact ⟨frame, model, rfl, by rwa [List.append_nil]⟩
  | cons described rest ih =>
      have assoc : done ++ described :: rest = done ++ [described] ++ rest := by simp
      have new : ¬frame.Knows described.id := by
        rw [staged.knows]
        intro member
        rw [List.map_append] at once
        exact (List.nodup_append.1 once).2.2 _ member _ List.mem_cons_self rfl
      have registered : registerNode (context.openScope.setFrame frame) model described =
          .ok (context.openScope.setFrame ⟨(described.id, ⟨model.nextId⟩) :: frame.pairs⟩,
            model.append described.kind described.inputs described.attributes) :=
        registerNode_eq_ok_iff.2 ⟨⟨accepted described List.mem_cons_self, new⟩, rfl, rfl⟩
      rw [List.length_cons] at room
      rw [assoc] at once ⊢
      obtain ⟨frame', after, result, staged'⟩ := ih (staged.push (by omega) new)
        (by rw [List.length_append, List.length_singleton]; omega)
        (fun other member => accepted other (List.mem_cons_of_mem _ member)) once
      refine ⟨frame', after, ?_, staged'⟩
      unfold Model.registerNodes
      rw [registered]
      exact result

/-- Registering goes through only if all kinds are accepted and no id comes twice. -/
theorem of_registerNodes {context : Context} (staged : Staged done frame model)
    {nodes : List NodeDescription} (room : done.length + nodes.length < UInt64.size) {after : Model}
    (ok : (Model.registerNodes (context.openScope.setFrame frame) model nodes).1 = .ok after) :
    (∀ described ∈ nodes, context.Accepts described.kind) ∧
      ((done ++ nodes).map NodeDescription.id).Nodup := by
  induction nodes generalizing done frame model with
  | nil => exact ⟨by simp, by simpa using staged.once⟩
  | cons described rest ih =>
      unfold Model.registerNodes at ok
      split at ok
      · cases ok
      · next scope next registered =>
        obtain ⟨⟨accepts, new⟩, rfl, rfl⟩ := registerNode_eq_ok_iff.1 registered
        rw [List.length_cons] at room
        obtain ⟨accepted, once⟩ := ih (staged.push (by omega) new)
          (by rw [List.length_append, List.length_singleton]; omega) ok
        refine ⟨List.forall_mem_cons.2 ⟨accepts, accepted⟩, ?_⟩
        rwa [List.append_assoc] at once

end Staged

variable {context : Context} {nodes : List NodeDescription}

/-- Nodes of known kinds and distinct ids can be registered in a scope of their own. -/
theorem exists_staged (room : nodes.length < UInt64.size)
    (registrable : Registrable context nodes) : ∃ frame staged,
      registerNodes context.openScope .empty nodes =
        (.ok staged, context.openScope.setFrame frame) ∧ Staged nodes frame staged := by
  rw [Scope.openScope_eq_setFrame]
  obtain ⟨frame, staged, registered, isStaged⟩ := Staged.start.registerNodes
    (by rwa [List.length_nil, Nat.zero_add]) registrable.accepted registrable.once
  exact ⟨frame, staged, by rw [registered, Scope.setFrame_setFrame], isStaged⟩

/-- No other nodes can. -/
theorem registrable_of_registerNodes (room : nodes.length < UInt64.size) {after : Model}
    (ok : (registerNodes context.openScope .empty nodes).1 = .ok after) :
    Registrable context nodes := by
  rw [Scope.openScope_eq_setFrame] at ok
  obtain ⟨accepted, once⟩ :=
    Staged.start.of_registerNodes (by rwa [List.length_nil, Nat.zero_add]) ok
  exact ⟨accepted, once⟩

theorem size_of_registerNode {scope next : Scope} {model after : Model}
    {described : NodeDescription} (ok : registerNode scope model described = .ok (next, after)) :
    after.size = model.size + 1 := by
  unfold registerNode at ok
  split at ok
  · cases ok
  · obtain ⟨_, -, same⟩ := Except.map_eq_ok_iff.1 ok
    cases same
    exact size_append _ _ _ _

/-- Registering keeps all descriptions, also when ids come twice. -/
theorem size_of_registerNodes {scope : Scope} {model after : Model} {nodes : List NodeDescription}
    (ok : (registerNodes scope model nodes).1 = .ok after) :
    after.size = model.size + nodes.length := by
  induction nodes generalizing scope model with
  | nil =>
      cases ok
      rfl
  | cons described rest ih =>
      unfold registerNodes at ok
      split at ok
      · cases ok
      · next scope next registered =>
        rw [ih ok, size_of_registerNode registered, List.length_cons]
        omega

end Model

end Dataflow

import Dataflow.Proofs.Listing
import Dataflow.Proofs.Restorability

/-! # Why a description cannot be restored

Much can be wrong with a description at once. Restoring looks at its nodes in ascending order of
their ids, first at kinds and ids, then at parents, and at cycles last. Main statement: which error
is reported, in terms of the description alone.
-/

namespace Dataflow

open Relation

namespace NodeDescription

/-- What is wrong with nodes that are taken in the given order: the first fault of the first kind
    that there is. -/
inductive Failure (context : Context) (nodes : List NodeDescription) : ModelError → Prop where
  /-- The first node that cannot be registered has an unknown kind. -/
  | unknownKind {before after : List NodeDescription} {described : NodeDescription}
      (place : nodes = before ++ described :: after) (earlier : Registrable context before)
      (unknown : ¬context.Accepts described.kind) :
      Failure context nodes (.unknownKind described.kind)
  /-- The first node that cannot be registered has a known kind, but the id of an earlier one. -/
  | duplicateNode {before after : List NodeDescription} {described : NodeDescription}
      (place : nodes = before ++ described :: after) (earlier : Registrable context before)
      (known : context.Accepts described.kind)
      (repeated : described.id ∈ before.map NodeDescription.id) :
      Failure context nodes (.duplicateNode described.id)
  /-- The first parent that is not described, of the first node that has one. -/
  | danglingReference {before after : List NodeDescription} {described : NodeDescription}
      {present rest : List NodeId} {parent : NodeId} (registrable : Registrable context nodes)
      (place : nodes = before ++ described :: after)
      (earlier : ∀ other ∈ before, ∀ id ∈ other.parents, id ∈ nodes.map NodeDescription.id)
      (parents : described.parents = present ++ parent :: rest)
      (first : ∀ id ∈ present, id ∈ nodes.map NodeDescription.id)
      (missing : parent ∉ nodes.map NodeDescription.id) :
      Failure context nodes (.danglingReference described.id parent)
  /-- Parents form a cycle. The nodes on and behind cycles are counted. -/
  | cyclicGraph {id : NodeId} (registrable : Registrable context nodes) (closed : Closed nodes)
      (cycle : TransGen (ModelDescription.mk nodes).IsParent id id) :
      Failure context nodes
        (.cyclicGraph {id | BehindCycle (ModelDescription.mk nodes).IsParent id}.ncard)

variable {context : Context}

theorem exists_first {α : Type} {p : α → Prop} {xs : List α} (any : ∃ x ∈ xs, p x) :
    ∃ before x after, xs = before ++ x :: after ∧ p x ∧ ∀ y ∈ before, ¬p y := by
  induction xs with
  | nil => grind
  | cons head rest ih =>
      by_cases here : p head
      · exact ⟨[], head, rest, rfl, here, by simp⟩
      · obtain ⟨before, x, after, rfl, holds, none⟩ := ih (by grind)
        exact ⟨head :: before, x, after, rfl, holds, by grind⟩

/-- If nodes cannot be registered, there is a first one that cannot. -/
theorem exists_refused {nodes : List NodeDescription} (not : ¬Registrable context nodes) :
    ∃ before described after, nodes = before ++ described :: after ∧ Registrable context before ∧
      (context.Accepts described.kind → described.id ∈ before.map NodeDescription.id) := by
  induction nodes using List.reverseRecOn with
  | nil => exact absurd ⟨by simp, List.nodup_nil⟩ not
  | append_singleton before last ih =>
      by_cases earlier : Registrable context before
      · refine ⟨before, last, [], rfl, earlier, fun known => ?_⟩
        by_contra new
        apply not
        constructor
        · exact List.forall_mem_append.2 ⟨earlier.accepted, List.forall_mem_singleton.2 known⟩
        · rw [List.map_append, List.map_singleton, ← List.concat_eq_append]
          exact earlier.once.concat new
      · obtain ⟨start, described, after, place, registrable, refused⟩ := ih earlier
        exact ⟨start, described, after ++ [last], by simp [place], registrable, refused⟩

theorem exists_failure_of_not_registrable {nodes : List NodeDescription}
    (not : ¬Registrable context nodes) : ∃ e, Failure context nodes e := by
  obtain ⟨before, described, after, place, earlier, refused⟩ := exists_refused not
  by_cases known : context.Accepts described.kind
  · exact ⟨_, .duplicateNode place earlier known (refused known)⟩
  · exact ⟨_, .unknownKind place earlier known⟩

theorem exists_failure_of_not_closed {nodes : List NodeDescription}
    (registrable : Registrable context nodes) (not : ¬Closed nodes) :
    ∃ e, Failure context nodes e := by
  have dangles : ∃ described ∈ nodes, ∃ parent ∈ described.parents,
      parent ∉ nodes.map NodeDescription.id := by
    simpa only [Closed, not_forall, exists_prop] using not
  obtain ⟨before, described, after, place, dangling, earlier⟩ := exists_first dangles
  obtain ⟨present, parent, rest, parents, missing, first⟩ := exists_first dangling
  refine ⟨_, .danglingReference registrable place ?_ parents ?_ missing⟩
  · simpa only [not_exists, not_and, not_not] using earlier
  · simpa only [not_not] using first

/-- Nodes have a fault unless they can be registered, have their parents among them, and form no
    cycle. -/
theorem exists_failure {nodes : List NodeDescription}
    (faulty : Registrable context nodes → Closed nodes →
      ∃ id, TransGen (ModelDescription.mk nodes).IsParent id id) :
    ∃ e, Failure context nodes e := by
  by_cases registrable : Registrable context nodes
  · by_cases closed : Closed nodes
    · obtain ⟨id, cycle⟩ := faulty registrable closed
      exact ⟨_, .cyclicGraph registrable closed cycle⟩
    · exact exists_failure_of_not_closed registrable closed
  · exact exists_failure_of_not_registrable registrable

end NodeDescription

namespace ModelDescription

/-- Nodes of an unknown kind, of one id, without their parents and on a cycle. -/
def tangled : ModelDescription where
  nodes := [⟨⟨12⟩, "sum", [⟨"left", [⟨3⟩, ⟨30⟩]⟩], .empty⟩, ⟨⟨7⟩, "blur", [], .empty⟩,
    ⟨⟨5⟩, "scale", [⟨"in", [⟨2⟩]⟩], .empty⟩, ⟨⟨3⟩, "scale", [⟨"in", [⟨3⟩]⟩], .empty⟩,
    ⟨⟨5⟩, "note", [], .empty⟩]

end ModelDescription

namespace Model

open NodeDescription

variable {context : Context} {description : ModelDescription} {e : ModelError}

/-- Registering ends with the error of the first node that is refused. -/
theorem registerNodes_eq_error {before after : List NodeDescription} {described : NodeDescription}
    (room : before.length < UInt64.size) (earlier : Registrable context before)
    (refused : ∀ frame staged, Staged before frame staged →
      registerNode (context.openScope.setFrame frame) staged described = .error e) :
    (registerNodes context.openScope .empty (before ++ described :: after)).1 = .error e := by
  obtain ⟨frame, staged, registered, isStaged⟩ := exists_staged room earlier
  rw [registerNodes_append registered, registerNodes, refused frame staged isStaged]

theorem registerNode_of_unknown {frame : Frame} {staged : Model} {described : NodeDescription}
    (unknown : ¬context.Accepts described.kind) :
    registerNode (context.openScope.setFrame frame) staged described =
      .error (.unknownKind described.kind) := by
  rw [Context.accepts_iff, Bool.not_eq_false] at unknown
  rw [registerNode_setFrame, if_pos unknown]

theorem Staged.registerNode_of_repeated {done : List NodeDescription} {frame : Frame}
    {staged : Model} (isStaged : Staged done frame staged) {described : NodeDescription}
    (known : context.Accepts described.kind)
    (repeated : described.id ∈ done.map NodeDescription.id) :
    registerNode (context.openScope.setFrame frame) staged described =
      .error (.duplicateNode described.id) := by
  have refused : frame.register described.id ⟨staged.nextId⟩ =
      .error (.duplicateNode described.id) :=
    Frame.register_eq_error_iff.2 ⟨(isStaged.knows _).2 repeated, rfl⟩
  rw [Context.accepts_iff] at known
  rw [registerNode_setFrame, known, refused]
  rfl

/-- Restoring fails with the first fault. -/
theorem restoreIn_of_failure (room : description.size < UInt64.size)
    (failure : Failure context (sortById description.nodes) e) :
    (restoreIn description context).1 = .error e := by
  have perm := sortById_perm description.nodes
  have length : (sortById description.nodes).length < UInt64.size := by rwa [perm.length_eq]
  cases failure with
  | unknownKind place earlier unknown =>
      apply restoreIn_of_registerNodes_error
      rw [place] at length ⊢
      exact registerNodes_eq_error (by rw [List.length_append] at length; omega) earlier
        fun _ _ _ => registerNode_of_unknown unknown
  | duplicateNode place earlier known repeated =>
      apply restoreIn_of_registerNodes_error
      rw [place] at length ⊢
      exact registerNodes_eq_error (by rw [List.length_append] at length; omega) earlier
        fun _ _ isStaged => isStaged.registerNode_of_repeated known repeated
  | danglingReference registrable place earlier parents first missing =>
      obtain ⟨frame, staged, registered, isStaged⟩ := exists_staged length registrable
      have once := once_of_registerNodes context Frame.once_empty .empty
        (sortById description.nodes)
      rw [← Scope.openScope_eq_setFrame, registered, Scope.frame_setFrame_openScope] at once
      apply restoreIn_of_linkNodes_error registered
      rw [Scope.frame_setFrame_openScope]
      apply isStaged.linkNodes_eq_error once place earlier
      rw [List.find?_eq_some_iff_append]
      exact ⟨by simpa using missing, _, _, parents, by simpa using first⟩
  | cyclicGraph registrable closed cycle =>
      rw [ModelDescription.isParent_eq_of_perm perm] at cycle ⊢
      have closed := closed.of_perm perm
      obtain ⟨model, linked, nodes, restored⟩ :=
        exists_restoreIn_eq_checkAcyclic room (registrable.of_perm perm) closed
      have cyclic : ¬model.Acyclic := by
        rw [ModelDescription.acyclic_iff_of_ranked room closed nodes]
        exact fun acyclic => acyclic _ cycle
      rw [restored, linked.checkAcyclic_of_cycle cyclic,
        ModelDescription.ncard_behindCycle_of_ranked room closed nodes]
      rfl

/-- Restoring fails exactly with the first fault. -/
theorem restoreIn_eq_error_iff_failure (room : description.size < UInt64.size) :
    (restoreIn description context).1 = .error e ↔
      Failure context (sortById description.nodes) e := by
  refine ⟨fun failed => ?_, restoreIn_of_failure room⟩
  have perm := sortById_perm description.nodes
  have faulty : ∃ e, Failure context (sortById description.nodes) e := by
    apply exists_failure
    intro registrable closed
    by_contra acyclic
    rw [ModelDescription.isParent_eq_of_perm perm, not_exists] at acyclic
    have restorable : description.Restorable context :=
      ModelDescription.restorable_iff.2 ⟨registrable.of_perm perm, closed.of_perm perm, acyclic⟩
    obtain ⟨model, ok⟩ := (exists_restoreIn_iff room).2 restorable
    rw [failed] at ok
    cases ok
  obtain ⟨e', failure⟩ := faulty
  have same := (restoreIn_of_failure room failure).symm.trans failed
  rwa [Except.error.inj same] at failure

/-- A description that fits in memory fails with the first fault of its nodes in ascending order of
    their ids, and with no other error. -/
theorem restoreIn_eq_error_iff (room : description.size < UInt64.size)
    {sorted : List NodeDescription} (order : Arranges sorted description.nodes) (e : ModelError) :
    (restoreIn description context).1 = .error e ↔ Failure context sorted e := by
  rw [order.eq_sortById]
  exact restoreIn_eq_error_iff_failure room

/-- Of all the faults of `tangled` the second node of id 5 comes first. -/
theorem restoreIn_eq_error_iff_tangled :
    ModelDescription.tangled.size < UInt64.size ∧
    Arranges (sortById ModelDescription.tangled.nodes) ModelDescription.tangled.nodes ∧
    (restoreIn .tangled .sample).1 = .error (.duplicateNode ⟨5⟩) ∧
    Failure .sample (sortById ModelDescription.tangled.nodes) (.duplicateNode ⟨5⟩) :=
  ⟨by decide, arranges_sortById _, rfl,
    (restoreIn_eq_error_iff (by decide) (arranges_sortById _) _).1 rfl⟩

end Model

end Dataflow

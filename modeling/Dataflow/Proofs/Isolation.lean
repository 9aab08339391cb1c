import Dataflow.Proofs.Restoring

/-! # Restoring inside other scopes

Of a context, restoring sees the registry alone. Main statement: the frames that are open already
neither change what comes of restoring a description nor are changed by it.
-/

namespace Dataflow

namespace Model

/-- In two contexts with one registry, registering comes to the same, with the same frame in the
    end. -/
theorem registerNodes_of_registry_eq {context other : Context}
    (registry : context.registry = other.registry) (frame : Frame) (model : Model)
    (nodes : List NodeDescription) : ∃ outcome frame',
      registerNodes (context.openScope.setFrame frame) model nodes =
        (outcome, context.openScope.setFrame frame') ∧
      registerNodes (other.openScope.setFrame frame) model nodes =
        (outcome, other.openScope.setFrame frame') := by
  induction nodes generalizing frame model with
  | nil => exact ⟨.ok model, frame, rfl, rfl⟩
  | cons described rest ih =>
      simp only [registerNodes, registerNode_setFrame, registry]
      by_cases unknown : other.registry.any fun registry => !registry.contains described.kind
      · simp only [unknown, if_true]
        exact ⟨_, frame, rfl, rfl⟩
      · simp only [unknown]
        cases frame.register described.id ⟨model.nextId⟩ with
        | error e => exact ⟨.error e, frame, rfl, rfl⟩
        | ok next => exact ih next _

/-- Restoring a description in any context comes to the same as in a fresh one with its registry,
    and leaves the context as it was: its registry, and every open frame with its pairs. -/
theorem restoreIn_eq_fresh (description : ModelDescription) (context : Context) :
    restoreIn description context =
      ((restoreIn description (.new context.registry)).1, context) := by
  refine Prod.ext ?_ (context_of_restoreIn description context)
  obtain ⟨outcome, frame, here, fresh⟩ :=
    registerNodes_of_registry_eq (show context.registry = (Context.new context.registry).registry
      from rfl) .empty .empty (NodeDescription.sortById description.nodes)
  rw [← Scope.openScope_eq_setFrame] at here fresh
  simp only [restoreIn, here, fresh, Scope.frame_setFrame_openScope]

end Model

end Dataflow

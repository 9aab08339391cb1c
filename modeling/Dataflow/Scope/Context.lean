import Dataflow.Scope.Frame
import Dataflow.Scope.Registry

/-! # Contexts and their scopes

Several models may be restored within one another. Each works in a scope of its own, which has a
frame of its own on the stack of a common context. The scopes share the registry of the context.
-/

namespace Dataflow

/-- A registry that all models share, if there is one, and the frames of the open scopes, outermost
    first. -/
structure Context where
  registry : Option Registry
  frames : List Frame
  deriving DecidableEq, Repr

/-- An open scope: the context, and how many scopes were open once this one was. -/
structure Scope where
  context : Context
  depth : Nat
  deriving DecidableEq, Repr

namespace Context

def new (registry : Option Registry) : Context := ⟨registry, []⟩

def depth (context : Context) : Nat := context.frames.length

def current? (context : Context) : Option Frame := context.frames.getLast?

def openScope (context : Context) : Scope where
  context := { context with frames := context.frames ++ [.empty] }
  depth := context.depth + 1

end Context

namespace Scope

def frame (scope : Scope) : Frame := scope.context.frames.getD (scope.depth - 1) .empty

def setFrame (scope : Scope) (frame : Frame) : Scope where
  context := { scope.context with frames := scope.context.frames.set (scope.depth - 1) frame }
  depth := scope.depth

/-- Records a pair in the frame of the scope. -/
def register (scope : Scope) (stored new : NodeId) : Except ModelError Scope :=
  (scope.frame.register stored new).map scope.setFrame

/-- Whether no scope is open inside this one, so that closing it takes away its own frame. -/
def IsInnermost (scope : Scope) : Prop := scope.context.depth = scope.depth

/-- Closes the innermost scope. -/
def close (scope : Scope) : Context :=
  { scope.context with frames := scope.context.frames.dropLast }

@[simp] theorem close_openScope (context : Context) : context.openScope.close = context := by
  simp [Context.openScope, close]

@[simp] theorem frame_openScope (context : Context) : context.openScope.frame = .empty := by
  simp [Context.openScope, frame, Context.depth]

theorem isInnermost_openScope (context : Context) : context.openScope.IsInnermost := by
  simp [Context.openScope, IsInnermost, Context.depth]

/-- Whatever is recorded in a scope, closing it gives back the context it was opened in. -/
@[simp] theorem close_setFrame_openScope (context : Context) (frame : Frame) :
    (context.openScope.setFrame frame).close = context := by
  simp [Context.openScope, setFrame, close, Context.depth, List.set_append_right]

@[simp] theorem frame_setFrame_openScope (context : Context) (frame : Frame) :
    (context.openScope.setFrame frame).frame = frame := by
  simp [Context.openScope, setFrame, Scope.frame, Context.depth, List.set_append_right]

end Scope

end Dataflow

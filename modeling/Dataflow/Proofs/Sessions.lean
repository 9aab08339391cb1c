import Dataflow.Proofs.Reachable

/-! # Programs on one context

A program opens scopes in blocks within blocks, each closed at the end of its block. In between it
registers pairs and looks them up in the innermost scope, and restores models. Main statement:
wherever a run of a program stands, the open frames are those of the blocks it is in, and each holds
the pairs that were accepted in its own block.
-/

namespace Dataflow

/-- A question about the pairs of a frame. -/
inductive Lookup where
  /-- The new id of a stored one. -/
  | forward (stored : NodeId)
  /-- The stored id of a new one. -/
  | backward (new : NodeId)
  /-- The new id of a stored one that a node refers to. -/
  | resolve (referrer stored : NodeId)

def Lookup.answer (frame : Frame) : Lookup → Except ModelError (Option NodeId)
  | .forward stored => .ok (frame.get? stored)
  | .backward new => .ok (frame.stored? new)
  | .resolve referrer stored => (frame.resolve referrer stored).map some

/-- Something done with a context. Pairs are registered and looked up in its innermost scope. -/
inductive Operation where
  | register (stored new : NodeId)
  | look (lookup : Lookup)
  | restore (description : ModelDescription)

/-- Whether an operation can do without an open scope. -/
def Operation.isRestore : Operation → Bool
  | .restore _ => true
  | _ => false

inductive Action where
  | perform (operation : Operation)
  /-- Opens a scope for the actions of the body and closes it after the last. -/
  | block (body : List Action)

/-- Actions on a context that is not in a scope of the program. -/
structure Program where
  actions : List Action
  outside : ∀ operation, .perform operation ∈ actions → operation.isRestore

/-- A move of a run. -/
inductive Move where
  | enter
  | perform (operation : Operation)
  | leave

mutual
/-- The moves that an action takes, one after the other. -/
def Action.moves : Action → List Move
  | .perform operation => [.perform operation]
  | .block body => .enter :: (movesOf body ++ [.leave])

def Action.movesOf : List Action → List Move
  | [] => []
  | action :: rest => action.moves ++ movesOf rest
end

def Program.moves (program : Program) : List Move := Action.movesOf program.actions

/-- In how many blocks a run is after a move, if it was in so many. There is no move out of no
    block, and outside of all blocks there are no pairs. -/
def Move.nesting : Nat → Move → Option Nat
  | depth, .enter => some (depth + 1)
  | depth, .perform operation => if depth = 0 ∧ !operation.isRestore then none else some depth
  | depth, .leave => if depth = 0 then none else some (depth - 1)

mutual
theorem Action.nesting_moves (action : Action) (depth : Nat) :
    action.moves.foldlM Move.nesting (depth + 1) = some (depth + 1) := by
  cases action with
  | perform operation => simp [moves, Move.nesting]
  | block body => simp [moves, Move.nesting, nesting_movesOf body]

theorem Action.nesting_movesOf (actions : List Action) (depth : Nat) :
    (movesOf actions).foldlM Move.nesting (depth + 1) = some (depth + 1) := by
  cases actions with
  | nil => rfl
  | cons action rest =>
      simp [movesOf, nesting_moves action, nesting_movesOf rest]
end

/-- A program leaves as many blocks as it enters, and none before it is entered. -/
theorem Program.nesting_moves (program : Program) :
    program.moves.foldlM Move.nesting 0 = some 0 := by
  obtain ⟨actions, outside⟩ := program
  simp only [moves]
  induction actions with
  | nil => rfl
  | cons action rest ih =>
      have later := ih fun operation member => outside operation (List.mem_cons_of_mem _ member)
      have first : action.moves.foldlM Move.nesting 0 = some 0 := by
        cases action with
        | perform operation =>
            simp [Action.moves, Move.nesting, outside operation List.mem_cons_self]
        | block body => simp [Action.moves, Move.nesting, Action.nesting_movesOf body]
      simp [Action.movesOf, first, later]

/-- A run at some point: the context, and the depths of the scopes of the blocks that it is in,
    innermost first. -/
structure Session where
  context : Context
  depths : List Nat

/-- What came of a move. -/
inductive Event where
  | entered
  | accepted (stored new : NodeId)
  | refused (error : ModelError)
  | answered (answer : Except ModelError (Option NodeId))
  | restored (outcome : Except ModelError Model)
  | left

namespace Session

def start (registry : Option Registry) : Session := ⟨.new registry, []⟩

/-- The scope of the innermost block. -/
def scope? (session : Session) : Option Scope :=
  session.depths.head?.map fun depth => ⟨session.context, depth⟩

/-- Where the run is after an operation, unless that needs a scope and there is none. -/
def perform (session : Session) : Operation → Option (Session × Event)
  | .register stored new => session.scope?.map fun scope =>
      match scope.register stored new with
      | .ok after => ({ session with context := after.context }, .accepted stored new)
      | .error e => (session, .refused e)
  | .look lookup => session.scope?.map fun scope => (session, .answered (lookup.answer scope.frame))
  | .restore description =>
      let (outcome, context) := Model.restoreIn description session.context
      some ({ session with context }, .restored outcome)

def step (session : Session) : Move → Option (Session × Event)
  | .enter =>
      let scope := session.context.openScope
      some (⟨scope.context, scope.depth :: session.depths⟩, .entered)
  | .perform operation => session.perform operation
  | .leave => session.scope?.map fun scope => (⟨scope.close, session.depths.tail⟩, .left)

/-- Where the run is after some moves, and what came of each. -/
def run (session : Session) : List Move → Option (Session × List Event)
  | [] => some (session, [])
  | move :: rest => do
      let (after, event) ← session.step move
      let (last, events) ← after.run rest
      some (last, event :: events)

end Session

/-- The pairs of a frame, the latest first. -/
abbrev Pairs := List (NodeId × NodeId)

/-- The pairs that were accepted in each block that the run is in, innermost first, after one more
    event. -/
def Event.record (blocks : List Pairs) : Event → List Pairs
  | .entered => [] :: blocks
  | .accepted stored new => blocks.modifyHead ((stored, new) :: ·)
  | .left => blocks.tail
  | _ => blocks

/-- The pairs that were accepted in each block that a run is in after some events. -/
def openBlocks (events : List Event) : List Pairs := events.foldl Event.record []

namespace Session

/-- The depths of so many nested scopes, innermost first. -/
def countdown : Nat → List Nat
  | 0 => []
  | depth + 1 => (depth + 1) :: countdown depth

/-- The session in blocks in which the given pairs were accepted. -/
def inBlocks (registry : Option Registry) (blocks : List Pairs) : Session where
  context := ⟨registry, (blocks.map Frame.mk).reverse⟩
  depths := countdown blocks.length

variable {registry : Option Registry}

/-- A block is entered on top of those around it. -/
theorem inBlocks_cons (pairs : Pairs) (outer : List Pairs) :
    inBlocks registry (pairs :: outer) =
      ⟨((inBlocks registry outer).context.openScope.setFrame ⟨pairs⟩).context,
        countdown (outer.length + 1)⟩ := by
  simp [inBlocks, Context.openScope, Scope.setFrame, Context.depth, List.set_append_right]

theorem enter_inBlocks (blocks : List Pairs) :
    (inBlocks registry blocks).step .enter = some (inBlocks registry ([] :: blocks), .entered) := by
  simp [step, inBlocks, Context.openScope, Context.depth, countdown, Frame.empty]

/-- The innermost scope is one opened within the blocks around its own. -/
theorem scope?_inBlocks (pairs : Pairs) (outer : List Pairs) :
    (inBlocks registry (pairs :: outer)).scope? =
      some ((inBlocks registry outer).context.openScope.setFrame ⟨pairs⟩) := by
  rw [inBlocks_cons]
  simp [scope?, countdown, inBlocks, Context.openScope, Scope.setFrame, Context.depth]

theorem leave_inBlocks (pairs : Pairs) (outer : List Pairs) :
    (inBlocks registry (pairs :: outer)).step .leave = some (inBlocks registry outer, .left) := by
  simp only [step, scope?_inBlocks, Option.map_some, Scope.close_setFrame_openScope]
  rfl

/-- Lookups see the pairs of the innermost block, and change nothing. -/
theorem look_inBlocks (pairs : Pairs) (outer : List Pairs) (lookup : Lookup) :
    (inBlocks registry (pairs :: outer)).perform (.look lookup) =
      some (inBlocks registry (pairs :: outer), .answered (lookup.answer ⟨pairs⟩)) := by
  simp only [perform, scope?_inBlocks, Scope.frame_setFrame_openScope, Option.map_some]

theorem register_inBlocks (pairs : Pairs) (outer : List Pairs) (stored new : NodeId) : ∃ event,
    (inBlocks registry (pairs :: outer)).perform (.register stored new) =
      some (inBlocks registry (event.record (pairs :: outer)), event) ∧
    (event.record (pairs :: outer)).length = outer.length + 1 := by
  simp only [perform, scope?_inBlocks, Scope.register, Scope.frame_setFrame_openScope,
    Option.map_some]
  cases registered : (Frame.mk pairs).register stored new with
  | error e => exact ⟨.refused e, rfl, rfl⟩
  | ok frame =>
      obtain ⟨-, rfl⟩ := Frame.register_eq_ok_iff.1 registered
      refine ⟨.accepted stored new, ?_, rfl⟩
      simp [Except.map, Event.record, inBlocks_cons]

/-- A possible move leads from where a run should be to where it should be after it. -/
theorem step_inBlocks (registry : Option Registry) {blocks : List Pairs} {move : Move} {depth : Nat}
    (possible : move.nesting blocks.length = some depth) : ∃ event,
      (inBlocks registry blocks).step move = some (inBlocks registry (event.record blocks), event) ∧
      (event.record blocks).length = depth := by
  cases move with
  | enter =>
      cases possible
      exact ⟨.entered, enter_inBlocks blocks, rfl⟩
  | leave =>
      cases blocks with
      | nil => cases possible
      | cons pairs outer =>
          cases possible
          exact ⟨.left, leave_inBlocks pairs outer, rfl⟩
  | perform operation =>
      cases operation with
      | restore description =>
          obtain rfl : blocks.length = depth := by
            simpa [Move.nesting, Operation.isRestore] using possible
          refine ⟨.restored (Model.restoreIn description (inBlocks registry blocks).context).1, ?_,
            rfl⟩
          simp only [step, perform, Model.context_of_restoreIn]
          rfl
      | look lookup =>
          cases blocks with
          | nil => cases possible
          | cons pairs outer =>
              cases possible
              exact ⟨.answered (lookup.answer ⟨pairs⟩), look_inBlocks pairs outer lookup, rfl⟩
      | register stored new =>
          cases blocks with
          | nil => cases possible
          | cons pairs outer =>
              cases possible
              exact register_inBlocks pairs outer stored new

/-- Possible moves lead to the blocks that their events tell of. -/
theorem run_inBlocks (registry : Option Registry) {blocks : List Pairs} {moves : List Move}
    {depth : Nat} (possible : moves.foldlM Move.nesting blocks.length = some depth) : ∃ events,
      (inBlocks registry blocks).run moves =
        some (inBlocks registry (events.foldl Event.record blocks), events) ∧
      (events.foldl Event.record blocks).length = depth := by
  induction moves generalizing blocks with
  | nil =>
      cases possible
      exact ⟨[], rfl, rfl⟩
  | cons move rest ih =>
      rw [List.foldlM_cons, Option.bind_eq_bind, Option.bind_eq_some_iff] at possible
      obtain ⟨between, first, later⟩ := possible
      obtain ⟨event, stepped, rfl⟩ := step_inBlocks registry first
      obtain ⟨events, ran, length⟩ := ih later
      exact ⟨event :: events, by simp [run, stepped, ran], length⟩

/-- How a run stands in blocks in which the given pairs were accepted, innermost first. -/
structure Disciplined (session : Session) (blocks : List Pairs) : Prop where
  /-- As many scopes are open as blocks. -/
  depth : session.context.depth = blocks.length
  /-- Each open frame holds what was accepted in its own block. -/
  frames : session.context.frames.reverse = blocks.map Frame.mk
  /-- The depth that a scope knows leads to the frame of its own block. -/
  scopes : List.Forall₂ (fun depth pairs => 0 < depth ∧ depth ≤ session.context.depth ∧
    (Scope.mk session.context depth).frame = ⟨pairs⟩) session.depths blocks
  /-- The innermost scope has the last frame, and takes this one away when it is closed. -/
  innermost : blocks ≠ [] → ∃ scope, session.scope? = some scope ∧ scope.IsInnermost ∧
    session.context.current? = some scope.frame
  /-- So does the scope that restoring a model opens, whatever is registered in it. -/
  restoring : ∀ nodes, ∃ scope,
    (Model.registerNodes session.context.openScope .empty nodes).2 = scope ∧
      scope.depth = blocks.length + 1 ∧ scope.IsInnermost

theorem scopes_countdown (registry : Option Registry) (blocks : List Pairs) (inner : List Frame) :
    List.Forall₂ (fun depth pairs => 0 < depth ∧ depth ≤ blocks.length ∧
      (Scope.mk ⟨registry, (blocks.map Frame.mk).reverse ++ inner⟩ depth).frame = ⟨pairs⟩)
      (countdown blocks.length) blocks := by
  induction blocks generalizing inner with
  | nil => exact .nil
  | cons pairs outer ih =>
      refine .cons ⟨Nat.succ_pos _, Nat.le_refl _, ?_⟩ ?_
      · simp [Scope.frame]
      · refine (ih (⟨pairs⟩ :: inner)).imp ?_
        rintro depth other ⟨positive, small, frame⟩
        exact ⟨positive, Nat.le_succ_of_le small, by simpa using frame⟩

theorem disciplined_inBlocks (blocks : List Pairs) :
    (inBlocks registry blocks).Disciplined blocks where
  depth := by simp [inBlocks, Context.depth]
  frames := by simp [inBlocks]
  scopes := by
    have frames := scopes_countdown registry blocks []
    simpa [inBlocks, Context.depth] using frames
  innermost := by
    intro inside
    cases blocks with
    | nil => exact absurd rfl inside
    | cons pairs outer =>
        refine ⟨_, scope?_inBlocks pairs outer, Scope.isInnermost_setFrame_openScope _ _, ?_⟩
        simp [inBlocks, Context.current?]
  restoring := by
    intro nodes
    obtain ⟨frame, scope⟩ := Model.exists_frame_of_registerNodes
      (inBlocks registry blocks).context .empty .empty nodes
    rw [← Scope.openScope_eq_setFrame] at scope
    refine ⟨_, scope, ?_, Scope.isInnermost_setFrame_openScope _ frame⟩
    simp [Scope.setFrame, Context.openScope, inBlocks, Context.depth]

/-- A program can be run on a fresh context. Wherever the run stands, the frames and scopes are
    those of the blocks that the moves so far have entered and not left. -/
theorem disciplined_of_program (registry : Option Registry) (program : Program)
    {done rest : List Move} (point : program.moves = done ++ rest) : ∃ session events,
      (start registry).run done = some (session, events) ∧
      done.foldlM Move.nesting 0 = some (openBlocks events).length ∧
      session.Disciplined (openBlocks events) := by
  have balanced := program.nesting_moves
  rw [point, List.foldlM_append, Option.bind_eq_bind, Option.bind_eq_some_iff] at balanced
  obtain ⟨depth, possible, -⟩ := balanced
  have outside : done.foldlM Move.nesting ([] : List Pairs).length = some depth := possible
  obtain ⟨events, ran, length⟩ := run_inBlocks registry outside
  exact ⟨_, events, ran, by rw [possible, openBlocks, length], disciplined_inBlocks _⟩

end Session

/-- In a block a pair is accepted, and in a block within it two of the same stored id are offered.
    A model is restored in the inner block and one outside of both. -/
def Program.sample : Program where
  actions :=
    [.block
      [.perform (.register ⟨5⟩ ⟨0⟩),
       .block
        [.perform (.register ⟨5⟩ ⟨7⟩), .perform (.register ⟨5⟩ ⟨8⟩), .perform (.restore .crossed)],
       .perform (.look (.forward ⟨5⟩))],
     .perform (.restore .crossed)]
  outside := by simp [Operation.isRestore]

namespace Session

/-- The sample at the end of its inner block. -/
theorem disciplined_of_program_inner :
    Program.sample.moves = Program.sample.moves.take 6 ++ Program.sample.moves.drop 6 ∧
    ∃ session events,
      (start none).run (Program.sample.moves.take 6) = some (session, events) ∧
      (Program.sample.moves.take 6).foldlM Move.nesting 0 = some (openBlocks events).length ∧
      session.Disciplined (openBlocks events) :=
  ⟨rfl, disciplined_of_program none .sample rfl⟩

/-- Each block of the sample has its own pair of the one stored id. -/
example : ((start none).run (Program.sample.moves.take 6)).map (fun ran => openBlocks ran.2) =
    some [[(⟨5⟩, ⟨7⟩)], [(⟨5⟩, ⟨0⟩)]] := by
  decide +kernel

end Session

end Dataflow

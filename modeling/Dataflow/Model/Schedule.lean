import Dataflow.Model

/-! # Schedules

The order in which the nodes of a model can be evaluated: every node after its parents. A traversal
works on a stack of ids. An id on top whose parents have all been produced is produced next;
otherwise its missing parents go on top of it, the first one uppermost.

With outputs given, the stack starts with them, the last one uppermost, and only they and their
ancestors are produced. Without outputs the whole model is produced: the dependents of a node go on
the stack when it is produced, and an empty stack is seeded with a sink that can be reached from
the first node in storage order that is still missing.
-/

namespace Dataflow

/-- A traversal under way. -/
structure Traversal where
  model : Model
  /-- The ids to look at, the uppermost first. -/
  stack : List NodeId
  /-- The ids that have been produced, the latest first. -/
  visited : List NodeId
  /-- Whether the whole model is to be produced. -/
  full : Bool
  /-- All nodes stored before this position have been produced. -/
  cursor : Nat

namespace Model

/-- The sink reached from a node by following the first dependent of each node, in at most so many
    links. -/
def followToSink (model : Model) : (links : Nat) → Node → NodeId
  | 0, node => node.id
  | links + 1, node =>
    match node.dependents.head?.bind model.get? with
    | some dependent => followToSink model links dependent
    | none => node.id

/-- The sink reached from a node by following first dependents. No path has more links than the
    model has nodes. -/
def sinkFrom (model : Model) (node : Node) : NodeId := model.followToSink model.size node

end Model

namespace Traversal

/-- The traversal of the outputs and their ancestors, or of the whole model if there are no
    outputs. -/
def start (model : Model) (outputs : List NodeId) : Traversal where
  model := model
  stack := outputs.reverse
  visited := []
  full := outputs.isEmpty && !model.isEmpty
  cursor := 0

/-- Whether all parents of a node have been produced. -/
def isReady (traversal : Traversal) (node : Node) : Bool :=
  node.parents.all (· ∈ traversal.visited)

/-- Puts a sink on the stack that can be reached from the first node in storage order that is still
    missing, if one is. -/
def reseed? (traversal : Traversal) : Option Traversal :=
  let passed := (traversal.model.nodes.drop traversal.cursor).takeWhile (·.id ∈ traversal.visited)
  let cursor := traversal.cursor + passed.length
  (traversal.model.nodes[cursor]?).map fun node =>
    { traversal with cursor, stack := traversal.model.sinkFrom node :: traversal.stack }

/-- What one step of a traversal comes to. -/
inductive Step where
  | finished
  | moved (traversal : Traversal)
  | produced (node : Node) (traversal : Traversal)

/-- One step: an empty stack is reseeded; an id that has been produced or is unknown is dropped; a
    node that is ready is produced; and on top of any other node go its missing parents. -/
def step (traversal : Traversal) : Step :=
  match traversal.stack with
  | [] =>
    if traversal.full then
      match traversal.reseed? with
      | some seeded => .moved seeded
      | none => .finished
    else .finished
  | top :: below =>
    if top ∈ traversal.visited then .moved { traversal with stack := below }
    else
      match traversal.model.get? top with
      | none => .moved { traversal with stack := below }
      | some node =>
        if traversal.isReady node then
          .produced node
            { traversal with
              stack := if traversal.full then node.dependents ++ below else below
              visited := top :: traversal.visited }
        else
          .moved { traversal with
            stack := node.parents.filter (· ∉ traversal.visited) ++ traversal.stack }

/-- The next node within at most so many steps. -/
def seek : (steps : Nat) → Traversal → Option (Node × Traversal)
  | 0, _ => none
  | steps + 1, traversal =>
    match traversal.step with
    | .finished => none
    | .moved traversal => seek steps traversal
    | .produced node traversal => some (node, traversal)

/-- Enough steps for one more node: each id on the stack may be dropped, an empty stack seeded once,
    and after that each further node looked at is an ancestor of the one before. -/
def stepBound (traversal : Traversal) : Nat :=
  traversal.stack.length + traversal.model.size + 2

/-- The next node of the traversal and the traversal after it. -/
def next (traversal : Traversal) : Option (Node × Traversal) :=
  seek traversal.stepBound traversal

/-- What is left of a traversal whose loop of steps has come to its end. If the whole model was to
    be produced, no node is missing, and none is looked at again. -/
def exhausted (traversal : Traversal) : Traversal :=
  if traversal.full then { traversal with cursor := traversal.model.size } else traversal

/-- Asking for the next node within at most so many steps: the node, if there is one, and in either
    case the traversal that is left. -/
def askWithin : (steps : Nat) → Traversal → Option Node × Traversal
  | 0, traversal => (none, traversal)
  | steps + 1, traversal =>
    match traversal.step with
    | .finished => (none, traversal.exhausted)
    | .moved traversal => askWithin steps traversal
    | .produced node traversal => (some node, traversal)

/-- Asking for the next node. A traversal that has none is changed by that as well: what was on its
    stack has been dropped. -/
def ask (traversal : Traversal) : Option Node × Traversal := traversal.askWithin traversal.stepBound

/-- What is left of a traversal that has been asked so many times, whether it had nodes or not. -/
def asked : (count : Nat) → Traversal → Traversal
  | 0, traversal => traversal
  | count + 1, traversal => asked count traversal.ask.2

/-- How many nodes are still to come, at least and at most. -/
def sizeHint (traversal : Traversal) : Nat × Nat :=
  let remaining := traversal.model.size - traversal.visited.length
  (if traversal.full then remaining else 0, remaining)

/-- The next nodes, at most so many. -/
def take : (count : Nat) → Traversal → List Node
  | 0, _ => []
  | count + 1, traversal =>
    match traversal.next with
    | none => []
    | some (node, traversal) => node :: take count traversal

/-- All nodes still to come. No node comes twice, so they are no more than the model has. -/
def toList (traversal : Traversal) : List Node := traversal.take traversal.model.size

end Traversal

namespace Model

/-- The traversal of the given outputs, which must all be in the model. -/
def traversal (model : Model) (outputs : List NodeId) : Except ModelError Traversal :=
  match outputs.find? fun id => !model.contains id with
  | some missing => .error (.unknownNode missing)
  | none => .ok (.start model outputs)

/-- The nodes needed for the given outputs, each after its parents; all nodes if no output is
    given. -/
def activeNodes (model : Model) (outputs : List NodeId) : Except ModelError (List NodeId) := do
  .ok ((← model.traversal outputs).toList.map Node.id)

/-- All nodes, each after its parents. -/
def schedule (model : Model) : List Node := (Traversal.start model []).toList

end Model

end Dataflow

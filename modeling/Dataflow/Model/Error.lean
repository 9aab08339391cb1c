import Dataflow.Node
import Dataflow.Schema.Violation

/-! # What can go wrong with a model -/

namespace Dataflow

/-- Why a model cannot be changed, traversed or restored as asked. -/
inductive ModelError where
  /-- An id that no node of the model has. -/
  | unknownNode (id : NodeId)
  /-- Two described nodes have one id. -/
  | duplicateNode (id : NodeId)
  /-- A described node names a parent that is not described. -/
  | danglingReference (node parent : NodeId)
  /-- The parents form a cycle; `remaining` nodes cannot be put in order. -/
  | cyclicGraph (remaining : Nat)
  /-- A kind that the registry does not hold. -/
  | unknownKind (kind : String)
  deriving DecidableEq, Repr

namespace ModelError

def message : ModelError → String
  | unknownNode id => "node " ++ id.text ++ " is not part of the model"
  | duplicateNode id =>
    "node " ++ id.text ++ " appears more than once in the model description"
  | danglingReference node parent =>
    "node " ++ node.text ++ " references parent " ++ parent.text ++ ", which was never registered"
  | cyclicGraph remaining =>
    "model description contains a dependency cycle (" ++
      String.ofList (decimalDigits remaining) ++ " nodes unordered)"
  | unknownKind kind => "unknown node kind " ++ backquoted kind

end ModelError

end Dataflow

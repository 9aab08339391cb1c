import Dataflow.Model.Error

/-! # Models

A model is a list of nodes in the order of their ids: the node at position `k` has id `k`. Nodes are
only ever added, and a new node may only read from nodes that are there already.
-/

namespace Dataflow

/-- The nodes of a model in storage order, and the id that the next one gets. -/
structure Model where
  nodes : List Node
  nextId : UInt64

/-- What a node to be added is made of. -/
structure Blueprint where
  kind : String
  inputs : List Input
  attributes : Attributes

namespace Blueprint

/-- A node of the given kind without inputs and attributes. -/
def ofKind (kind : String) : Blueprint := ⟨kind, [], .empty⟩

/-- Adds an input after those there are. -/
def withInput (blueprint : Blueprint) (name : String) (parents : List NodeId) : Blueprint :=
  { blueprint with inputs := blueprint.inputs ++ [⟨name, parents⟩] }

def withAttribute (blueprint : Blueprint) (name : String) (value : Value) : Blueprint :=
  { blueprint with attributes := blueprint.attributes.insert name value }

end Blueprint

namespace Model

def empty : Model := ⟨[], 0⟩

instance : Inhabited Model := ⟨empty⟩

def get? (model : Model) (id : NodeId) : Option Node := model.nodes[id.position]?

def contains (model : Model) (id : NodeId) : Bool := (model.get? id).isSome

def size (model : Model) : Nat := model.nodes.length

def isEmpty (model : Model) : Bool := model.nodes.isEmpty

def sinks (model : Model) : List Node := model.nodes.filter Node.isSink

/-- The parents of a node as nodes, in the order of their first occurrence, each once. -/
def parentsOf? (model : Model) (id : NodeId) : Option (List Node) :=
  (model.get? id).map fun node => node.distinctParents.filterMap model.get?

/-- Makes a node a dependent of each of the given parents. -/
def link (model : Model) (id : NodeId) (parents : List NodeId) : Model :=
  { model with
    nodes := parents.foldl (fun nodes parent => nodes.modify parent.position (·.addDependent id))
      model.nodes }

/-- Appends a node of the next id that nothing reads from yet. Its parents do not learn of it. -/
def append (model : Model) (kind : String) (inputs : List Input) (attributes : Attributes) :
    Model where
  nodes := model.nodes ++ [⟨⟨model.nextId⟩, kind, inputs, [], attributes⟩]
  nextId := model.nextId + 1

/-- Adds a node whose parents are all there, and gives its id. -/
def add (model : Model) (blueprint : Blueprint) : Except ModelError (NodeId × Model) :=
  let parents := Input.allParents blueprint.inputs
  match parents.find? fun parent => !model.contains parent with
  | some missing => .error (.unknownNode missing)
  | none =>
    let id : NodeId := ⟨model.nextId⟩
    .ok (id, (model.link id (NodeId.distinct parents)).append
      blueprint.kind blueprint.inputs blueprint.attributes)

end Model

end Dataflow

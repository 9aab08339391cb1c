import Dataflow.Model.Schedule
import Dataflow.Schema

/-! # Descriptions

A description is what is stored of a model: its nodes without their dependents, which follow from
the inputs. It lists nodes in the order in which they can be evaluated, but may be read in any order
and with any ids.
-/

namespace Dataflow

/-- What is stored of a node. -/
structure NodeDescription where
  id : NodeId
  kind : String
  inputs : List Input
  attributes : Attributes

structure ModelDescription where
  nodes : List NodeDescription

namespace NodeDescription

def ofNode (node : Node) : NodeDescription where
  id := node.id
  kind := node.kind
  inputs := node.inputs
  attributes := node.attributes

/-- Equality with attributes compared as numbers go. -/
def same (a b : NodeDescription) : Bool :=
  a.id == b.id && a.kind == b.kind && a.inputs == b.inputs && a.attributes.same b.attributes

end NodeDescription

namespace ModelDescription

def size (description : ModelDescription) : Nat := description.nodes.length

def isEmpty (description : ModelDescription) : Bool := description.nodes.isEmpty

/-- Equality, node by node, with attributes compared as numbers go. -/
def same (a b : ModelDescription) : Bool :=
  a.nodes.length == b.nodes.length &&
    (a.nodes.zip b.nodes).all fun (x, y) => x.same y

end ModelDescription

/-- The description of a model: its nodes in the order of its schedule. -/
def Model.describe (model : Model) : ModelDescription where
  nodes := model.schedule.map .ofNode

variable {R : Type → Type} [Readers R]

/-- An id is written as its number. -/
instance : Document NodeId where
  reader := Readers.map NodeId.mk Readers.unsigned
  toValue id := .int (.ofUInt64 id.raw)

structure InputDraft where
  name : Option String := none
  parents : Option (List NodeId) := none

/-- The input of a draft. Without parents it has none. -/
def InputDraft.finish (draft : InputDraft) : Except String Input :=
  match draft.name with
  | none => .error "name"
  | some name => .ok ⟨name, draft.parents.getD []⟩

def inputRecord : Record R InputDraft Input where
  name := "InputPort"
  fields :=
    [⟨"name", (·.name.isSome),
      Readers.map (fun name draft => { draft with name := some name }) Readers.text⟩,
     ⟨"parents", (·.parents.isSome),
      Readers.map (fun parents draft => { draft with parents := some parents })
        (Readers.list Document.reader)⟩]
  blank := {}
  finish := InputDraft.finish

instance : Document Input where
  reader := Readers.record inputRecord
  toValue input := .object
    [("name", .string input.name), ("parents", .array (input.parents.map Document.toValue))]

structure NodeDraft where
  id : Option NodeId := none
  kind : Option String := none
  inputs : Option (List Input) := none
  attributes : Option Attributes := none

/-- The description of a draft. Without inputs or attributes it has none. -/
def NodeDraft.finish (draft : NodeDraft) : Except String NodeDescription :=
  match draft.id, draft.kind with
  | none, _ => .error "id"
  | some _, none => .error "kind"
  | some id, some kind => .ok ⟨id, kind, draft.inputs.getD [], draft.attributes.getD .empty⟩

def nodeRecord : Record R NodeDraft NodeDescription where
  name := "NodeDescription"
  fields :=
    [⟨"id", (·.id.isSome),
      Readers.map (fun id draft => { draft with id := some id }) Document.reader⟩,
     ⟨"kind", (·.kind.isSome),
      Readers.map (fun kind draft => { draft with kind := some kind }) Readers.text⟩,
     ⟨"inputs", (·.inputs.isSome),
      Readers.map (fun inputs draft => { draft with inputs := some inputs })
        (Readers.list Document.reader)⟩,
     ⟨"attributes", (·.attributes.isSome),
      Readers.map (fun attributes draft => { draft with attributes := some attributes })
        Readers.attributes⟩]
  blank := {}
  finish := NodeDraft.finish

instance : Document NodeDescription where
  reader := Readers.record nodeRecord
  toValue node := .object
    [("id", Document.toValue node.id), ("kind", .string node.kind),
     ("inputs", .array (node.inputs.map Document.toValue)),
     ("attributes", node.attributes.toValue)]

structure ModelDraft where
  nodes : Option (List NodeDescription) := none

def ModelDraft.finish (draft : ModelDraft) : Except String ModelDescription :=
  match draft.nodes with
  | none => .error "nodes"
  | some nodes => .ok ⟨nodes⟩

def modelRecord : Record R ModelDraft ModelDescription where
  name := "ModelDescription"
  fields :=
    [⟨"nodes", (·.nodes.isSome),
      Readers.map (fun nodes draft => { draft with nodes := some nodes })
        (Readers.list Document.reader)⟩]
  blank := {}
  finish := ModelDraft.finish

instance : Document ModelDescription where
  reader := Readers.record modelRecord
  toValue description := .object
    [("nodes", .array (description.nodes.map Document.toValue))]

end Dataflow

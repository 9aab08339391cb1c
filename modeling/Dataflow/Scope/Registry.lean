/-! # Registries of node kinds -/

namespace Dataflow

/-- The known kinds of nodes, in the order in which they were registered, each once. -/
structure Registry where
  kinds : List String
  deriving DecidableEq, Repr

namespace Registry

def empty : Registry := ⟨[]⟩

def contains (registry : Registry) (kind : String) : Bool := registry.kinds.contains kind

/-- The registry with a kind added after the others, unless it is there already. -/
def insert (registry : Registry) (kind : String) : Registry :=
  if registry.contains kind then registry else ⟨registry.kinds ++ [kind]⟩

def ofList (kinds : List String) : Registry := kinds.foldl insert empty

def size (registry : Registry) : Nat := registry.kinds.length

def isEmpty (registry : Registry) : Bool := registry.kinds.isEmpty

end Registry

end Dataflow

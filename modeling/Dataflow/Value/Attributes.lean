import Dataflow.Value.Normal

/-! # Attributes

The named values attached to a node.
-/

namespace Dataflow

/-- Named values in normal form: ascending names, each once. -/
structure Attributes where
  entries : List (String × Value)
  normal : Value.NormalMembers entries

namespace Attributes

def empty : Attributes := ⟨[], trivial⟩

instance : Inhabited Attributes := ⟨empty⟩

/-- Sets an attribute; a value it had before is lost. -/
def insert (attributes : Attributes) (name : String) (value : Value) : Attributes where
  entries := Value.insertMember name value.normalize attributes.entries
  normal := Value.normalMembers_insertMember value.isNormal_normalize attributes.normal

def get? (attributes : Attributes) (name : String) : Option Value :=
  attributes.entries.lookup name

/-- Sets attributes one after the other, so that the last value of a repeated name stays. -/
def ofMembers (members : List (String × Value)) : Attributes where
  entries := Value.normalizeMembers [] members
  normal := Value.normalMembers_normalizeMembers members trivial

def toValue (attributes : Attributes) : Value := .object attributes.entries

/-- The same names with the same values, as numbers go. -/
def same (a b : Attributes) : Bool := Value.sameMembers a.entries b.entries

end Attributes

end Dataflow

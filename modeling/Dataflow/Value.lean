import Dataflow.Number.Integer
import Dataflow.Number.Double

/-! # Document values

The tree that a document spells, whatever format it is written in.
-/

namespace Dataflow

/-- A document value. Members of an object keep their order and may repeat a key. -/
inductive Value where
  | null
  | bool (b : Bool)
  | int (n : Integer)
  | double (d : Double)
  | string (text : String)
  | array (items : List Value)
  | object (members : List (String × Value))
  deriving Repr, Inhabited

namespace Value

mutual

/-- How many arrays and objects stand inside one another: none in a scalar, and in an array or
    object one more than in its deepest content. -/
def nesting : Value → Nat
  | array items => nestingItems items + 1
  | object members => nestingMembers members + 1
  | _ => 0

/-- The deepest nesting among items. -/
def nestingItems : List Value → Nat
  | [] => 0
  | item :: rest => max item.nesting (nestingItems rest)

/-- The deepest nesting among the values of members. -/
def nestingMembers : List (String × Value) → Nat
  | [] => 0
  | (_, value) :: rest => max value.nesting (nestingMembers rest)

end

mutual

/-- Equality as numbers go: an integer never equals a double, and the two zeros among the doubles
    are equal. -/
def same : Value → Value → Bool
  | null, null => true
  | bool a, bool b => a == b
  | int a, int b => a == b
  | double a, double b => a.same b
  | string a, string b => a == b
  | array a, array b => sameItems a b
  | object a, object b => sameMembers a b
  | _, _ => false

/-- `Value.same`, item by item. -/
def sameItems : List Value → List Value → Bool
  | [], [] => true
  | a :: as, b :: bs => a.same b && sameItems as bs
  | _, _ => false

/-- `Value.same`, member by member, with equal keys. -/
def sameMembers : List (String × Value) → List (String × Value) → Bool
  | [], [] => true
  | (key, a) :: as, (key', b) :: bs => key == key' && a.same b && sameMembers as bs
  | _, _ => false

end

end Value

end Dataflow

import Dataflow.Json.Error
import Dataflow.Schema

/-! # Formats -/

namespace Dataflow

/-- The formats that a model can be stored in. -/
inductive Format where
  | json
  | messagePack
  deriving DecidableEq, Repr

namespace Format

instance : Inhabited Format := ⟨json⟩

def text : Format → String
  | json => "json"
  | messagePack => "msgpack"

/-- The format of a name, in which the case of ASCII letters does not matter. The error is the name
    in lower case. -/
def ofString? (name : String) : Except String Format :=
  let lower := name.map Char.toLower
  if lower = "json" then .ok json
  else if lower = "msgpack" ∨ lower = "messagepack" then .ok messagePack
  else .error lower

/-- The words for a name that no format has. -/
def unknownMessage (name : String) : String := "unknown model format " ++ backquoted name

def names : List (String × Format) := [(json.text, json), (messagePack.text, messagePack)]

instance : Document Format where
  reader := Readers.choice names
  toValue format := .string format.text

end Format

end Dataflow

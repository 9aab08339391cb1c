import Dataflow.Format
import Dataflow.Json.Reader
import Dataflow.Json.Writer
import Dataflow.MessagePack.Reader
import Dataflow.MessagePack.Writer
import Dataflow.Model.Restore

/-! # Storing models

A model is saved as the document of its description, and loaded by reading that document and
restoring the model from it.
-/

namespace Dataflow

/-- Why a stored document cannot be read. -/
inductive DecodeError where
  | json (error : Json.Error)
  | messagePack (error : MessagePack.Error)
  deriving DecidableEq, Repr

/-- Why a stored model cannot be loaded. -/
inductive LoadError where
  | decode (error : DecodeError)
  | model (error : ModelError)
  deriving DecidableEq, Repr

def DecodeError.message : DecodeError → String
  | json error => "JSON error: " ++ error.message
  | messagePack error => "MessagePack decode error: " ++ error.message

def LoadError.message : LoadError → String
  | decode error => error.message
  | model error => error.message

namespace Format

def encode {α : Type} [Document α] : Format → α → Bytes
  | json => Json.encode
  | messagePack => MessagePack.encode

def decode {α : Type} [Document α] : Format → Bytes → Except DecodeError α
  | json, bytes => (Json.decode bytes).mapError .json
  | messagePack, bytes => (MessagePack.decode bytes).mapError .messagePack

end Format

namespace Model

def save (model : Model) (format : Format) : Bytes := format.encode model.describe

/-- The model that is stored as the given bytes. -/
def load (bytes : Bytes) (format : Format) : Except LoadError Model := do
  let description ← (format.decode bytes).mapError .decode
  (restore description).mapError .model

end Model

end Dataflow

import Dataflow.Value.Attributes
import Dataflow.Schema.Violation

/-! # Schemas

What a document has to look like is said once, for every format. A format provides the readers of
`Readers`, and a schema is a term over them. A record is read into a draft that remembers which of
its fields have been seen; at its end the draft either lacks a field or gives the record.
-/

namespace Dataflow

/-- A field of a record whose draft has type `δ`. -/
structure Field (R : Type → Type) (δ : Type) where
  name : String
  isSet : δ → Bool
  /-- Reads the field and gives the change it makes to the draft. -/
  reader : R (δ → δ)

/-- A record: its fields in order, a draft without any, and the record that a draft amounts to, or
    the name of the first field that it lacks. -/
structure Record (R : Type → Type) (δ α : Type) where
  name : String
  fields : List (Field R δ)
  blank : δ
  finish : δ → Except String α

namespace Record

variable {R : Type → Type} {δ α : Type}

/-- What the reader of the record asks for. -/
def expected (record : Record R δ α) : Expected := .record record.name

/-- The end of a record written with field names. -/
def ofNamed (record : Record R δ α) (draft : δ) : Except Violation α :=
  (record.finish draft).mapError .missingField

/-- The end of a record written as the list of its fields. The length that is reported as too small
    is the position of the first field that is missing. -/
def ofItems (record : Record R δ α) (draft : δ) : Except Violation α :=
  (record.finish draft).mapError fun name =>
    .wrongLength (record.fields.findIdx (·.name == name))
      (.recordItems record.name record.fields.length)

end Record

/-- The readers that a format provides, `R α` being its readers of `α`. -/
class Readers (R : Type → Type) where
  map {α β : Type} : (α → β) → R α → R β
  unsigned : R UInt64
  text : R String
  attributes : R Attributes
  list {α : Type} : R α → R (List α)
  record {δ α : Type} : Record R δ α → R α
  choice {α : Type} : List (String × α) → R α

/-- A type with a place in documents: how every format reads it, and the value it is written as. -/
class Document (α : Type) where
  reader {R : Type → Type} [Readers R] : R α
  toValue : α → Value

end Dataflow

import Dataflow.Proofs.Json.Yielding
import Dataflow.Proofs.MessagePack.Yielding
import Dataflow.Proofs.Storing

/-! # Saving what has been read

A document may be spelled in many ways, and parts of it that are skipped may be longer or nest
deeper than anything that is kept. What is kept never exceeds what the format can carry. Main
statement: a description that has been decoded can be encoded in the same format and decoded again.
-/

namespace Dataflow.Format

variable {format : Format} {bytes : Bytes} {description : ModelDescription}

/-- A decoded description nests within the levels of the reader. -/
theorem nestsWithin_of_decode (decoded : format.decode bytes = .ok description) :
    description.NestsWithin format.attributeLevels := by
  cases format with
  | json => exact Json.nestsWithin_of_decode (Except.mapError_eq_ok_iff.1 decoded)
  | messagePack => exact MessagePack.nestsWithin_of_decode (Except.mapError_eq_ok_iff.1 decoded)

/-- The lengths in a decoded description fit the markers of MessagePack, if it was read in that
    format. JSON has no markers, but prints doubles. -/
theorem carries_of_decode (decoded : format.decode bytes = .ok description)
    (readsBack : format = json → ∀ d ∈ (Document.toValue description).doubles, Json.ReadsBack d) :
    format.Carries description := by
  cases format with
  | json => exact readsBack rfl
  | messagePack => exact MessagePack.sized_of_decode (Except.mapError_eq_ok_iff.1 decoded)

/-- However the document was spelled from which a description was decoded, the description is
    decoded again from what it is encoded as. In JSON this takes doubles whose text is read as
    themselves. -/
theorem decode_encode_of_decode (decoded : format.decode bytes = .ok description)
    (readsBack : format = json → ∀ d ∈ (Document.toValue description).doubles, Json.ReadsBack d) :
    format.decode (format.encode description) = .ok description := by
  have fits := nestsWithin_of_decode decoded
  have read := toOption_decode_encode (carries_of_decode decoded readsBack)
  rw [if_pos fits] at read
  exact Except.toOption_eq_some.1 read

/-- In JSON the model as a list, blanks, an unknown field, an escape, a name given twice, and a
    number that is not read as the nearest double; in MessagePack all records as lists, wide
    markers, a name given twice, a double that is not a number, and a byte too many. -/
theorem decode_encode_of_decode_foreign :
    let above : Double := ⟨false, 0x45a5324e0893434a, by decide⟩
    let text := Bytes.ofString ("[[ \x7b\"x\":2,\"attributes\":\x7b\"a\":1,\"a\":3.28e27\x7d," ++
      "\"kind\":\"\\u006b\",\"id\":7\x7d]]")
    let fromText : ModelDescription :=
      ⟨[⟨⟨7⟩, "k", [], Attributes.empty.insert "a" (.double above)⟩]⟩
    let packed : Bytes :=
      [0x91, 0xdc, 0x00, 0x01, 0x94, 0xd1, 0x00, 0x07, 0xd9, 0x01, 0x6b, 0x90, 0x82, 0xa1, 0x61,
        0x01, 0xa1, 0x61, 0xca, 0x7f, 0xc0, 0x00, 0x00, 0xc1]
    let plain : ModelDescription := ⟨[⟨⟨7⟩, "k", [], Attributes.empty.insert "a" .null⟩]⟩
    (json.decode text = .ok fromText ∧ json.encode fromText ≠ text ∧
      json.decode (json.encode fromText) = .ok fromText) ∧
    ∃ fromPacked : ModelDescription, messagePack.decode packed = .ok fromPacked ∧
      messagePack.encode fromPacked = messagePack.encode plain ∧
      messagePack.encode plain ≠ packed ∧
      messagePack.decode (messagePack.encode plain) = .ok fromPacked := by
  intro above text fromText packed plain
  have decoded : json.decode text = .ok fromText := rfl
  have readsBack : ∀ d ∈ (Document.toValue fromText).doubles, Json.ReadsBack d := by
    decide +kernel
  refine ⟨⟨decoded, by decide +kernel, decode_encode_of_decode decoded fun _ => readsBack⟩, ?_⟩
  -- Descriptions cannot be compared by evaluation, but what they are encoded as can.
  have encoded : (messagePack.decode packed : Except DecodeError ModelDescription).toOption.map
      messagePack.encode = some (messagePack.encode plain) := by decide +kernel
  obtain ⟨fromPacked, found, same⟩ := Option.map_eq_some_iff.1 encoded
  have decoded := Except.toOption_eq_some.1 found
  have again := decode_encode_of_decode decoded nofun
  exact ⟨fromPacked, decoded, same, by decide +kernel, same ▸ again⟩

end Dataflow.Format

import Dataflow.Proofs.Json.Truncating
import Dataflow.Proofs.MessagePack.Truncating
import Dataflow.Proofs.Storing

/-! # Documents that are cut off

Main statement: of a document whose description is read back, no proper part at the start is read,
and the error says that the end comes too early.
-/

namespace Dataflow.Format

/-- The errors of a document that ends too early. -/
def endErrors : Format → List DecodeError
  | json => [.json .endOfText]
  | messagePack => [.messagePack .noMarker, .messagePack .noData]

/-- Wherever a document is cut off, also within a number, an escape or a character, the reader
    notices. -/
theorem exists_endErrors_of_cut (format : Format) {description : ModelDescription}
    (whole : format.decode (format.encode description) = .ok description) {kept rest : Bytes}
    (cut : kept ++ rest = format.encode description) (proper : rest ≠ []) :
    ∃ e ∈ format.endErrors,
      (format.decode kept : Except DecodeError ModelDescription) = .error e := by
  cases format with
  | json =>
      rw [decode, Except.mapError_eq_ok_iff] at whole
      have ended := Json.decode_of_cut whole cut proper
      refine ⟨.json .endOfText, List.mem_singleton_self _, ?_⟩
      rw [decode, ended]
      rfl
  | messagePack =>
      rw [decode, Except.mapError_eq_ok_iff] at whole
      obtain ended | ended := MessagePack.runsOut_of_cut whole cut proper
      · refine ⟨.messagePack .noMarker, List.mem_cons_self, ?_⟩
        rw [decode, ended]
        rfl
      · refine ⟨.messagePack .noData, List.mem_cons_of_mem _ (List.mem_singleton_self _), ?_⟩
        rw [decode, ended]
        rfl

/-- In both formats, after the first of the two bytes of a character. -/
theorem exists_endErrors_of_cut_character :
    let description : ModelDescription :=
      ⟨[⟨⟨7⟩, "é", [], Attributes.empty.insert "rate"
        (.double ⟨false, 0x3fb999999999999a, by decide⟩)⟩]⟩
    ∀ cut ∈ [(json, 27), (messagePack, 20)],
      cut.1.decode (cut.1.encode description) = .ok description ∧
        (cut.1.encode description).drop cut.2 ≠ [] ∧
        ((cut.1.encode description).take cut.2).getLast? = some 0xc3 ∧
        ∃ e ∈ cut.1.endErrors, (cut.1.decode ((cut.1.encode description).take cut.2) :
          Except DecodeError ModelDescription) = .error e := by
  intro description
  have whole (format : Format) (carries : format.Carries description)
      (fits : description.NestsWithin format.attributeLevels) :
      format.decode (format.encode description) = .ok description := by
    rw [← Except.toOption_eq_some, toOption_decode_encode carries, if_pos fits]
  have inJson := whole json (by decide +kernel) (by decide +kernel)
  have inMessagePack := whole messagePack (by decide +kernel) (by decide +kernel)
  have proper : (json.encode description).drop 27 ≠ [] := by decide +kernel
  have proper' : (messagePack.encode description).drop 20 ≠ [] := by decide +kernel
  refine List.forall_mem_cons.2 ⟨⟨inJson, proper, by decide +kernel, ?_⟩,
    List.forall_mem_singleton.2 ⟨inMessagePack, proper', by decide +kernel, ?_⟩⟩
  · exact exists_endErrors_of_cut json inJson (List.take_append_drop _ _) proper
  · exact exists_endErrors_of_cut messagePack inMessagePack (List.take_append_drop _ _) proper'

end Dataflow.Format

import Dataflow.Proofs.Json.RoundTrip
import Dataflow.Proofs.MessagePack.Documents
import Dataflow.Proofs.RoundTrip

/-! # Saving and loading

Saving never fails, but the readers limit how deep a document may nest. Main statement: what is
saved of a model can be loaded exactly if its attributes stay within that limit, and gives the model
back.
-/

namespace Dataflow

/-- The levels of lists and objects that a reader leaves to the values of attributes. -/
def Format.attributeLevels : Format → Nat
  | json => 123
  | messagePack => 1019

/-- Doubles keep their value in JSON, and lengths fit the markers of MessagePack. -/
def Format.Carries (format : Format) (description : ModelDescription) : Prop :=
  match format with
  | json => ∀ d ∈ (Document.toValue description).doubles, Json.ReadsBack d
  | messagePack => MessagePack.Sized (Document.toValue description)

instance (format : Format) (description : ModelDescription) :
    Decidable (format.Carries description) :=
  match format with
  | .json =>
    inferInstanceAs (Decidable (∀ d ∈ (Document.toValue description).doubles, Json.ReadsBack d))
  | .messagePack => inferInstanceAs (Decidable (MessagePack.Sized (Document.toValue description)))

theorem Format.toOption_decode_encode {format : Format} {description : ModelDescription}
    (carries : format.Carries description) :
    (format.decode (format.encode description) : Except DecodeError ModelDescription).toOption =
      if description.NestsWithin format.attributeLevels then some description else none := by
  cases format with
  | json =>
      rw [show attributeLevels json = 123 from rfl, decode, Except.toOption_mapError]
      exact Json.toOption_decode_write Json.Style.isBlank_compact carries
  | messagePack =>
      have read := MessagePack.toOption_decode_encode carries []
      rw [List.append_nil] at read
      rw [show attributeLevels messagePack = 1019 from rfl, decode, Except.toOption_mapError]
      exact read

namespace Model

variable {model : Model}

theorem WellFormed.nestsWithin_describe_iff (wellFormed : model.WellFormed) {levels : Nat} :
    model.describe.NestsWithin levels ↔
      ∀ node ∈ model.nodes, ∀ entry ∈ node.attributes.entries, entry.2.nesting ≤ levels := by
  unfold ModelDescription.NestsWithin
  simp only [wellFormed.describe_perm.mem_iff, List.forall_mem_map]
  rfl

theorem WellFormed.restore_describe_new (wellFormed : model.WellFormed) :
    restore model.describe = .ok model := by
  have accepted : ∀ node ∈ model.nodes, (Context.new none).Accepts node.kind := by
    rintro _ _ _ ⟨⟩
  rw [restore, wellFormed.restore_describe accepted]

theorem WellFormed.load_save (wellFormed : model.WellFormed) {format : Format}
    (carries : format.Carries model.describe) :
    (model.describe.NestsWithin format.attributeLevels →
      load (model.save format) format = .ok model) ∧
    (¬model.describe.NestsWithin format.attributeLevels →
      ∃ e, load (model.save format) format = .error (.decode e)) := by
  have read := Format.toOption_decode_encode carries
  constructor
  · intro fits
    rw [if_pos fits, Except.toOption_eq_some] at read
    exact load_eq_ok_iff.2 ⟨_, read, wellFormed.restore_describe_new⟩
  · intro deep
    rw [if_neg deep] at read
    unfold load save
    cases decoded : (format.decode (format.encode model.describe) :
        Except DecodeError ModelDescription) with
    | error e => exact ⟨e, rfl⟩
    | ok description => simp [decoded] at read

/-- What is saved of a model can be loaded exactly if the values of its attributes stay within the
    levels that the format has for them. It gives the model back, and otherwise an error of the
    reader. -/
theorem Reachable.load_save_eq_ok_iff (reachable : model.Reachable)
    (room : model.size < UInt64.size) (format : Format)
    (carries : format.Carries model.describe) :
    (load (model.save format) format = .ok model ↔
      ∀ node ∈ model.nodes, ∀ entry ∈ node.attributes.entries,
        entry.2.nesting ≤ format.attributeLevels) ∧
    ((¬∀ node ∈ model.nodes, ∀ entry ∈ node.attributes.entries,
        entry.2.nesting ≤ format.attributeLevels) →
      ∃ e, load (model.save format) format = .error (.decode e)) := by
  have wellFormed := reachable.wellFormed room
  obtain ⟨loads, fails⟩ := wellFormed.load_save carries
  rw [wellFormed.nestsWithin_describe_iff] at loads fails
  refine ⟨⟨fun loaded => ?_, loads⟩, fails⟩
  by_contra deep
  obtain ⟨e, failed⟩ := fails deep
  rw [loaded] at failed
  cases failed

/-- A model of one node, whose attribute is null in so many lists. -/
def nested (levels : Nat) : Model :=
  empty.tryAdd ((Blueprint.ofKind "x").withAttribute "a" ((fun v => .array [v])^[levels] .null))

theorem reachable_nested (levels : Nat) : (nested levels).Reachable := .added _ .empty

theorem load_save_eq_ok_iff_nested :
    load ((nested 123).save .json) .json = .ok (nested 123) ∧
      load ((nested 124).save .messagePack) .messagePack = .ok (nested 124) :=
  ⟨((reachable_nested 123).load_save_eq_ok_iff (by decide) .json (by decide +kernel)).1.2
      (by decide +kernel),
    ((reachable_nested 124).load_save_eq_ok_iff (by decide) .messagePack
      (by decide +kernel)).1.2 (by decide +kernel)⟩

/-- One level more than JSON has for attributes, and what is saved cannot be loaded. -/
theorem load_save_nested_error : (nested 124).Reachable ∧
    Format.json.Carries (nested 124).describe ∧
      ∃ e, load ((nested 124).save .json) .json = .error e := by
  have carries : Format.json.Carries (nested 124).describe := by decide +kernel
  have wellFormed := (reachable_nested 124).wellFormed (by decide)
  have deep : ¬(nested 124).describe.NestsWithin Format.json.attributeLevels := by decide +kernel
  obtain ⟨e, failed⟩ := (wellFormed.load_save carries).2 deep
  exact ⟨reachable_nested 124, carries, _, failed⟩

end Model

end Dataflow

import Dataflow.Proofs.Json.Documents
import Dataflow.Proofs.Json.Text

/-! # Descriptions there and back through JSON

Both styles write a text, and reading it gives the description back exactly when no attribute nests
too deep for the levels that are left inside a node.
-/

namespace Dataflow.Json

theorem toOption_decode_write {style : Style} (blank : style.IsBlank)
    {description : ModelDescription}
    (readsBack : ∀ d ∈ (Document.toValue description).doubles, ReadsBack d) :
    (decode (write style 0 (Document.toValue description)) :
      Except Error ModelDescription).toOption =
      if description.NestsWithin 123 then some description else none := by
  have read := toOption_decode (spells_write blank readsBack 0) blank_nil blank_nil
  rwa [List.nil_append, List.append_nil, maxLevels, Reading.run_description] at read

/-- What is written of a description is a text in both styles. It is read back exactly if all
    attributes nest at most 123 levels, and otherwise cannot be read. -/
theorem decode_written (description : ModelDescription)
    (readsBack : ∀ d ∈ (Document.toValue description).doubles, ReadsBack d) (written : Bytes)
    (either : written = encode description ∨ written = encodePretty description) :
    (∃ text, written = Bytes.ofString text) ∧
      (decode written = .ok description ↔ description.NestsWithin 123) ∧
      (¬description.NestsWithin 123 →
        ∃ e, (decode written : Except Error ModelDescription) = .error e) := by
  obtain ⟨style, blank, rfl⟩ :
      ∃ style : Style, style.IsBlank ∧ written = write style 0 (Document.toValue description) := by
    obtain rfl | rfl := either
    · exact ⟨.compact, Style.isBlank_compact, rfl⟩
    · exact ⟨.pretty, Style.isBlank_pretty, rfl⟩
  have read := toOption_decode_write blank readsBack
  refine ⟨isText_write blank _ 0, ?_, fun deep => ?_⟩
  · rw [← Except.toOption_eq_some, read]
    split <;> simp [*]
  · rw [if_neg deep] at read
    cases outcome : (decode _ : Except Error ModelDescription) with
    | error e => exact ⟨e, rfl⟩
    | ok found => simp [outcome] at read

theorem decode_written_sample :
    let tenth : Double := ⟨false, 0x3fb999999999999a, by decide⟩
    let attributes := (Attributes.empty.insert "rate" (.double tenth)).insert
      "say" (.array [.string "\"\\\n\u0001é", .object [], .int ⟨-7, by decide, by decide⟩])
    let description : ModelDescription :=
      ⟨[⟨⟨0xffffffffffffffff⟩, "k\t", [⟨"in", [⟨7⟩, ⟨7⟩]⟩], attributes⟩]⟩
    (∀ d ∈ (Document.toValue description).doubles, ReadsBack d) ∧
      decode (encode description) = .ok description ∧
      decode (encodePretty description) = .ok description := by
  intro tenth attributes description
  have readsBack : ∀ d ∈ (Document.toValue description).doubles, ReadsBack d := by
    decide +kernel
  have fits : description.NestsWithin 123 := by decide +kernel
  exact ⟨readsBack, (decode_written description readsBack _ (.inl rfl)).2.1.2 fits,
    (decode_written description readsBack _ (.inr rfl)).2.1.2 fits⟩

end Dataflow.Json

import Dataflow.Proofs.Json.Noticing
import Dataflow.Proofs.Json.Reading
import Dataflow.Proofs.Json.Yielding

/-! # Texts that are cut off

What is written of a value or a document is read as a whole, and missed when it is cut off. Main
statement: of a description that is written, every proper part at the start ends too early.
-/

namespace Dataflow.Json

variable {α β : Type} {bytes : Bytes} {x : α}

theorem notices_integer (n : Integer) :
    Notices number (Bytes.ofAscii (integerText n.val)) (.int n) := by
  refine notices_number_of_cut (number_integerText n) fun kept rest cut _ => ?_
  obtain ended | ⟨m, read, -⟩ := number_integer_cut cut
  · exact .inl ended
  · exact .inr ⟨_, read⟩

theorem exists_notices_double (d : Double) :
    ∃ n, Notices number (Bytes.ofAscii (numberLayout.text d)) n := by
  obtain ⟨n, read⟩ := number_double d
  exact ⟨n, notices_number_of_cut read fun _ _ cut proper => number_double_cut cut proper⟩

/-- Every number is a value. -/
theorem exists_notices_number {n : Number} (notices : Notices number bytes n)
    (inner : Option (Bytes → Except Error (Value × Bytes))) :
    ∃ v, Notices (valueOver inner) bytes v := by
  cases n with
  | int n =>
      refine ⟨.int n, notices.token (fun _ => rfl) fun _ _ _ _ m _ => .inr ?_⟩
      cases m <;> exact ⟨_, rfl⟩
  | double d =>
      refine ⟨.double d, notices.token (fun _ => rfl) fun _ _ _ _ m _ => .inr ?_⟩
      cases m <;> exact ⟨_, rfl⟩

theorem exists_notices_scalar {v : Value} (scalar : v.nesting = 0)
    (inner : Option (Bytes → Except Error (Value × Bytes))) (level : Nat) :
    ∃ x, Notices (valueOver inner) (write .compact level v) x := by
  cases v with
  | null => exact ⟨.null, Misses.notices (by exact misses_token_null.bind fun _ => rfl)⟩
  | bool b =>
      cases b with
      | true => exact ⟨.bool true, Misses.notices (by exact misses_token_true.bind fun _ => rfl)⟩
      | false => exact ⟨.bool false, Misses.notices (by exact misses_token_false.bind fun _ => rfl)⟩
  | int n => exact exists_notices_number (notices_integer n) inner
  | double d =>
      obtain ⟨n, notices⟩ := exists_notices_double d
      exact exists_notices_number notices inner
  | string s => exact ⟨.string s, Misses.notices (by exact (misses_token_text s).bind fun _ => rfl)⟩
  | array | object => cases scalar

/-- A value that nests within the levels is read, and when it is cut off, the end is reached. -/
theorem exists_notices_value (v : Value) :
    ∀ levels level, v.nesting ≤ levels → ∃ x, Notices (value levels) (write .compact level v) x := by
  induction v using Value.induction with
  | null | bool | int | double | string =>
      intro levels level _
      obtain ⟨inner, same⟩ := exists_valueOver levels
      rw [same]
      exact exists_notices_scalar rfl inner level
  | array items ih =>
      intro levels level fits
      obtain ⟨levels, rfl⟩ := Nat.exists_eq_succ_of_ne_zero (Nat.ne_zero_of_lt fits)
      have fits := Value.nestingItems_le_iff.1 (Nat.le_of_succ_le_succ fits)
      obtain ⟨xs, misses⟩ := misses_list fun item member =>
        ih item member levels (level + 1) (fits item member)
      rw [write_array]
      refine ⟨.array xs, Misses.notices (Misses.opening (fun _ => rfl) ?_)⟩
      exact misses.bind fun _ => rfl
  | object members ih =>
      intro levels level fits
      obtain ⟨levels, rfl⟩ := Nat.exists_eq_succ_of_ne_zero (Nat.ne_zero_of_lt fits)
      have fits := Value.nestingMembers_le_iff.1 (Nat.le_of_succ_le_succ fits)
      obtain ⟨last, runs⟩ := exists_runs_kept (fun entry member =>
        ih entry member levels (level + 1) (fits entry member)) []
      rw [write_object]
      refine ⟨.object last.reverse, Misses.notices (Misses.opening (fun _ => rfl) ?_)⟩
      exact runs.misses.bind fun _ => rfl

section

variable {reader : Reader α} {levels : Nat}

theorem notices_map (f : α → β) (notices : Notices (reader.run levels) bytes x) :
    Notices ((Readers.map f reader : Reader β).run levels) bytes (f x) :=
  notices.map f

theorem misses_text_reader (levels level : Nat) (s : String) :
    Misses ((Readers.text : Reader String).run levels) (write .compact level (.string s)) s := by
  exact (misses_token_text s).bind fun _ => rfl

/-- What is left of a number without a sign has none either. -/
theorem notices_unsigned (levels level : Nat) (n : UInt64) :
    Notices ((Readers.unsigned : Reader UInt64).run levels)
      (write .compact level (.int (.ofUInt64 n))) n := by
  refine (notices_integer (.ofUInt64 n)).token (fun rest => ?_) fun kept rest cut proper m read => ?_
  · simp only [Integer.toUInt64?_ofUInt64]
  · obtain ended | ⟨k, read', positive⟩ := number_integer_cut cut
    · rw [ended] at read
      cases read
    · rw [read'] at read
      cases read
      have positive := positive (Int.natCast_nonneg _)
      simp only [Integer.toUInt64?, if_pos positive]
      exact .inr ⟨_, rfl⟩

theorem exists_misses_attributes {attributes : Attributes}
    (fits : Value.nestingMembers attributes.entries ≤ levels) (level : Nat) :
    ∃ a, Misses ((Readers.attributes : Reader Attributes).run (levels + 1))
      (write .compact level attributes.toValue) a := by
  have fits := Value.nestingMembers_le_iff.1 fits
  obtain ⟨last, runs⟩ := exists_runs_kept (fun entry member =>
    exists_notices_value entry.2 levels (level + 1) (fits entry member)) []
  rw [Attributes.toValue, write_object]
  refine ⟨.ofMembers last.reverse, Misses.opening (fun _ => rfl) ?_⟩
  exact runs.misses.bind fun _ => rfl

theorem exists_misses_list {tree : α → Value} {xs : List α} (level : Nat)
    (each : ∀ x ∈ xs, ∃ y, Notices (reader.run levels) (write .compact (level + 1) (tree x)) y) :
    ∃ ys, Misses ((Readers.list reader : Reader (List α)).run (levels + 1))
      (write .compact level (.array (xs.map tree))) ys := by
  obtain ⟨ys, misses⟩ := misses_list (List.forall_mem_map.2 each)
  rw [write_array]
  exact ⟨ys, Misses.opening (fun _ => rfl) misses⟩

end

section

variable {δ : Type} {r : Record Reader δ α} {levels : Nat} {members : List (String × Value)}

theorem misses_record {draft : δ}
    (runs : Runs (level + 1) (Reader.fieldMember r.fields levels) r.blank members draft)
    (finish : r.finish draft = .ok x) :
    Misses ((Readers.record r : Reader α).run (levels + 1))
      (write .compact level (.object members)) x := by
  rw [write_object]
  refine Misses.opening (fun _ => rfl) ?_
  refine runs.misses.bind fun rest => ?_
  simp only [Record.ofNamed, finish]
  rfl

/-- A field of a record that has not been set before. -/
theorem notices_fieldMember {fields : List (Field Reader δ)} {field : Field Reader δ} {draft : δ}
    {change : δ → δ} {name : String} (found : fields.find? (·.name == name) = some field)
    (unset : field.isSet draft = false) (notices : Notices (field.reader.run levels) bytes change) :
    Notices (Reader.fieldMember fields levels draft name) (0x3a :: bytes) (change draft) := by
  have same : Reader.fieldMember fields levels draft name = fun bytes => colon bytes >>= fun bytes =>
      field.reader.run levels bytes >>= fun read => .ok (read.1 draft, read.2) := by
    funext bytes
    simp only [Reader.fieldMember, found, unset, Bool.false_eq_true, if_false]
  rw [same]
  exact notices.colon fun change => change draft

end

theorem notices_nodeId (levels level : Nat) (id : NodeId) :
    Notices ((Document.reader : Reader NodeId).run levels)
      (write .compact level (Document.toValue id)) id :=
  notices_map NodeId.mk (notices_unsigned levels level id.raw)

theorem exists_misses_input (levels level : Nat) (input : Input) :
    ∃ x, Misses ((Document.reader : Reader Input).run (levels + 2))
      (write .compact level (Document.toValue input)) x := by
  have name := (misses_text_reader (levels + 1) (level + 1) input.name).notices
  obtain ⟨ids, parents⟩ := exists_misses_list (level + 1) fun id (_ : id ∈ input.parents) =>
    ⟨id, notices_nodeId levels (level + 1 + 1) id⟩
  have runs : Runs (level + 1) (Reader.fieldMember inputRecord.fields (levels + 1)) {}
      [("name", .string input.name), ("parents", .array (input.parents.map Document.toValue))]
      ⟨some input.name, some ids⟩ :=
    .cons (notices_fieldMember rfl rfl (by exact notices_map _ name))
      (.cons (notices_fieldMember rfl rfl (by exact notices_map _ parents.notices)) .nil)
  exact ⟨⟨input.name, ids⟩, misses_record runs rfl⟩

theorem exists_misses_node {levels : Nat} (level : Nat) {node : NodeDescription}
    (fits : Value.nestingMembers node.attributes.entries ≤ levels + 2) :
    ∃ x, Misses ((Document.reader : Reader NodeDescription).run (levels + 4))
      (write .compact level (Document.toValue node)) x := by
  have id := notices_nodeId (levels + 3) (level + 1) node.id
  have kind := (misses_text_reader (levels + 3) (level + 1) node.kind).notices
  obtain ⟨inputs, given⟩ := exists_misses_list (level + 1)
    fun input (_ : input ∈ node.inputs) => (exists_misses_input levels (level + 1 + 1) input).imp
      fun _ misses => misses.notices
  obtain ⟨attributes, given'⟩ := exists_misses_attributes fits (level + 1)
  have runs : Runs (level + 1) (Reader.fieldMember nodeRecord.fields (levels + 3)) {}
      [("id", Document.toValue node.id), ("kind", .string node.kind),
        ("inputs", .array (node.inputs.map Document.toValue)),
        ("attributes", node.attributes.toValue)]
      ⟨some node.id, some node.kind, some inputs, some attributes⟩ :=
    .cons (notices_fieldMember rfl rfl (by exact notices_map _ id))
      (.cons (notices_fieldMember rfl rfl (by exact notices_map _ kind))
        (.cons (notices_fieldMember rfl rfl (by exact notices_map _ given.notices))
          (.cons (notices_fieldMember rfl rfl (by exact notices_map _ given'.notices)) .nil)))
  exact ⟨⟨node.id, node.kind, inputs, attributes⟩, misses_record runs rfl⟩

theorem exists_misses_description {levels : Nat} {description : ModelDescription}
    (fits : description.NestsWithin (levels + 2)) :
    ∃ x, Misses ((Document.reader : Reader ModelDescription).run (levels + 6))
      (write .compact 0 (Document.toValue description)) x := by
  have fits := ModelDescription.nestsWithin_iff.1 fits
  obtain ⟨nodes, given⟩ := exists_misses_list 1
    fun node (inside : node ∈ description.nodes) =>
      (exists_misses_node 2 (fits node inside)).imp fun _ misses => misses.notices
  have runs : Runs 1 (Reader.fieldMember modelRecord.fields (levels + 5)) {}
      [("nodes", .array (description.nodes.map Document.toValue))] ⟨some nodes⟩ :=
    .cons (notices_fieldMember rfl rfl (by exact notices_map _ given.notices)) .nil
  exact ⟨⟨nodes⟩, misses_record runs rfl⟩

/-- Of a description that is written, every proper part at the start ends too early. -/
theorem decode_of_cut {description : ModelDescription}
    (whole : decode (encode description) = .ok description) {kept rest : Bytes}
    (cut : kept ++ rest = encode description) (proper : rest ≠ []) :
    (decode kept : Except Error ModelDescription) = .error .endOfText := by
  obtain ⟨x, misses⟩ := exists_misses_description (nestsWithin_of_decode whole)
  have ended : (Document.reader : Reader ModelDescription).run maxLevels kept = .error .endOfText :=
    misses.cut kept rest cut proper
  rw [decode, Reader.runAll, ended]
  rfl

end Dataflow.Json

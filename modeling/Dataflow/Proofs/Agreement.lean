import Dataflow.Proofs.Json.Grammar
import Dataflow.Proofs.MessagePack.Documents
import Dataflow.Storage

/-! # One tree in both formats

A description means the same in both formats, but for one kind of tree: MessagePack takes null for
the empty attributes of a node, and JSON refuses it. Main statement: the two formats decode the same
descriptions from any other tree, and refuse the same trees.
-/

namespace Dataflow

namespace Value

/-- The value is null, given for the attributes of a node. -/
def NodeWithNull (v : Value) : Prop :=
  ∃ id kind inputs, v.Fills ["id", "kind", "inputs", "attributes"] [id, kind, inputs, some .null]

/-- Some node of the tree gives null for its attributes. -/
def SomeNodeWithNull (v : Value) : Prop :=
  ∃ nodes, v.Fills ["nodes"] [some (.array nodes)] ∧ ∃ node ∈ nodes, node.NodeWithNull

variable {v : Value}

theorem givesAttributes_false_iff {attributes : Attributes} :
    v.GivesAttributes false attributes ↔ v.GivesAttributes true attributes ∧ v ≠ .null := by
  constructor
  · rintro (given | nullable)
    · exact ⟨.object given, by simp⟩
    · cases nullable
  · rintro ⟨given | nullable, other⟩
    · exact .object given
    · exact absurd rfl other

theorem givesNode_false_iff {node : NodeDescription} :
    v.GivesNode false node ↔ ¬v.NodeWithNull ∧ v.GivesNode true node := by
  constructor
  · rintro ⟨id, kind, inputs, attributes, fills, given, named, inputs', attributes'⟩
    refine ⟨?_, id, kind, inputs, attributes, fills, given, named, inputs',
      attributes'.imp fun w _ given => (givesAttributes_false_iff.1 given).1⟩
    rintro ⟨_, _, _, fills'⟩
    obtain ⟨-, -, -, rfl⟩ : _ ∧ _ ∧ _ ∧ attributes = some .null := by
      simpa using fills.unique fills'
    exact (givesAttributes_false_iff.1 attributes'.of_some).2 rfl
  · rintro ⟨other, id, kind, inputs, attributes, fills, given, named, inputs', attributes'⟩
    refine ⟨id, kind, inputs, attributes, fills, given, named, inputs', attributes'.imp ?_⟩
    rintro w rfl given
    refine givesAttributes_false_iff.2 ⟨given, ?_⟩
    rintro rfl
    exact other ⟨_, _, _, fills⟩

/-- A tree in which no node has null for attributes describes the same however null is taken. No
    other tree describes anything where null is refused. -/
theorem describes_false_iff {description : ModelDescription} :
    v.Describes false description ↔ v.Describes true description ∧ ¬v.SomeNodeWithNull := by
  have each (nodes : List Value) : List.Forall₂ (GivesNode false) nodes description.nodes ↔
      (∀ node ∈ nodes, ¬node.NodeWithNull) ∧
        List.Forall₂ (GivesNode true) nodes description.nodes := by
    have same : GivesNode false = fun node described =>
        ¬node.NodeWithNull ∧ GivesNode true node described := by
      funext node described
      exact propext givesNode_false_iff
    rw [same, List.forall₂_and_left]
  constructor
  · rintro ⟨_, fills, nodes, rfl, all⟩
    obtain ⟨without, all⟩ := (each nodes).1 all
    refine ⟨⟨_, fills, nodes, rfl, all⟩, ?_⟩
    rintro ⟨nodes', fills', node, member, withNull⟩
    obtain rfl : nodes = nodes' := by simpa using fills.unique fills'
    exact without node member withNull
  · rintro ⟨⟨_, fills, nodes, rfl, all⟩, without⟩
    refine ⟨_, fills, nodes, rfl, (each nodes).2 ⟨fun node member withNull => ?_, all⟩⟩
    exact without ⟨nodes, fills, node, member, withNull⟩

end Value

section

variable {v : Value}

/-- What either format decodes is what the tree describes, with its own view of null. -/
theorem decode_eq_ok_iff_of_tree (shallow : v.nesting ≤ Json.maxLevels)
    (readsBack : ∀ d ∈ v.doubles, Json.ReadsBack d) (sized : MessagePack.Sized v) {text : Bytes}
    (writes : Json.Writes v text) (description : ModelDescription) :
    (Format.json.decode text = .ok description ↔ v.Describes false description) ∧
      (Format.messagePack.decode (MessagePack.write v) = .ok description ↔
        v.Describes true description) := by
  have json := Json.toOption_decode_of_writes readsBack writes
  have messagePack := MessagePack.toOption_decode (MessagePack.spells_write sized) []
  rw [List.append_nil] at messagePack
  have shallow' : v.nesting ≤ MessagePack.maxLevels := shallow.trans (by decide)
  rw [Format.decode, Format.decode, Except.mapError_eq_ok_iff, Except.mapError_eq_ok_iff,
    ← Except.toOption_eq_some, ← Except.toOption_eq_some, json, messagePack]
  exact ⟨Reading.follows_description _ v shallow description,
    Reading.follows_description _ v shallow' description⟩

/-- From the texts of a tree JSON decodes a description exactly if MessagePack decodes it from the
    bytes of the tree and no node of the tree has null for its attributes. -/
theorem decode_json_eq_ok_iff (shallow : v.nesting ≤ Json.maxLevels)
    (readsBack : ∀ d ∈ v.doubles, Json.ReadsBack d) (sized : MessagePack.Sized v) {text : Bytes}
    (writes : Json.Writes v text) (description : ModelDescription) :
    Format.json.decode text = .ok description ↔
      Format.messagePack.decode (MessagePack.write v) = .ok description ∧
        ¬v.SomeNodeWithNull := by
  obtain ⟨json, messagePack⟩ := decode_eq_ok_iff_of_tree shallow readsBack sized writes description
  rw [json, messagePack, Value.describes_false_iff]

end

/-- The tree of a model with one node, which has the value for its attributes. -/
def Value.nodeWith (attributes : Value) : Value :=
  .object [("nodes", .array [.object
    [("id", .int ⟨0, by decide, by decide⟩), ("kind", .string "x"), ("attributes", attributes)]])]

theorem Value.someNodeWithNull_nodeWith_iff {attributes : Value} :
    (nodeWith attributes).SomeNodeWithNull ↔ attributes = .null := by
  let node : Value := .object
    [("id", .int ⟨0, by decide, by decide⟩), ("kind", .string "x"), ("attributes", attributes)]
  have nodes : (nodeWith attributes).Fills ["nodes"] [some (.array [node])] :=
    .of_lookup (by simp) rfl
  have fields : node.Fills ["id", "kind", "inputs", "attributes"]
      [some (.int ⟨0, by decide, by decide⟩), some (.string "x"), none, some attributes] :=
    .of_lookup (by simp) rfl
  constructor
  · rintro ⟨found, fills, inside, member, id, kind, inputs, fills'⟩
    obtain rfl : found = [node] := by simpa using fills.unique nodes
    obtain rfl := List.mem_singleton.1 member
    have same := fields.unique fills'
    simp only [List.cons.injEq, Option.some.injEq] at same
    exact same.2.2.2.1
  · rintro rfl
    exact ⟨[node], nodes, node, List.mem_singleton_self node, _, _, _, fields⟩

theorem decode_json_eq_ok_iff_null_inside :
    let v : Value := .nodeWith (.object [("a", .null)])
    let description : ModelDescription :=
      ⟨[⟨⟨0⟩, "x", [], Attributes.empty.insert "a" .null⟩]⟩
    v.nesting ≤ Json.maxLevels ∧ (∀ d ∈ v.doubles, Json.ReadsBack d) ∧ MessagePack.Sized v ∧
      Json.Writes v (Json.write .pretty 0 v) ∧
      Format.messagePack.decode (MessagePack.write v) = .ok description ∧
      Format.json.decode (Json.write .pretty 0 v) = .ok description := by
  intro v description
  have shallow : v.nesting ≤ Json.maxLevels := by decide
  have readsBack : ∀ d ∈ v.doubles, Json.ReadsBack d := by decide
  have sized : MessagePack.Sized v := by decide
  have writes := Json.writes_write Json.Style.isBlank_pretty v
  have decoded : Format.messagePack.decode (MessagePack.write v) = .ok description := rfl
  have others : ¬v.SomeNodeWithNull := by simp [v, Value.someNodeWithNull_nodeWith_iff]
  exact ⟨shallow, readsBack, sized, writes, decoded,
    (decode_json_eq_ok_iff shallow readsBack sized writes description).2 ⟨decoded, others⟩⟩

/-- Null for the attributes of a node: MessagePack decodes the node without attributes, and JSON
    refuses it. -/
theorem decode_json_ne_null :
    let v : Value := .nodeWith .null
    let description : ModelDescription := ⟨[⟨⟨0⟩, "x", [], .empty⟩]⟩
    v.nesting ≤ Json.maxLevels ∧ (∀ d ∈ v.doubles, Json.ReadsBack d) ∧ MessagePack.Sized v ∧
      Format.messagePack.decode (MessagePack.write v) = .ok description ∧
      (Format.json.decode (Json.write .compact 0 v) : Except DecodeError ModelDescription) =
        .error (.json (.mismatch (.wrongType .nothing .map))) :=
  ⟨by decide, by decide, by decide, rfl, rfl⟩

end Dataflow

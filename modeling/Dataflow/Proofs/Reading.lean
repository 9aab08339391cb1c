import Dataflow.Proofs.NormalForm

/-! # Reading document trees

Every format spells a tree of values, and a schema can be read off that tree directly. The readers
of a format are later compared with these. Main statement: a description read off its own tree is
what it was, unless attributes nest deeper than the levels allow.
-/

namespace Dataflow

namespace Value

section

variable {motive : Value → Prop} (null : motive .null) (bool : ∀ b, motive (.bool b))
  (int : ∀ n, motive (.int n)) (double : ∀ d, motive (.double d))
  (string : ∀ s, motive (.string s))
  (array : ∀ items, (∀ item ∈ items, motive item) → motive (.array items))
  (object : ∀ members, (∀ entry ∈ members, motive entry.2) → motive (.object members))

include null bool int double string array object

/-- Induction over values, with the hypothesis for every item and every member. -/
@[elab_as_elim]
theorem induction (value : Value) : motive value := by
  cases value with
  | null => exact null
  | bool b => exact bool b
  | int n => exact int n
  | double d => exact double d
  | string s => exact string s
  | array items => exact array items fun item _ => induction item
  | object members => exact object members fun entry _ => induction entry.2
termination_by sizeOf value
decreasing_by
  · next member =>
    have smaller := List.sizeOf_lt_of_mem member
    rw [Value.array.sizeOf_spec]
    omega
  · next member =>
    have smaller := List.sizeOf_lt_of_mem member
    cases entry
    dsimp only
    rw [Prod.mk.sizeOf_spec] at smaller
    rw [Value.object.sizeOf_spec]
    omega

end

theorem nestingItems_le_iff {items : List Value} {levels : Nat} :
    nestingItems items ≤ levels ↔ ∀ item ∈ items, item.nesting ≤ levels := by
  induction items with
  | nil => simp [nestingItems]
  | cons item rest ih => simp [nestingItems, ih]

theorem nestingMembers_le_iff {members : List (String × Value)} {levels : Nat} :
    nestingMembers members ≤ levels ↔ ∀ entry ∈ members, entry.2.nesting ≤ levels := by
  induction members with
  | nil => simp [nestingMembers]
  | cons head rest ih => simp [nestingMembers, ih]

/-- The value itself, if it nests at most so deep. -/
def kept (levels : Nat) (value : Value) : Option Value :=
  if value.nesting ≤ levels then some value else none

end Value

theorem List.mapM_ite {α β : Type} {f : α → Option β} {g : α → β} {fits : α → Prop}
    [DecidablePred fits] {xs : List α}
    (each : ∀ x ∈ xs, f x = if fits x then some (g x) else none) :
    xs.mapM f = if ∀ x ∈ xs, fits x then some (xs.map g) else none := by
  induction xs with
  | nil => simp
  | cons x rest ih =>
      have first := each x List.mem_cons_self
      have later := ih fun y member => each y (List.mem_cons_of_mem _ member)
      rw [List.mapM_cons, first, later]
      simp only [List.forall_mem_cons]
      split <;> split <;> simp_all

theorem Value.mapM_kept (levels : Nat) (items : List Value) :
    items.mapM (kept levels) = if nestingItems items ≤ levels then some items else none := by
  have each : ∀ item ∈ items, kept levels item =
      if item.nesting ≤ levels then some (id item) else none := fun _ _ => rfl
  simp only [List.mapM_ite each, ← nestingItems_le_iff, List.map_id]

theorem Value.mapM_kept_members (levels : Nat) (members : List (String × Value)) :
    (members.mapM fun entry => (kept levels entry.2).map fun v => (entry.1, v)) =
      if nestingMembers members ≤ levels then some members else none := by
  have each : ∀ entry ∈ members, ((kept levels entry.2).map fun v => (entry.1, v)) =
      if entry.2.nesting ≤ levels then some (id entry) else none := by
    intro entry _
    unfold kept
    split <;> rfl
  simp only [List.mapM_ite each, ← nestingMembers_le_iff, List.map_id]

/-- Where formats differ in what they make of the same tree. -/
structure Convention where
  /-- Null stands for no attributes. -/
  nullAttributes : Bool
  /-- Values that are passed over may nest only as deep as the others. -/
  limitsSkipped : Bool

/-- Reads an `α` off a value, in which lists and objects may open so many levels. -/
structure Reading (convention : Convention) (α : Type) where
  run : (levels : Nat) → Value → Option α

namespace Reading

variable {convention : Convention} {α β δ : Type}

def map (f : α → β) (reading : Reading convention α) : Reading convention β where
  run levels value := (reading.run levels value).map f

def unsigned : Reading convention UInt64 where
  run
    | _, .int n => n.toUInt64?
    | _, _ => none

def text : Reading convention String where
  run
    | _, .string s => some s
    | _, _ => none

def attributes : Reading convention Attributes where
  run
    | levels + 1, .object members =>
      if Value.nestingMembers members ≤ levels then some (.ofMembers members) else none
    | _, .null => if convention.nullAttributes then some .empty else none
    | _, _ => none

def list (item : Reading convention α) : Reading convention (List α) where
  run
    | levels + 1, .array items => items.mapM (item.run levels)
    | _, _ => none

/-- A member of a record. A field may come once; a member that is no field is passed over. -/
def member (fields : List (Field (Reading convention) δ)) (levels : Nat) (draft : δ)
    (entry : String × Value) : Option δ :=
  match fields.find? (·.name == entry.1) with
  | none =>
    if convention.limitsSkipped && levels < entry.2.nesting then none else some draft
  | some field =>
    if field.isSet draft then none
    else (field.reader.run levels entry.2).map fun change => change draft

/-- The fields of a record as items, which may end early. -/
def items (levels : Nat) : List (Field (Reading convention) δ) → List Value → δ → Option δ
  | _, [], draft => some draft
  | [], _ :: _, _ => none
  | field :: fields, value :: rest, draft =>
    (field.reader.run levels value).bind fun change => items levels fields rest (change draft)

def record (record : Record (Reading convention) δ α) : Reading convention α where
  run
    | levels + 1, .object members =>
      (members.foldlM (member record.fields levels) record.blank).bind fun draft =>
        (record.finish draft).toOption
    | levels + 1, .array values =>
      (items levels record.fields values record.blank).bind fun draft =>
        (record.finish draft).toOption
    | _, _ => none

def choice (constants : List (String × α)) : Reading convention α where
  run
    | _, .string name => constants.lookup name
    | _, _ => none

instance : Readers (Reading convention) where
  map := map
  unsigned := unsigned
  text := text
  attributes := attributes
  list := list
  record := record
  choice := choice

end Reading

section

variable {R : Type → Type} {δ α : Type}

theorem Record.toOption_ofNamed (record : Record R δ α) (draft : δ) :
    (record.ofNamed draft).toOption = (record.finish draft).toOption := by
  unfold Record.ofNamed
  cases record.finish draft <;> rfl

theorem Record.toOption_ofItems (record : Record R δ α) (draft : δ) :
    (record.ofItems draft).toOption = (record.finish draft).toOption := by
  unfold Record.ofItems
  cases record.finish draft <;> rfl

end

section

variable {R S : Type → Type} (Agree : (α : Type) → R α → S α → Prop)

/-- Fields with the same name and agreeing readers. -/
structure Field.Corresponds {δ : Type} (left : Field R δ) (right : Field S δ) : Prop where
  name : left.name = right.name
  isSet : left.isSet = right.isSet
  reader : Agree (δ → δ) left.reader right.reader

structure Record.Corresponds {δ α : Type} (left : Record R δ α) (right : Record S δ α) : Prop where
  fields : List.Forall₂ (Field.Corresponds Agree) left.fields right.fields
  blank : left.blank = right.blank
  finish : left.finish = right.finish

/-- A name finds corresponding fields, or none on both sides. -/
theorem Field.find?_corresponds {δ : Type} {left : List (Field R δ)} {right : List (Field S δ)}
    (corresponds : List.Forall₂ (Field.Corresponds Agree) left right) (name : String) :
    left.find? (·.name == name) = none ∧ right.find? (·.name == name) = none ∨
      ∃ f g, left.find? (·.name == name) = some f ∧ right.find? (·.name == name) = some g ∧
        Field.Corresponds Agree f g := by
  induction corresponds with
  | nil => exact .inl ⟨rfl, rfl⟩
  | cons first _ ih =>
      simp only [List.find?_cons, first.name]
      split
      · exact .inr ⟨_, _, rfl, rfl, first⟩
      · exact ih

theorem Field.exists_corresponds {δ : Type} {left : List (Field R δ)} {right : List (Field S δ)}
    (corresponds : List.Forall₂ (Field.Corresponds Agree) left right) {f : Field R δ}
    (member : f ∈ left) : ∃ g ∈ right, Field.Corresponds Agree f g := by
  induction corresponds with
  | nil => cases member
  | cons first _ ih =>
      rcases List.mem_cons.1 member with rfl | later
      · exact ⟨_, List.mem_cons_self, first⟩
      · obtain ⟨g, inside, same⟩ := ih later
        exact ⟨g, List.mem_cons_of_mem _ inside, same⟩

/-- A relation between the readers of two formats that their combinators keep. -/
structure Simulates [Readers R] [Readers S] : Prop where
  map : ∀ {α β : Type} (f : α → β) {r : R α} {s : S α}, Agree α r s →
    Agree β (Readers.map f r) (Readers.map f s)
  unsigned : Agree UInt64 Readers.unsigned Readers.unsigned
  text : Agree String Readers.text Readers.text
  attributes : Agree Attributes Readers.attributes Readers.attributes
  list : ∀ {α : Type} {r : R α} {s : S α}, Agree α r s →
    Agree (List α) (Readers.list r) (Readers.list s)
  record : ∀ {δ α : Type} {r : Record R δ α} {s : Record S δ α}, Record.Corresponds Agree r s →
    Agree α (Readers.record r) (Readers.record s)

end

namespace Simulates

variable {R S : Type → Type} [Readers R] [Readers S] {Agree : (α : Type) → R α → S α → Prop}

theorem nodeId (sim : Simulates Agree) :
    Agree NodeId Document.reader Document.reader :=
  sim.map _ sim.unsigned

theorem input (sim : Simulates Agree) :
    Agree Input Document.reader Document.reader := by
  apply sim.record
  refine ⟨?_, rfl, rfl⟩
  exact .cons ⟨rfl, rfl, sim.map _ sim.text⟩
    (.cons ⟨rfl, rfl, sim.map _ (sim.list sim.nodeId)⟩ .nil)

theorem node (sim : Simulates Agree) :
    Agree NodeDescription Document.reader Document.reader := by
  apply sim.record
  refine ⟨?_, rfl, rfl⟩
  exact .cons ⟨rfl, rfl, sim.map _ sim.nodeId⟩
    (.cons ⟨rfl, rfl, sim.map _ sim.text⟩
      (.cons ⟨rfl, rfl, sim.map _ (sim.list sim.input)⟩
        (.cons ⟨rfl, rfl, sim.map _ sim.attributes⟩ .nil)))

theorem description (sim : Simulates Agree) :
    Agree ModelDescription Document.reader Document.reader := by
  apply sim.record
  refine ⟨?_, rfl, rfl⟩
  exact .cons ⟨rfl, rfl, sim.map _ (sim.list sim.node)⟩ .nil

end Simulates

theorem Value.nestingItems_map_le_iff {α : Type} {tree : α → Value} {xs : List α} {levels : Nat} :
    nestingItems (xs.map tree) ≤ levels ↔ ∀ x ∈ xs, (tree x).nesting ≤ levels := by
  rw [nestingItems_le_iff, List.forall_mem_map]

theorem Input.nesting_le (input : Input) : (Document.toValue input).nesting ≤ 2 := by
  have parents : Value.nestingItems (input.parents.map Document.toValue) ≤ 0 :=
    Value.nestingItems_map_le_iff.2 fun _ _ => le_rfl
  change max 0 (max (_ + 1) 0) + 1 ≤ 2
  omega

theorem NodeDescription.nesting_le_iff {node : NodeDescription} {levels : Nat} :
    (Document.toValue node).nesting ≤ levels + 4 ↔
      Value.nestingMembers node.attributes.entries ≤ levels + 2 := by
  have inputs : Value.nestingItems (node.inputs.map Document.toValue) ≤ 2 :=
    Value.nestingItems_map_le_iff.2 fun input _ => input.nesting_le
  change max 0 (max 0 (max (_ + 1) (max (_ + 1) 0))) + 1 ≤ _ ↔ _
  omega

/-- The values of all attributes nest at most so many levels. -/
def ModelDescription.NestsWithin (description : ModelDescription) (levels : Nat) : Prop :=
  ∀ node ∈ description.nodes, ∀ entry ∈ node.attributes.entries, entry.2.nesting ≤ levels

instance (description : ModelDescription) (levels : Nat) :
    Decidable (description.NestsWithin levels) :=
  inferInstanceAs (Decidable (∀ node ∈ description.nodes, _))

theorem ModelDescription.nestsWithin_iff {description : ModelDescription} {levels : Nat} :
    description.NestsWithin levels ↔
      ∀ node ∈ description.nodes, Value.nestingMembers node.attributes.entries ≤ levels := by
  simp only [NestsWithin, Value.nestingMembers_le_iff]

/-- Four levels of a document are open around the values of attributes. -/
theorem ModelDescription.nesting_le_iff {description : ModelDescription} {levels : Nat} :
    (Document.toValue description).nesting ≤ levels + 6 ↔ description.NestsWithin (levels + 2) := by
  have nodes : Value.nestingItems (description.nodes.map Document.toValue) ≤ levels + 4 ↔ _ :=
    Value.nestingItems_map_le_iff
  simp only [NodeDescription.nesting_le_iff] at nodes
  rw [nestsWithin_iff, ← nodes]
  change max (_ + 1) 0 + 1 ≤ _ ↔ _
  omega

namespace Reading

variable {convention : Convention}

theorem run_list {α : Type} {item : Reading convention α} {tree : α → Value} {levels : Nat}
    {fits : α → Prop} [DecidablePred fits] {xs : List α}
    (each : ∀ x ∈ xs, item.run levels (tree x) = if fits x then some x else none) :
    (list item).run (levels + 1) (.array (xs.map tree)) =
      if ∀ x ∈ xs, fits x then some xs else none := by
  have each' : ∀ x ∈ xs, (item.run levels ∘ tree) x = if fits x then some (id x) else none := each
  simp only [list, List.mapM_map, List.mapM_ite each', List.map_id]

@[simp] theorem run_map {α β : Type} (f : α → β) (reading : Reading convention α) (levels : Nat)
    (value : Value) : (Readers.map f reading : Reading convention β).run levels value =
      (reading.run levels value).map f := rfl

@[simp] theorem run_text (levels : Nat) (s : String) :
    (Readers.text : Reading convention String).run levels (.string s) = some s := rfl

@[simp] theorem run_attributes (levels : Nat) (attributes : Attributes) :
    (Readers.attributes : Reading convention Attributes).run (levels + 1) attributes.toValue =
      if Value.nestingMembers attributes.entries ≤ levels then some attributes else none := by
  simp only [Readers.attributes, Attributes.toValue, Reading.attributes,
    Attributes.ofMembers_entries]

@[simp] theorem run_nodeId (levels : Nat) (id : NodeId) :
    (Document.reader : Reading convention NodeId).run levels (Document.toValue id) = some id :=
  congrArg (Option.map NodeId.mk) (Integer.toUInt64?_ofUInt64 id.raw)

@[simp] theorem run_input (levels : Nat) (input : Input) :
    (Document.reader : Reading convention Input).run (levels + 2) (Document.toValue input) =
      some input := by
  have parents : (Readers.list Document.reader : Reading convention (List NodeId)).run (levels + 1)
      (.array (input.parents.map Document.toValue)) = some input.parents :=
    (run_list fun id _ => (run_nodeId levels id).trans (if_pos trivial).symm).trans (by simp)
  change ((List.foldlM (member inputRecord.fields (levels + 1)) {} _).bind _) = _
  simp [inputRecord, member, parents, InputDraft.finish, Except.toOption]

theorem run_node (levels : Nat) (node : NodeDescription) :
    (Document.reader : Reading convention NodeDescription).run (levels + 4)
      (Document.toValue node) =
      if Value.nestingMembers node.attributes.entries ≤ levels + 2 then some node else none := by
  have inputs : (Readers.list Document.reader : Reading convention (List Input)).run (levels + 3)
      (.array (node.inputs.map Document.toValue)) = some node.inputs :=
    (run_list fun input _ => (run_input levels input).trans (if_pos trivial).symm).trans (by simp)
  change ((List.foldlM (member nodeRecord.fields (levels + 3)) {} _).bind _) = _
  simp [nodeRecord, member, inputs]
  split <;> simp [NodeDraft.finish, Except.toOption]

/-- Reading a description off its own tree gives it back, unless it nests too deep. -/
theorem run_description (levels : Nat) (description : ModelDescription) :
    (Document.reader : Reading convention ModelDescription).run (levels + 6)
      (Document.toValue description) =
      if description.NestsWithin (levels + 2) then some description else none := by
  have nodes : (Readers.list Document.reader : Reading convention (List NodeDescription)).run
      (levels + 5) (.array (description.nodes.map Document.toValue)) =
      if ∀ node ∈ description.nodes, Value.nestingMembers node.attributes.entries ≤ levels + 2
      then some description.nodes else none := run_list fun node _ => run_node levels node
  change ((List.foldlM (member modelRecord.fields (levels + 5)) {} _).bind _) = _
  simp only [ModelDescription.nestsWithin_iff]
  split
  · next fits =>
    rw [if_pos fits] at nodes
    simp [modelRecord, member, nodes, ModelDraft.finish, Except.toOption]
  · next deep =>
    rw [if_neg deep] at nodes
    simp [modelRecord, member, nodes]

end Reading

end Dataflow

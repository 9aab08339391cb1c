import Dataflow.Proofs.Slots

/-! # What a tree describes

Which trees describe a model, and what each of them describes, is said here without any reader. Main
statement: a tree that nests within the levels is read as a description exactly if it describes it.
-/

namespace Dataflow

theorem Integer.toUInt64?_eq_some_iff {n : Integer} {m : UInt64} :
    n.toUInt64? = some m ↔ n.val = m.toNat := by
  unfold toUInt64?
  split
  · next positive =>
    have bound := n.lt_bound
    have small : n.val.toNat < UInt64.size := by
      simp only [UInt64.size]
      omega
    rw [Option.some.injEq, ← UInt64.toNat_inj, Nat.toUInt64_eq, UInt64.toNat_ofNat_of_lt' small]
    omega
  · next negative =>
    refine iff_of_false (by simp) fun same => ?_
    omega

section

variable {α : Type}

namespace Value

/-- A number that is an id. -/
def GivesId (v : Value) (id : NodeId) : Prop := ∃ n, v = .int n ∧ n.val = id.raw.toNat

def GivesText (v : Value) (s : String) : Prop := v = .string s

/-- A list that gives the elements one by one. -/
def GivesList (each : Value → α → Prop) (v : Value) (xs : List α) : Prop :=
  ∃ items, v = .array items ∧ List.Forall₂ each items xs

/-- An object whose names have in the attributes the values of their last members. Where null is
    taken for attributes, it gives none. -/
inductive GivesAttributes (nullable : Bool) : Value → Attributes → Prop where
  | object {members : List (String × Value)} {attributes : Attributes} :
      (∀ name, attributes.get? name = (members.reverse.lookup name).map normalize) →
      GivesAttributes nullable (.object members) attributes
  | null : nullable = true → GivesAttributes nullable .null .empty

/-- What is given for a field that may be left out. -/
inductive GivesOr (default : α) (each : Value → α → Prop) : Option Value → α → Prop where
  | given {v : Value} {x : α} : each v x → GivesOr default each (some v) x
  | absent : GivesOr default each none default

theorem GivesOr.imp {default : α} {each each' : Value → α → Prop} {slot : Option Value} {x : α}
    (gives : GivesOr default each slot x)
    (imp : ∀ v, slot = some v → each v x → each' v x) : GivesOr default each' slot x := by
  cases gives with
  | given given => exact .given (imp _ rfl given)
  | absent => exact .absent

theorem GivesOr.of_some {default : α} {each : Value → α → Prop} {v : Value} {x : α}
    (gives : GivesOr default each (some v) x) : each v x := by
  cases gives with
  | given given => exact given

/-- An input has a name, and parents unless they are left out. -/
def GivesInput (v : Value) (input : Input) : Prop :=
  ∃ name parents, v.Fills ["name", "parents"] [some name, parents] ∧
    name.GivesText input.name ∧ GivesOr [] (GivesList GivesId) parents input.parents

/-- A node has an id and a kind, and inputs and attributes unless they are left out. -/
def GivesNode (nullable : Bool) (v : Value) (node : NodeDescription) : Prop :=
  ∃ id kind inputs attributes,
    v.Fills ["id", "kind", "inputs", "attributes"] [some id, some kind, inputs, attributes] ∧
      id.GivesId node.id ∧ kind.GivesText node.kind ∧
      GivesOr [] (GivesList GivesInput) inputs node.inputs ∧
      GivesOr .empty (GivesAttributes nullable) attributes node.attributes

/-- The tree describes the model. -/
def Describes (nullable : Bool) (v : Value) (description : ModelDescription) : Prop :=
  ∃ nodes, v.Fills ["nodes"] [some nodes] ∧
    GivesList (GivesNode nullable) nodes description.nodes

end Value

end

namespace Reading

variable {convention : Convention} {α β δ : Type}

/-- Of every tree that nests within the levels is read just what it gives. -/
def Follows (reading : Reading convention α) (gives : Value → α → Prop) : Prop :=
  ∀ levels v, v.nesting ≤ levels → ∀ x, reading.run levels v = some x ↔ gives v x

theorem follows_text : Follows (Readers.text : Reading convention String) Value.GivesText := by
  intro levels v _ s
  change text.run levels v = some s ↔ v = .string s
  cases v <;> simp [text]

theorem follows_nodeId :
    Follows (Document.reader : Reading convention NodeId) Value.GivesId := by
  intro levels v _ id
  change (unsigned.run levels v).map NodeId.mk = some id ↔ _
  cases v with
  | int n =>
      simp only [unsigned, Option.map_eq_some_iff, Integer.toUInt64?_eq_some_iff]
      constructor
      · rintro ⟨raw, same, rfl⟩
        exact ⟨n, rfl, same⟩
      · rintro ⟨_, ⟨⟩, same⟩
        exact ⟨id.raw, same, rfl⟩
  | _ => simp [unsigned, Value.GivesId]

theorem forall₂_iff_mapM {f : Value → Option α} {each : Value → α → Prop} {items : List Value}
    (same : ∀ item ∈ items, ∀ x, f item = some x ↔ each item x) (xs : List α) :
    items.mapM f = some xs ↔ List.Forall₂ each items xs := by
  induction items generalizing xs with
  | nil => simp [eq_comm]
  | cons item items ih =>
      have later := ih fun other member => same other (List.mem_cons_of_mem _ member)
      have here := same item List.mem_cons_self
      simp only [List.mapM_cons, Option.bind_eq_bind, Option.bind_eq_some_iff, Option.pure_def,
        Option.some.injEq, here, later]
      constructor
      · rintro ⟨x, given, rest, all, rfl⟩
        exact .cons given all
      · rintro (_ | ⟨given, all⟩)
        exact ⟨_, given, _, all, rfl⟩

theorem Follows.list {item : Reading convention α} {each : Value → α → Prop}
    (follows : Follows item each) :
    Follows (Readers.list item : Reading convention (List α)) (Value.GivesList each) := by
  intro levels v fits xs
  change (Reading.list item).run levels v = some xs ↔ _
  cases v with
  | array items =>
      cases levels with
      | zero => cases fits
      | succ levels =>
          have inside := Value.nestingItems_le_iff.1 (Nat.le_of_succ_le_succ fits)
          have all := forall₂_iff_mapM (fun item member => follows levels item (inside item member))
            xs
          simpa [Reading.list, Value.GivesList] using all
  | null | bool | int | double | string | object =>
      simp [Reading.list, Value.GivesList]

theorem follows_attributes : Follows (Readers.attributes : Reading convention Attributes)
    (Value.GivesAttributes convention.nullAttributes) := by
  intro levels v fits a
  change Reading.attributes.run levels v = some a ↔ _
  cases v with
  | object members =>
      cases levels with
      | zero => cases fits
      | succ levels =>
          have inside : Value.nestingMembers members ≤ levels := Nat.le_of_succ_le_succ fits
          simp only [Reading.attributes, if_pos inside, Option.some.injEq,
            Attributes.ofMembers_eq_iff]
          constructor
          · exact .object
          · rintro ⟨given⟩
            exact given
  | null =>
      have taken : (attributes : Reading convention Attributes).run levels .null =
          if convention.nullAttributes then some .empty else none := by cases levels <;> rfl
      rw [taken]
      constructor
      · intro read
        split at read
        · next nullable =>
          cases read
          exact .null nullable
        · cases read
      · intro given
        cases given with
        | null nullable => rw [if_pos nullable]
  | bool | int | double | string | array =>
      refine iff_of_false (by simp [Reading.attributes]) ?_
      rintro ⟨⟩

/-- The value of a slot, if there is one, gives the value of a field, if it has one. -/
abbrev GivesSlot (gives : Value → α → Prop) : Option Value → Option α → Prop := Option.Rel gives

theorem givesOr_iff {default : α} {gives : Value → α → Prop} {slot : Option Value} {x : α} :
    Value.GivesOr default gives slot x ↔ ∃ y, GivesSlot gives slot y ∧ y.getD default = x := by
  constructor
  · rintro (given | _)
    · exact ⟨_, .some given, rfl⟩
    · exact ⟨_, .none, rfl⟩
  · rintro ⟨_, given | _, rfl⟩
    · exact .given given
    · exact .absent

/-- A slot is read for the field that comes first, which sets its part of the draft. -/
theorem fill_cons_map {levels : Nat} {name : String} {isSet : δ → Bool} {set : β → δ → δ}
    {reading : Reading convention β} {gives : Value → β → Prop} (follows : Follows reading gives)
    {fields : List (Field (Reading convention) δ)} {slot : Option Value}
    {slots : List (Option Value)} (fits : ∀ v, some v ∈ slot :: slots → v.nesting ≤ levels)
    {draft draft' : δ} :
    fill levels (⟨name, isSet, Readers.map set reading⟩ :: fields) (slot :: slots) draft =
        some draft' ↔
      ∃ x, GivesSlot gives slot x ∧
        fill levels fields slots (x.elim draft fun y => set y draft) = some draft' := by
  cases slot with
  | none =>
      constructor
      · intro filled
        exact ⟨none, .none, filled⟩
      · rintro ⟨_, ⟨⟩, filled⟩
        exact filled
  | some v =>
      have here := follows levels v (fits v List.mem_cons_self)
      simp only [fill, run_map, Option.bind_eq_some_iff, Option.map_eq_some_iff, here]
      constructor
      · rintro ⟨_, ⟨y, given, rfl⟩, filled⟩
        exact ⟨some y, .some given, filled⟩
      · rintro ⟨_, @⟨_, y, given⟩, filled⟩
        exact ⟨_, ⟨y, given, rfl⟩, filled⟩

theorem Follows.record {r : Record (Reading convention) δ α} (separate : Separate r.fields)
    (blank : ∀ f ∈ r.fields, f.isSet r.blank = false) {gives : Value → α → Prop}
    (positive : ∀ v x, gives v x → 0 < v.nesting)
    (each : ∀ levels v, v.nesting ≤ levels + 1 → ∀ x,
      (∃ slots draft, v.Fills (r.fields.map (·.name)) slots ∧
        fill levels r.fields slots r.blank = some draft ∧ r.finish draft = .ok x) ↔ gives v x) :
    Follows (Readers.record r : Reading convention α) gives := by
  intro levels v fits x
  change (Reading.record r).run levels v = some x ↔ _
  cases levels with
  | zero =>
      refine iff_of_false (by cases v <;> simp [Reading.record]) fun given => ?_
      exact absurd (positive v x given) (by omega)
  | succ levels => exact (run_record separate blank (fun _ => fits) x).trans (each levels v fits x)

theorem exists_set {name : String} {isSet : δ → Bool} {set : β → δ → δ}
    {reading : Reading convention β} {change : δ → δ}
    (made : Makes ⟨name, isSet, Readers.map set reading⟩ change) : ∃ y, change = set y := by
  obtain ⟨levels, v, read⟩ := made
  obtain ⟨y, -, rfl⟩ := Option.map_eq_some_iff.1 read
  exact ⟨y, rfl⟩

theorem apart_map {γ : Type} {name name' : String} {isSet isSet' : δ → Bool} {set : β → δ → δ}
    {set' : γ → δ → δ} {reading : Reading convention β} {reading' : Reading convention γ}
    (names : name ≠ name') (comm : ∀ y z draft, set y (set' z draft) = set' z (set y draft))
    (left : ∀ z draft, isSet (set' z draft) = isSet draft)
    (right : ∀ y draft, isSet' (set y draft) = isSet' draft) :
    Apart ⟨name, isSet, Readers.map set reading⟩ ⟨name', isSet', Readers.map set' reading'⟩ where
  name := names
  comm := by
    intro change change' made made' draft
    obtain ⟨y, rfl⟩ := exists_set made
    obtain ⟨z, rfl⟩ := exists_set made'
    exact comm y z draft
  left := by
    intro change made draft
    obtain ⟨z, rfl⟩ := exists_set made
    exact left z draft
  right := by
    intro change made draft
    obtain ⟨y, rfl⟩ := exists_set made
    exact right y draft

theorem sets_map {name : String} {isSet : δ → Bool} {set : β → δ → δ}
    {reading : Reading convention β} (sets : ∀ y draft, isSet (set y draft) = true) :
    ∀ change, Makes ⟨name, isSet, Readers.map set reading⟩ change →
      ∀ draft, isSet (change draft) = true := by
  intro change made draft
  obtain ⟨y, rfl⟩ := exists_set made
  exact sets y draft

theorem separate_input : Separate (inputRecord (R := Reading convention)).fields where
  sets := by
    simp only [inputRecord, List.forall_mem_cons]
    exact ⟨sets_map fun _ _ => rfl, sets_map fun _ _ => rfl, List.forall_mem_nil _⟩
  apart := by
    simp only [inputRecord, List.pairwise_pair]
    exact apart_map (by decide) (fun _ _ _ => rfl) (fun _ _ => rfl) fun _ _ => rfl

theorem separate_node : Separate (nodeRecord (R := Reading convention)).fields where
  sets := by
    simp only [nodeRecord, List.forall_mem_cons]
    exact ⟨sets_map fun _ _ => rfl, sets_map fun _ _ => rfl, sets_map fun _ _ => rfl,
      sets_map fun _ _ => rfl, List.forall_mem_nil _⟩
  apart := by
    simp only [nodeRecord, List.pairwise_cons, List.forall_mem_cons]
    refine ⟨⟨?_, ?_, ?_, List.forall_mem_nil _⟩, ⟨?_, ?_, List.forall_mem_nil _⟩,
      ⟨?_, List.forall_mem_nil _⟩, List.forall_mem_nil _, .nil⟩
    all_goals exact apart_map (by decide) (fun _ _ _ => rfl) (fun _ _ => rfl) fun _ _ => rfl

theorem separate_model : Separate (modelRecord (R := Reading convention)).fields where
  sets := by
    simp only [modelRecord, List.forall_mem_singleton]
    exact sets_map fun _ _ => rfl
  apart := List.pairwise_singleton _ _

theorem fill_input {levels : Nat} {name parents : Option Value}
    (fits : ∀ v, some v ∈ [name, parents] → v.nesting ≤ levels) (draft : InputDraft) :
    fill levels (inputRecord (R := Reading convention)).fields [name, parents] {} = some draft ↔
      GivesSlot Value.GivesText name draft.name ∧
        GivesSlot (Value.GivesList Value.GivesId) parents draft.parents := by
  have later := fun v member => fits v (List.mem_cons_of_mem _ member)
  have ids := (@follows_nodeId convention).list
  simp only [inputRecord, fill_cons_map follows_text fits, fill_cons_map ids later, fill,
    Option.some.injEq]
  constructor
  · rintro ⟨x, named, y, given, rfl⟩
    cases x <;> cases y <;> exact ⟨named, given⟩
  · rintro ⟨named, given⟩
    refine ⟨_, named, _, given, ?_⟩
    obtain ⟨x, y⟩ := draft
    cases x <;> cases y <;> rfl

theorem follows_input :
    Follows (Document.reader : Reading convention Input) Value.GivesInput := by
  apply Follows.record separate_input (by simp [inputRecord])
  · rintro v input ⟨name, parents, fills, -⟩
    exact fills.nesting_pos
  intro levels v fits input
  constructor
  · rintro ⟨slots, draft, fills, filled, finished⟩
    obtain ⟨first, second, rfl⟩ := List.length_eq_two.1 fills.length_eq
    obtain ⟨named, given⟩ := (fill_input (fun _ => fills.nesting_le fits) draft).1 filled
    obtain ⟨_ | name, parents⟩ := draft
    · cases finished
    · cases named with
      | some named =>
          cases finished
          exact ⟨_, second, fills, named, givesOr_iff.2 ⟨parents, given, rfl⟩⟩
  · rintro ⟨name, parents, fills, named, given⟩
    obtain ⟨found, given, same⟩ := givesOr_iff.1 given
    refine ⟨_, ⟨some input.name, found⟩, fills,
      (fill_input (fun _ => fills.nesting_le fits) _).2 ⟨.some named, given⟩, ?_⟩
    exact congrArg (fun parents => Except.ok (Input.mk input.name parents)) same

theorem fill_node {levels : Nat} {id kind inputs attributes : Option Value}
    (fits : ∀ v, some v ∈ [id, kind, inputs, attributes] → v.nesting ≤ levels)
    (draft : NodeDraft) :
    fill levels (nodeRecord (R := Reading convention)).fields [id, kind, inputs, attributes] {} =
        some draft ↔
      GivesSlot Value.GivesId id draft.id ∧ GivesSlot Value.GivesText kind draft.kind ∧
        GivesSlot (Value.GivesList Value.GivesInput) inputs draft.inputs ∧
        GivesSlot (Value.GivesAttributes convention.nullAttributes) attributes
          draft.attributes := by
  have fits₁ := fun v member => fits v (List.mem_cons_of_mem _ member)
  have fits₂ := fun v member => fits₁ v (List.mem_cons_of_mem _ member)
  have fits₃ := fun v member => fits₂ v (List.mem_cons_of_mem _ member)
  have list := (@follows_input convention).list
  simp only [nodeRecord, fill_cons_map follows_nodeId fits, fill_cons_map follows_text fits₁,
    fill_cons_map list fits₂, fill_cons_map follows_attributes fits₃, fill, Option.some.injEq]
  constructor
  · rintro ⟨x, given, y, given₁, z, given₂, w, given₃, rfl⟩
    cases x <;> cases y <;> cases z <;> cases w <;> exact ⟨given, given₁, given₂, given₃⟩
  · rintro ⟨given, given₁, given₂, given₃⟩
    refine ⟨_, given, _, given₁, _, given₂, _, given₃, ?_⟩
    obtain ⟨x, y, z, w⟩ := draft
    cases x <;> cases y <;> cases z <;> cases w <;> rfl

theorem follows_node : Follows (Document.reader : Reading convention NodeDescription)
    (Value.GivesNode convention.nullAttributes) := by
  apply Follows.record separate_node (by simp [nodeRecord])
  · rintro v node ⟨_, _, _, _, fills, -⟩
    exact fills.nesting_pos
  intro levels v fits node
  constructor
  · rintro ⟨slots, draft, fills, filled, finished⟩
    obtain ⟨first, slots, rfl⟩ := List.exists_cons_of_length_eq_add_one fills.length_eq
    obtain ⟨second, third, fourth, rfl⟩ :=
      List.length_eq_three.1 (Nat.succ.inj fills.length_eq)
    obtain ⟨given, named, inputs, attributes⟩ :=
      (fill_node (fun _ => fills.nesting_le fits) draft).1 filled
    obtain ⟨_ | id, _ | kind, found, found'⟩ := draft
    · cases finished
    · cases finished
    · cases finished
    · cases given with
      | some given =>
          cases named with
          | some named =>
              cases finished
              exact ⟨_, _, third, fourth, fills, given, named,
                givesOr_iff.2 ⟨found, inputs, rfl⟩, givesOr_iff.2 ⟨found', attributes, rfl⟩⟩
  · rintro ⟨id, kind, inputs, attributes, fills, given, named, inputs', attributes'⟩
    obtain ⟨found, inputs', same⟩ := givesOr_iff.1 inputs'
    obtain ⟨found', attributes', same'⟩ := givesOr_iff.1 attributes'
    refine ⟨_, ⟨some node.id, some node.kind, found, found'⟩, fills,
      (fill_node (fun _ => fills.nesting_le fits) _).2
        ⟨.some given, .some named, inputs', attributes'⟩, ?_⟩
    change Except.ok (NodeDescription.mk node.id node.kind (found.getD []) (found'.getD .empty)) = _
    rw [same, same']

theorem fill_model {levels : Nat} {nodes : Option Value}
    (fits : ∀ v, some v ∈ [nodes] → v.nesting ≤ levels) (draft : ModelDraft) :
    fill levels (modelRecord (R := Reading convention)).fields [nodes] {} = some draft ↔
      GivesSlot (Value.GivesList (Value.GivesNode convention.nullAttributes)) nodes
        draft.nodes := by
  have list := (@follows_node convention).list
  simp only [modelRecord, fill_cons_map list fits, fill, Option.some.injEq]
  constructor
  · rintro ⟨x, given, rfl⟩
    cases x <;> exact given
  · intro given
    refine ⟨_, given, ?_⟩
    obtain ⟨x⟩ := draft
    cases x <;> rfl

/-- A tree that nests within the levels is read as a description exactly if it describes it. -/
theorem follows_description : Follows (Document.reader : Reading convention ModelDescription)
    (Value.Describes convention.nullAttributes) := by
  apply Follows.record separate_model (by simp [modelRecord])
  · rintro v description ⟨_, fills, -⟩
    exact fills.nesting_pos
  intro levels v fits description
  constructor
  · rintro ⟨slots, draft, fills, filled, finished⟩
    obtain ⟨first, rfl⟩ := List.length_eq_one_iff.1 fills.length_eq
    have given := (fill_model (fun _ => fills.nesting_le fits) draft).1 filled
    obtain ⟨_ | nodes⟩ := draft
    · cases finished
    · cases given with
      | some given =>
          cases finished
          exact ⟨_, fills, given⟩
  · rintro ⟨nodes, fills, given⟩
    exact ⟨_, ⟨some description.nodes⟩, fills,
      (fill_model (fun _ => fills.nesting_le fits) _).2 (.some given), rfl⟩

/-- Nothing is read off a tree that nests deeper than the levels. -/
def Bounded (reading : Reading convention α) : Prop :=
  ∀ levels v x, reading.run levels v = some x → v.nesting ≤ levels

section

variable {fields : List (Field (Reading convention) δ)}
  (bounded : ∀ field ∈ fields, Bounded field.reader)

include bounded

theorem nesting_le_of_member (limited : convention.limitsSkipped = true) {levels : Nat}
    {draft draft' : δ} {entry : String × Value}
    (read : member fields levels draft entry = some draft') : entry.2.nesting ≤ levels := by
  unfold member at read
  split at read
  · rw [limited, Bool.true_and] at read
    by_contra deep
    rw [decide_eq_true (Nat.lt_of_not_le deep), if_pos rfl] at read
    cases read
  · next field found =>
    split at read
    · cases read
    · obtain ⟨change, read, -⟩ := Option.map_eq_some_iff.1 read
      exact bounded field (List.mem_of_find?_eq_some found) levels entry.2 change read

theorem nestingMembers_le_of_members (limited : convention.limitsSkipped = true) {levels : Nat}
    {members : List (String × Value)} {draft draft' : δ}
    (read : members.foldlM (member fields levels) draft = some draft') :
    Value.nestingMembers members ≤ levels := by
  induction members generalizing draft with
  | nil => exact Nat.zero_le levels
  | cons entry rest ih =>
      rw [List.foldlM_cons, Option.bind_eq_bind, Option.bind_eq_some_iff] at read
      obtain ⟨next, first, later⟩ := read
      exact Nat.max_le.2 ⟨nesting_le_of_member bounded limited first, ih later⟩

theorem nestingItems_le_of_items {levels : Nat} {values : List Value} {draft draft' : δ}
    (read : items levels fields values draft = some draft') :
    Value.nestingItems values ≤ levels := by
  induction values generalizing fields draft with
  | nil => exact Nat.zero_le levels
  | cons v rest ih =>
      cases fields with
      | nil => cases read
      | cons field fields =>
          obtain ⟨change, first, later⟩ := Option.bind_eq_some_iff.1 read
          have here := bounded field List.mem_cons_self levels v change first
          exact Nat.max_le.2 ⟨here, ih (fun other inside => bounded other
            (List.mem_cons_of_mem _ inside)) later⟩

end

theorem bounded_map (f : α → β) {reading : Reading convention α} (bounded : Bounded reading) :
    Bounded (Readers.map f reading : Reading convention β) := by
  intro levels v x read
  obtain ⟨y, read, -⟩ := Option.map_eq_some_iff.1 read
  exact bounded levels v y read

theorem bounded_unsigned : Bounded (Readers.unsigned : Reading convention UInt64) := by
  intro levels v x read
  cases v with
  | int => exact Nat.zero_le levels
  | _ => cases read

theorem bounded_text : Bounded (Readers.text : Reading convention String) := by
  intro levels v x read
  cases v with
  | string => exact Nat.zero_le levels
  | _ => cases read

theorem bounded_attributes : Bounded (Readers.attributes : Reading convention Attributes) := by
  intro levels v x read
  cases v with
  | null => exact Nat.zero_le levels
  | object members =>
      cases levels with
      | zero => cases read
      | succ levels =>
          by_contra deep
          have deep : ¬Value.nestingMembers members ≤ levels := fun fits =>
            deep (Nat.succ_le_succ fits)
          cases (if_neg deep).symm.trans read
  | bool | int | double | string | array => cases levels <;> cases read

theorem bounded_list {item : Reading convention α} (bounded : Bounded item) :
    Bounded (Readers.list item : Reading convention (List α)) := by
  intro levels v xs read
  cases v with
  | array items =>
      cases levels with
      | zero => cases read
      | succ levels =>
          have all := (forall₂_iff_mapM (fun _ _ _ => Iff.rfl) xs).1 read
          have fits := (List.forall₂_and_left _ _).1 (all.imp fun v x read =>
            And.intro (bounded levels v x read) read)
          exact Nat.succ_le_succ (Value.nestingItems_le_iff.2 fits.1)
  | null | bool | int | double | string | object => cases levels <;> cases read

theorem bounded_record (limited : convention.limitsSkipped = true)
    {r : Record (Reading convention) δ α} (bounded : ∀ field ∈ r.fields, Bounded field.reader) :
    Bounded (Readers.record r : Reading convention α) := by
  intro levels v x read
  cases v with
  | object members =>
      cases levels with
      | zero => cases read
      | succ levels =>
          obtain ⟨draft, read, -⟩ := Option.bind_eq_some_iff.1 read
          exact Nat.succ_le_succ (nestingMembers_le_of_members bounded limited read)
  | array values =>
      cases levels with
      | zero => cases read
      | succ levels =>
          obtain ⟨draft, read, -⟩ := Option.bind_eq_some_iff.1 read
          exact Nat.succ_le_succ (nestingItems_le_of_items bounded read)
  | null | bool | int | double | string => cases levels <;> cases read

theorem simulates_bounded (limited : convention.limitsSkipped = true) :
    Simulates fun α (reading _ : Reading convention α) => Bounded reading where
  map f _ _ bounded := bounded_map f bounded
  unsigned := bounded_unsigned
  text := bounded_text
  attributes := bounded_attributes
  list := bounded_list
  record := by
    intro δ α r s corresponds
    apply bounded_record limited
    intro field inside
    obtain ⟨_, -, same⟩ := Field.exists_corresponds _ corresponds.fields inside
    exact same.reader

/-- Where all that is passed over counts, a description is read off a tree exactly if the tree
    describes it and nests within the levels. -/
theorem run_eq_some_iff_describes (limited : convention.limitsSkipped = true) (levels : Nat)
    (v : Value) (description : ModelDescription) :
    (Document.reader : Reading convention ModelDescription).run levels v = some description ↔
      v.nesting ≤ levels ∧ v.Describes convention.nullAttributes description := by
  constructor
  · intro read
    have fits := (simulates_bounded limited).description levels v description read
    exact ⟨fits, (follows_description levels v fits description).1 read⟩
  · rintro ⟨fits, describes⟩
    exact (follows_description levels v fits description).2 describes

end Reading

end Dataflow

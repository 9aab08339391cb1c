import Dataflow.Proofs.Describing
import Dataflow.Proofs.MessagePack.Grammar

/-! # What data describe

Which data are documents of a description. Unlike a tree of values a datum may hold anything where
it is not looked at: in members of a record that are no fields. Main statement: for every document
of a description there is a tree of values that nests as deep and describes the same, and a tree is
a document of just what it describes.
-/

namespace Dataflow.MessagePack

namespace Datum

variable {α : Type}

/-- The map whose keys are names. -/
def keyed (members : List (String × Datum)) : Datum :=
  .map (members.map fun member => (.text (Bytes.ofString member.1), member.2))

/-- What a datum gives for each of the named fields of a record, in their order. A map names a field
    at most once, and what else it holds does not count. -/
inductive Fills (names : List String) : Datum → List (Option Datum) → Prop where
  | named {members : List (String × Datum)} :
      (∀ name ∈ names, (members.map Prod.fst).count name ≤ 1) →
      Fills names (keyed members) (names.map fun name => members.lookup name)
  | listed {items : List Datum} : items.length ≤ names.length →
      Fills names (.list items)
        (items.map some ++ List.replicate (names.length - items.length) none)

theorem Fills.of_lookup {names : List String} {members : List (String × Datum)}
    {slots : List (Option Datum)} (once : ∀ name ∈ names, (members.map Prod.fst).count name ≤ 1)
    (found : (names.map fun name => members.lookup name) = slots) :
    Fills names (keyed members) slots := found ▸ .named once

/-- The datum is that of a value that gives this. -/
def Gives (gives : Value → α → Prop) (datum : Datum) (x : α) : Prop :=
  ∃ v, datum = ofValue v ∧ gives v x

/-- A list that gives the elements one by one. -/
def GivesList (each : Datum → α → Prop) (datum : Datum) (xs : List α) : Prop :=
  ∃ items, datum = .list items ∧ List.Forall₂ each items xs

/-- What is given for a field that may be left out. -/
def GivesOr (default : α) (each : Datum → α → Prop) : Option Datum → α → Prop
  | some datum, x => each datum x
  | none, x => x = default

/-- An input has a name, and parents unless they are left out. -/
def GivesInput (datum : Datum) (input : Input) : Prop :=
  ∃ name parents, datum.Fills ["name", "parents"] [some name, parents] ∧
    name.Gives Value.GivesText input.name ∧
    GivesOr [] (GivesList (Gives Value.GivesId)) parents input.parents

/-- A node has an id and a kind, and inputs and attributes unless they are left out. -/
def GivesNode (datum : Datum) (node : NodeDescription) : Prop :=
  ∃ id kind inputs attributes,
    datum.Fills ["id", "kind", "inputs", "attributes"] [some id, some kind, inputs, attributes] ∧
      id.Gives Value.GivesId node.id ∧ kind.Gives Value.GivesText node.kind ∧
      GivesOr [] (GivesList GivesInput) inputs node.inputs ∧
      GivesOr .empty (Gives (Value.GivesAttributes true)) attributes node.attributes

/-- The datum is a document of the description. -/
def Describes (datum : Datum) (description : ModelDescription) : Prop :=
  ∃ nodes, datum.Fills ["nodes"] [some nodes] ∧ nodes.GivesList GivesNode description.nodes

/-- The name that a key is, if it is one. -/
def keyName (content : Bytes) : String := (Bytes.toString? content).getD ""

mutual

/-- A value with the items and members of the datum. Where it can have none of its kind, it still
    nests as deep. -/
def shadow : Datum → Value
  | .nil => .null
  | .bool b => .bool b
  | .int n => .int n
  | .float x => floatValue x
  | .text content => .string (keyName content)
  | .bytes _ => .null
  | .list items => .array (shadowItems items)
  | .map members => .object (shadowMembers members)
  | .extension _ _ => .array []

def shadowItems : List Datum → List Value
  | [] => []
  | item :: rest => item.shadow :: shadowItems rest

/-- A key that is no name has a member of its own. -/
def shadowMembers : List (Datum × Datum) → List (String × Value)
  | [] => []
  | (.text content, item) :: rest => (keyName content, item.shadow) :: shadowMembers rest
  | (key, item) :: rest => ("", key.shadow) :: ("", item.shadow) :: shadowMembers rest

end

theorem keyName_ofString (s : String) : keyName (Bytes.ofString s) = s := by
  rw [keyName, Bytes.toString?_ofString, Option.getD_some]

theorem shadowItems_eq_map (items : List Datum) : shadowItems items = items.map shadow := by
  induction items with
  | nil => rfl
  | cons item rest ih => rw [shadowItems, ih, List.map_cons]

theorem shadow_keyed (members : List (String × Datum)) :
    (keyed members).shadow = .object (members.map fun member => (member.1, member.2.shadow)) := by
  rw [keyed, shadow]
  congr 1
  induction members with
  | nil => rfl
  | cons member rest ih => rw [List.map_cons, shadowMembers, ih, keyName_ofString, List.map_cons]

mutual

theorem shadow_ofValue : (v : Value) → (ofValue v).shadow = v
  | .null | .bool _ | .int _ | .double _ => rfl
  | .string s => congrArg Value.string (keyName_ofString s)
  | .array items => congrArg Value.array (shadowItems_ofItems items)
  | .object members => congrArg Value.object (shadowMembers_ofMembers members)

theorem shadowItems_ofItems : (items : List Value) → shadowItems (ofItems items) = items
  | [] => rfl
  | item :: rest => by rw [ofItems, shadowItems, shadow_ofValue item, shadowItems_ofItems rest]

theorem shadowMembers_ofMembers :
    (members : List (String × Value)) → shadowMembers (ofMembers members) = members
  | [] => rfl
  | (s, v) :: rest => by
    rw [ofMembers, shadowMembers, keyName_ofString, shadow_ofValue v, shadowMembers_ofMembers rest]

end

mutual

theorem nesting_shadow : (datum : Datum) → datum.shadow.nesting = datum.nesting
  | .nil | .bool _ | .int _ | .text _ | .bytes _ | .extension _ _ => rfl
  | .float x => by cases x <;> rfl
  | .list items => congrArg (· + 1) (nestingItems_shadow items)
  | .map members => congrArg (· + 1) (nestingMembers_shadow members)

theorem nestingItems_shadow : (items : List Datum) →
    Value.nestingItems (shadowItems items) = nestingItems items
  | [] => rfl
  | item :: rest => by
    rw [shadowItems, Value.nestingItems, nestingItems, nesting_shadow item,
      nestingItems_shadow rest]

theorem nestingMembers_shadow : (members : List (Datum × Datum)) →
    Value.nestingMembers (shadowMembers members) = nestingMembers members
  | [] => rfl
  | (key, item) :: rest => by
    have here := nesting_shadow key
    cases key with
    | text content =>
        rw [shadowMembers, Value.nestingMembers, nestingMembers, nesting_shadow item,
          nestingMembers_shadow rest]
        simp [nesting]
    | _ =>
        simp only [shadowMembers, Value.nestingMembers, nestingMembers, nesting_shadow item,
          nestingMembers_shadow rest, here, max_assoc]

end

theorem lookup_map_snd {β : Type} (f : α → β) (members : List (String × α)) (s : String) :
    (members.map fun member => (member.1, f member.2)).lookup s = (members.lookup s).map f := by
  induction members with
  | nil => rfl
  | cons member rest ih =>
      obtain ⟨other, item⟩ := member
      simp only [List.map_cons, List.lookup_cons]
      split
      · rfl
      · exact ih

section

variable {names : List String} {datum : Datum} {slots : List (Option Datum)}

theorem Fills.shadow (fills : datum.Fills names slots) :
    datum.shadow.Fills names (slots.map (Option.map Datum.shadow)) := by
  cases fills with
  | @named members once =>
      rw [shadow_keyed]
      apply Value.Fills.of_lookup
      · intro s member
        rw [List.map_map]
        exact once s member
      · rw [List.map_map]
        exact List.map_congr_left fun s _ => lookup_map_snd Datum.shadow members s
  | @listed items short =>
      have filled : (Value.array (items.map Datum.shadow)).Fills names _ :=
        .listed (by rwa [List.length_map])
      rw [Datum.shadow, shadowItems_eq_map]
      simpa using filled

theorem Gives.shadow {gives : Value → α → Prop} {x : α} (given : datum.Gives gives x) :
    gives datum.shadow x := by
  obtain ⟨v, rfl, given⟩ := given
  rwa [shadow_ofValue]

theorem GivesList.shadow {each : Datum → α → Prop} {each' : Value → α → Prop} {xs : List α}
    (imp : ∀ item x, each item x → each' item.shadow x) (given : datum.GivesList each xs) :
    datum.shadow.GivesList each' xs := by
  obtain ⟨items, rfl, all⟩ := given
  refine ⟨items.map Datum.shadow, ?_, ?_⟩
  · rw [Datum.shadow, shadowItems_eq_map]
  · exact List.forall₂_map_left_iff.2 (all.imp imp)

theorem GivesOr.shadow {default : α} {each : Datum → α → Prop} {each' : Value → α → Prop}
    {slot : Option Datum} {x : α} (imp : ∀ item, each item x → each' item.shadow x)
    (given : GivesOr default each slot x) :
    Value.GivesOr default each' (slot.map Datum.shadow) x := by
  cases slot with
  | none =>
      cases given
      exact .absent
  | some item => exact .given (imp item given)

theorem GivesInput.shadow {input : Input} (given : datum.GivesInput input) :
    datum.shadow.GivesInput input := by
  obtain ⟨name, parents, fills, named, ids⟩ := given
  refine ⟨name.shadow, parents.map Datum.shadow, fills.shadow, named.shadow, ?_⟩
  apply ids.shadow
  intro list
  exact GivesList.shadow fun _ _ => Gives.shadow

theorem GivesNode.shadow {node : NodeDescription} (given : datum.GivesNode node) :
    datum.shadow.GivesNode true node := by
  obtain ⟨id, kind, inputs, attributes, fills, number, named, list, object⟩ := given
  refine ⟨id.shadow, kind.shadow, inputs.map Datum.shadow, attributes.map Datum.shadow,
    fills.shadow, number.shadow, named.shadow, ?_, ?_⟩
  · apply list.shadow
    intro list
    exact GivesList.shadow fun _ _ => GivesInput.shadow
  · exact object.shadow fun _ => Gives.shadow

theorem Describes.shadow {description : ModelDescription} (describes : datum.Describes description) :
    datum.shadow.Describes true description := by
  obtain ⟨nodes, fills, given⟩ := describes
  exact ⟨nodes.shadow, fills.shadow, given.shadow fun _ _ => GivesNode.shadow⟩

end

section

variable {names : List String} {v : Value} {slots : List (Option Value)}

theorem keyed_ofValue (members : List (String × Value)) :
    keyed (members.map fun entry => (entry.1, ofValue entry.2)) = ofValue (.object members) := by
  rw [ofValue, ofMembers_eq_map, keyed, List.map_map]
  rfl

theorem fills_ofValue (fills : v.Fills names slots) :
    (ofValue v).Fills names (slots.map (Option.map ofValue)) := by
  cases fills with
  | @named members once =>
      rw [← keyed_ofValue]
      apply Fills.of_lookup
      · intro s member
        rw [List.map_map]
        exact once s member
      · rw [List.map_map]
        exact List.map_congr_left fun s _ => lookup_map_snd ofValue members s
  | @listed items short =>
      have filled : (Datum.list (items.map ofValue)).Fills names _ :=
        .listed (by rwa [List.length_map])
      rw [ofValue, ofItems_eq_map]
      simpa using filled

theorem givesList_ofValue {each : Value → α → Prop} {each' : Datum → α → Prop} {xs : List α}
    (imp : ∀ item x, each item x → each' (ofValue item) x) (given : v.GivesList each xs) :
    (ofValue v).GivesList each' xs := by
  obtain ⟨items, rfl, all⟩ := given
  refine ⟨items.map ofValue, ?_, ?_⟩
  · rw [ofValue, ofItems_eq_map]
  · exact List.forall₂_map_left_iff.2 (all.imp imp)

theorem givesOr_ofValue {default : α} {each : Value → α → Prop} {each' : Datum → α → Prop}
    {slot : Option Value} {x : α} (imp : ∀ item, each item x → each' (ofValue item) x)
    (given : Value.GivesOr default each slot x) :
    GivesOr default each' (slot.map ofValue) x := by
  cases given with
  | given given => exact imp _ given
  | absent => rfl

theorem givesInput_ofValue {input : Input} (given : v.GivesInput input) :
    (ofValue v).GivesInput input := by
  obtain ⟨name, parents, fills, named, ids⟩ := given
  refine ⟨ofValue name, parents.map ofValue, fills_ofValue fills, ⟨name, rfl, named⟩, ?_⟩
  apply givesOr_ofValue _ ids
  intro list
  exact givesList_ofValue fun id _ given => ⟨id, rfl, given⟩

theorem givesNode_ofValue {node : NodeDescription} (given : v.GivesNode true node) :
    (ofValue v).GivesNode node := by
  obtain ⟨id, kind, inputs, attributes, fills, number, named, list, object⟩ := given
  refine ⟨ofValue id, ofValue kind, inputs.map ofValue, attributes.map ofValue,
    fills_ofValue fills, ⟨id, rfl, number⟩, ⟨kind, rfl, named⟩, ?_, ?_⟩
  · apply givesOr_ofValue _ list
    intro list
    exact givesList_ofValue fun _ _ => givesInput_ofValue
  · exact givesOr_ofValue (fun given object => ⟨given, rfl, object⟩) object

/-- A value is a document of just the descriptions that it describes as a tree. -/
theorem describes_ofValue_iff {description : ModelDescription} :
    (ofValue v).Describes description ↔ v.Describes true description := by
  constructor
  · intro describes
    have shadowed := describes.shadow
    rwa [shadow_ofValue] at shadowed
  · intro describes
    obtain ⟨nodes, fills, given⟩ := describes
    exact ⟨ofValue nodes, fills_ofValue fills, givesList_ofValue (fun _ _ => givesNode_ofValue) given⟩

end

end Datum

end Dataflow.MessagePack

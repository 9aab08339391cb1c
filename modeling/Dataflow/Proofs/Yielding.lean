import Dataflow.Proofs.Reading

/-! # What a reader can yield

A reader has only so many levels to spend and takes only such lengths as its format can tell, and
what it yields shows this. Main statement: a description that is read nests within the levels, and
its texts and lists keep within the bounds of the format.
-/

namespace Dataflow

namespace Value

theorem normalizeItems_eq_map (items : List Value) : normalizeItems items = items.map normalize := by
  induction items with
  | nil => rfl
  | cons item rest ih => rw [normalizeItems, ih, List.map_cons]

theorem mem_normalizeMembers {done members : List (String × Value)} {entry : String × Value}
    (member : entry ∈ normalizeMembers done members) :
    entry ∈ done ∨ ∃ given ∈ members, entry = (given.1, given.2.normalize) := by
  induction members generalizing done with
  | nil => exact .inl member
  | cons head rest ih =>
      obtain ⟨key, value⟩ := head
      obtain inside | ⟨given, later, rfl⟩ := ih member
      · obtain rfl | old := mem_insertMember inside
        · exact .inr ⟨(key, value), List.mem_cons_self, rfl⟩
        · exact .inl old
      · exact .inr ⟨given, List.mem_cons_of_mem _ later, rfl⟩

theorem length_insertMember_le (key : String) (value : Value) (members : List (String × Value)) :
    (insertMember key value members).length ≤ members.length + 1 := by
  induction members with
  | nil => exact le_rfl
  | cons head rest ih =>
      unfold insertMember
      split_ifs
      · exact le_rfl
      · exact Nat.le_succ _
      · exact Nat.succ_le_succ ih

theorem length_normalizeMembers_le (done members : List (String × Value)) :
    (normalizeMembers done members).length ≤ done.length + members.length := by
  induction members generalizing done with
  | nil => exact le_rfl
  | cons head rest ih =>
      have inserted := length_insertMember_le head.1 head.2.normalize done
      have others := ih (insertMember head.1 head.2.normalize done)
      change (normalizeMembers (insertMember head.1 head.2.normalize done) rest).length ≤ _
      rw [List.length_cons]
      omega

theorem nesting_normalize_le (value : Value) : value.normalize.nesting ≤ value.nesting := by
  induction value using Value.induction with
  | null | bool | int | double | string => exact le_rfl
  | array items ih =>
      apply Nat.succ_le_succ
      rw [normalizeItems_eq_map, nestingItems_le_iff, List.forall_mem_map]
      exact fun item member => (ih item member).trans (nestingItems_le_iff.1 le_rfl item member)
  | object members ih =>
      apply Nat.succ_le_succ
      rw [nestingMembers_le_iff]
      intro entry member
      obtain ⟨⟨⟩⟩ | ⟨given, inside, rfl⟩ := mem_normalizeMembers member
      exact (ih given inside).trans (nestingMembers_le_iff.1 le_rfl given inside)

theorem nestingMembers_normalizeMembers_le (members : List (String × Value)) :
    nestingMembers (normalizeMembers [] members) ≤ nestingMembers members :=
  Nat.le_of_succ_le_succ (nesting_normalize_le (.object members))

end Value

/-- What a format asks of the texts, lists and attributes that it can tell. -/
structure Bounds where
  text : String → Prop
  length : Nat → Prop
  members : List (String × Value) → Prop

/-- What a part that is left out stands for is within the bounds. -/
structure Bounds.AllowEmpty (bounds : Bounds) : Prop where
  length : bounds.length 0
  members : bounds.members []

/-- What a reader of `α` can yield with so many levels left. -/
structure Yield (bounds : Bounds) (α : Type) where
  holds : (levels : Nat) → α → Prop

namespace Yield

variable {bounds : Bounds} {α β δ : Type}

/-- The drafts that come of changes that the fields can yield. -/
inductive Drafts (fields : List (Field (Yield bounds) δ)) (levels : Nat) (blank : δ) : δ → Prop where
  | blank : Drafts fields levels blank blank
  | change {draft : δ} {field : Field (Yield bounds) δ} {change : δ → δ} :
      Drafts fields levels blank draft → field ∈ fields → field.reader.holds levels change →
      Drafts fields levels blank (change draft)

instance : Readers (Yield bounds) where
  map f yield := ⟨fun levels y => ∃ x, yield.holds levels x ∧ f x = y⟩
  unsigned := ⟨fun _ _ => True⟩
  text := ⟨fun _ s => bounds.text s⟩
  attributes := ⟨fun levels attributes => Value.nestingMembers attributes.entries ≤ levels - 1 ∧
    bounds.members attributes.entries⟩
  list yield := ⟨fun levels xs => bounds.length xs.length ∧ ∀ x ∈ xs, yield.holds (levels - 1) x⟩
  record r := ⟨fun levels x =>
    ∃ draft, Drafts r.fields (levels - 1) r.blank draft ∧ r.finish draft = .ok x⟩
  choice _ := ⟨fun _ _ => True⟩

theorem Drafts.induct {fields : List (Field (Yield bounds) δ)} {levels : Nat} {blank draft : δ}
    (drafts : Drafts fields levels blank draft) (motive : δ → Prop) (start : motive blank)
    (step : ∀ field ∈ fields, ∀ change, field.reader.holds levels change →
      ∀ draft, motive draft → motive (change draft)) : motive draft := by
  induction drafts with
  | blank => exact start
  | change _ member given ih => exact step _ member _ given _ ih

/-- The texts and lists of an input keep within the bounds. -/
structure InputKept (bounds : Bounds) (input : Input) : Prop where
  name : bounds.text input.name
  parents : bounds.length input.parents.length

/-- So do those of a node, and its attributes nest within the levels. -/
structure NodeKept (bounds : Bounds) (levels : Nat) (node : NodeDescription) : Prop where
  kind : bounds.text node.kind
  inputs : bounds.length node.inputs.length
  input : ∀ input ∈ node.inputs, InputKept bounds input
  attributes : bounds.members node.attributes.entries
  nesting : Value.nestingMembers node.attributes.entries ≤ levels

structure DescriptionKept (bounds : Bounds) (levels : Nat) (description : ModelDescription) :
    Prop where
  nodes : bounds.length description.nodes.length
  node : ∀ node ∈ description.nodes, NodeKept bounds levels node

/-- A part that may be left out is kept either way. -/
theorem kept_getD {kept : α → Prop} {part : Option α} (given : ∀ x, part = some x → kept x)
    (missing : α) (empty : kept missing) : kept (part.getD missing) := by
  cases part with
  | none => exact empty
  | some x => exact given x rfl

variable (empty : bounds.AllowEmpty)

include empty

theorem inputKept {levels : Nat} {input : Input}
    (yielded : (Document.reader : Yield bounds Input).holds levels input) :
    InputKept bounds input := by
  obtain ⟨draft, drafts, finished⟩ := yielded
  have kept := drafts.induct (fun draft =>
    (∀ s, draft.name = some s → bounds.text s) ∧
      ∀ ids, draft.parents = some ids → bounds.length ids.length) (by simp [inputRecord]) (by
    simp only [inputRecord, List.forall_mem_cons]
    refine ⟨?_, ?_, List.forall_mem_nil _⟩
    · rintro _ ⟨s, given, rfl⟩ draft ⟨-, parents⟩
      exact ⟨by rintro _ ⟨⟩; exact given, parents⟩
    · rintro _ ⟨ids, given, rfl⟩ draft ⟨name, -⟩
      exact ⟨name, by rintro _ ⟨⟩; exact given.1⟩)
  obtain ⟨_ | name, parents⟩ := draft
  · cases finished
  · cases finished
    exact ⟨kept.1 name rfl, kept_getD kept.2 [] empty.length⟩

theorem nodeKept {levels : Nat} {node : NodeDescription}
    (yielded : (Document.reader : Yield bounds NodeDescription).holds levels node) :
    NodeKept bounds (levels - 2) node := by
  obtain ⟨draft, drafts, finished⟩ := yielded
  have kept := drafts.induct (fun draft =>
    (∀ s, draft.kind = some s → bounds.text s) ∧
      (∀ inputs, draft.inputs = some inputs →
        bounds.length inputs.length ∧ ∀ input ∈ inputs, InputKept bounds input) ∧
      ∀ attributes, draft.attributes = some attributes →
        Value.nestingMembers attributes.entries ≤ levels - 2 ∧ bounds.members attributes.entries)
    (by simp [nodeRecord]) (by
    simp only [nodeRecord, List.forall_mem_cons]
    refine ⟨?_, ?_, ?_, ?_, List.forall_mem_nil _⟩
    · rintro _ ⟨id, -, rfl⟩ draft kept
      exact kept
    · rintro _ ⟨s, given, rfl⟩ draft ⟨-, others⟩
      exact ⟨by rintro _ ⟨⟩; exact given, others⟩
    · rintro _ ⟨inputs, ⟨length, each⟩, rfl⟩ draft ⟨kind, -, attributes⟩
      refine ⟨kind, ?_, attributes⟩
      rintro _ ⟨⟩
      exact ⟨length, fun input member => inputKept empty (each input member)⟩
    · rintro _ ⟨attributes, given, rfl⟩ draft ⟨kind, inputs, -⟩
      exact ⟨kind, inputs, by rintro _ ⟨⟩; exact given⟩)
  obtain ⟨_ | id, _ | kind, inputs, attributes⟩ := draft
  · cases finished
  · cases finished
  · cases finished
  · cases finished
    obtain ⟨kept, keptInputs, keptAttributes⟩ := kept
    obtain ⟨length, each⟩ := kept_getD keptInputs [] ⟨empty.length, List.forall_mem_nil _⟩
    obtain ⟨nesting, members⟩ := kept_getD keptAttributes .empty ⟨Nat.zero_le _, empty.members⟩
    exact ⟨kept kind rfl, length, each, members, nesting⟩

/-- What is read of a description nests within the levels, of which four are spent around the values
    of attributes, and keeps within the bounds of the format. -/
theorem descriptionKept {levels : Nat} {description : ModelDescription}
    (yielded : (Document.reader : Yield bounds ModelDescription).holds levels description) :
    DescriptionKept bounds (levels - 4) description := by
  obtain ⟨draft, drafts, finished⟩ := yielded
  have kept := drafts.induct (fun draft => ∀ nodes, draft.nodes = some nodes →
    bounds.length nodes.length ∧ ∀ node ∈ nodes, NodeKept bounds (levels - 4) node)
    (by simp [modelRecord]) (by
    simp only [modelRecord, List.forall_mem_singleton]
    rintro _ ⟨nodes, ⟨length, each⟩, rfl⟩ draft - _ ⟨⟩
    exact ⟨length, fun node member => nodeKept empty (each node member)⟩)
  obtain ⟨_ | nodes⟩ := draft
  · cases finished
  · cases finished
    obtain ⟨length, each⟩ := kept nodes rfl
    exact ⟨length, each⟩

end Yield

theorem Yield.DescriptionKept.nestsWithin {bounds : Bounds} {levels : Nat}
    {description : ModelDescription} (kept : DescriptionKept bounds levels description) :
    description.NestsWithin levels :=
  ModelDescription.nestsWithin_iff.2 fun node member => (kept.node node member).nesting

end Dataflow

import Dataflow.Proofs.Extending
import Dataflow.Proofs.Yielding
import Dataflow.Json.Reader

/-! # What can be read of a JSON text

Every list and object that is kept takes one of the levels. Main statement: a description that is
decoded nests within the levels of the reader.
-/

namespace Dataflow.Json

variable {α β δ σ : Type}

/-- JSON has no bounds on texts and lengths. -/
def bounds : Bounds where
  text _ := True
  length _ := True
  members _ := True

theorem allowEmpty : bounds.AllowEmpty := ⟨trivial, trivial⟩

theorem forall_listEntries {entry : Bytes → Except Error (α × Bytes)} {kept : α → Prop}
    (each : ∀ bytes x left, entry bytes = .ok (x, left) → kept x) {clock : Bytes} {first : Bool}
    {done xs : List α} {bytes left : Bytes}
    (read : listEntries entry clock first done bytes = .ok (xs, left)) (before : ∀ x ∈ done, kept x) :
    ∀ x ∈ xs, kept x := by
  induction clock generalizing first done bytes with
  | nil => cases read
  | cons tick clock ih =>
      obtain ⟨way, -, read⟩ := Except.bind_eq_ok_iff.1 read
      cases way with
      | closed rest =>
          cases read
          simpa using before
      | entry bytes =>
          obtain ⟨⟨x, rest⟩, found, read⟩ := Except.bind_eq_ok_iff.1 read
          exact ih read (List.forall_mem_cons.2 ⟨each _ _ _ found, before⟩)

theorem objectMembers_induct {member : σ → String → Bytes → Except Error (σ × Bytes)}
    (motive : σ → Prop)
    (each : ∀ state name bytes next left, member state name bytes = .ok (next, left) →
      motive state → motive next)
    {clock : Bytes} {first : Bool} {state last : σ} {bytes left : Bytes}
    (read : objectMembers member clock first state bytes = .ok (last, left))
    (before : motive state) : motive last := by
  induction clock generalizing first state bytes with
  | nil => cases read
  | cons tick clock ih =>
      obtain ⟨way, -, read⟩ := Except.bind_eq_ok_iff.1 read
      cases way with
      | closed rest =>
          cases read
          exact before
      | entry bytes =>
          obtain ⟨⟨name, rest⟩, -, read⟩ := Except.bind_eq_ok_iff.1 read
          obtain ⟨⟨next, rest'⟩, found, read⟩ := Except.bind_eq_ok_iff.1 read
          exact ih read (each _ _ _ _ _ found before)

theorem forall_keptMember {value : Bytes → Except Error (Value × Bytes)} {kept : Value → Prop}
    (each : ∀ bytes v left, value bytes = .ok (v, left) → kept v)
    {done members : List (String × Value)} {name : String} {bytes left : Bytes}
    (read : keptMember value done name bytes = .ok (members, left))
    (before : ∀ entry ∈ done, kept entry.2) : ∀ entry ∈ members, kept entry.2 := by
  obtain ⟨rest, -, read⟩ := Except.bind_eq_ok_iff.1 read
  obtain ⟨⟨v, rest'⟩, found, same⟩ := Except.bind_eq_ok_iff.1 read
  cases same
  exact List.forall_mem_cons.2 ⟨each _ _ _ found, before⟩

/-- A value is a scalar, or a list or object whose entries are read with the inner reader. -/
theorem valueOver_cases {inner : Option (Bytes → Except Error (Value × Bytes))}
    {bytes left : Bytes} {v : Value} (read : valueOver inner bytes = .ok (v, left)) :
    v.nesting = 0 ∨ ∃ value rest, inner = some value ∧
      ((∃ items, v = .array items ∧ listEntries value rest true [] rest = .ok (items, left)) ∨
        ∃ members, v = .object members.reverse ∧
          objectMembers (keptMember value) rest true [] rest = .ok (members, left)) := by
  obtain ⟨⟨token, rest⟩, -, read⟩ := Except.bind_eq_ok_iff.1 read
  cases token with
  | null | bool | text =>
      cases read
      exact .inl rfl
  | number n =>
      cases n <;> cases read <;> exact .inl rfl
  | opening bracket =>
      cases inner with
      | none => cases bracket <;> cases read
      | some value =>
          refine .inr ⟨value, rest, rfl, ?_⟩
          cases bracket with
          | list =>
              obtain ⟨⟨items, rest'⟩, found, same⟩ := Except.bind_eq_ok_iff.1 read
              cases same
              exact .inl ⟨items, rfl, found⟩
          | object =>
              obtain ⟨⟨members, rest'⟩, found, same⟩ := Except.bind_eq_ok_iff.1 read
              cases same
              exact .inr ⟨members, rfl, found⟩

theorem nesting_le_of_value {levels : Nat} {bytes left : Bytes} {v : Value}
    (read : value levels bytes = .ok (v, left)) : v.nesting ≤ levels := by
  induction levels generalizing bytes left v with
  | zero =>
      obtain scalar | ⟨_, _, ⟨⟩, -⟩ := valueOver_cases read
      exact scalar.le
  | succ levels ih =>
      obtain scalar | ⟨_, rest, ⟨⟩, ⟨items, rfl, found⟩ | ⟨members, rfl, found⟩⟩ :=
        valueOver_cases read
      · exact scalar.le.trans (Nat.zero_le _)
      · apply Nat.succ_le_succ
        rw [Value.nestingItems_le_iff]
        exact forall_listEntries (fun _ _ _ => ih) found (List.forall_mem_nil _)
      · apply Nat.succ_le_succ
        rw [Value.nestingMembers_le_iff]
        have all := objectMembers_induct (fun members => ∀ entry ∈ members, entry.2.nesting ≤ levels)
          (fun _ _ _ _ _ => forall_keptMember fun _ _ _ => ih) found (List.forall_mem_nil _)
        simpa using all

/-- All that the reader can yield is expected of it. -/
def Yields (α : Type) (reader : Reader α) (yield : Yield bounds α) : Prop :=
  ∀ levels bytes x left, reader.run levels bytes = .ok (x, left) → yield.holds levels x

theorem enter_eq_ok {levels inner : Nat} (entered : enter levels = .ok inner) :
    inner = levels - 1 := by
  cases levels <;> cases entered
  rfl

theorem yields_map (f : α → β) {reader : Reader α} {yield : Yield bounds α}
    (yields : Yields α reader yield) : Yields β (Readers.map f reader) (Readers.map f yield) := by
  intro levels bytes y left read
  obtain ⟨⟨x, rest⟩, found, same⟩ := Except.bind_eq_ok_iff.1 read
  cases same
  exact ⟨x, yields levels bytes x left found, rfl⟩

theorem yields_attributes : Yields Attributes Readers.attributes Readers.attributes := by
  intro levels bytes a left read
  obtain ⟨⟨token, rest⟩, -, read⟩ := Except.bind_eq_ok_iff.1 read
  cases token with
  | opening bracket =>
      cases bracket with
      | list => cases read
      | object =>
          obtain ⟨inner, entered, read⟩ := Except.bind_eq_ok_iff.1 read
          obtain ⟨⟨members, rest'⟩, found, same⟩ := Except.bind_eq_ok_iff.1 read
          cases same
          refine ⟨(Value.nestingMembers_normalizeMembers_le _).trans ?_, trivial⟩
          rw [← enter_eq_ok entered, Value.nestingMembers_le_iff]
          have all := objectMembers_induct
            (fun members => ∀ entry ∈ members, entry.2.nesting ≤ inner)
            (fun _ _ _ _ _ => forall_keptMember fun _ _ _ => nesting_le_of_value) found
            (List.forall_mem_nil _)
          simpa using all
  | _ => cases read

theorem yields_list {reader : Reader α} {yield : Yield bounds α} (yields : Yields α reader yield) :
    Yields (List α) (Readers.list reader) (Readers.list yield) := by
  intro levels bytes xs left read
  obtain ⟨⟨token, rest⟩, -, read⟩ := Except.bind_eq_ok_iff.1 read
  cases token with
  | opening bracket =>
      cases bracket with
      | object => cases read
      | list =>
          obtain ⟨inner, entered, read⟩ := Except.bind_eq_ok_iff.1 read
          rw [enter_eq_ok entered] at read
          exact ⟨trivial, forall_listEntries (yields _) read (List.forall_mem_nil _)⟩
  | _ => cases read

section

variable {left : List (Field Reader δ)} {right : List (Field (Yield bounds) δ)}
  (corresponds : List.Forall₂ (Field.Corresponds Yields) left right)

include corresponds

theorem drafts_fieldMember {levels : Nat} {blank draft draft' : δ} {name : String}
    {bytes rest : Bytes}
    (read : Reader.fieldMember left levels draft name bytes = .ok (draft', rest))
    (drafts : Yield.Drafts right levels blank draft) :
    Yield.Drafts right levels blank draft' := by
  unfold Reader.fieldMember at read
  split at read
  · obtain ⟨_, -, read⟩ := Except.bind_eq_ok_iff.1 read
    obtain ⟨_, -, same⟩ := Except.bind_eq_ok_iff.1 read
    cases same
    exact drafts
  · next field found =>
    obtain ⟨g, inside, same⟩ :=
      Field.exists_corresponds _ corresponds (List.mem_of_find?_eq_some found)
    split at read
    · cases read
    · obtain ⟨_, -, read⟩ := Except.bind_eq_ok_iff.1 read
      obtain ⟨⟨change, _⟩, given, ended⟩ := Except.bind_eq_ok_iff.1 read
      cases ended
      exact .change drafts inside (same.reader _ _ _ _ given)

theorem drafts_fieldItems {levels : Nat} {fields : List (Field Reader δ)}
    (inside : ∀ field ∈ fields, field ∈ left) {first : Bool} {blank draft draft' : δ}
    {bytes rest : Bytes}
    (read : Reader.fieldItems levels fields first draft bytes = .ok (draft', rest))
    (drafts : Yield.Drafts right levels blank draft) :
    Yield.Drafts right levels blank draft' := by
  induction fields generalizing first draft bytes with
  | nil =>
      unfold Reader.fieldItems at read
      split at read
      · cases read
      · split at read <;> cases read
        exact drafts
  | cons field fields ih =>
      obtain ⟨here, there⟩ := List.forall_mem_cons.1 inside
      obtain ⟨way, -, read⟩ := Except.bind_eq_ok_iff.1 read
      cases way with
      | closed =>
          cases read
          exact drafts
      | entry bytes =>
          obtain ⟨⟨change, _⟩, given, read⟩ := Except.bind_eq_ok_iff.1 read
          obtain ⟨g, member, same⟩ := Field.exists_corresponds _ corresponds here
          exact ih there read (.change drafts member (same.reader _ _ _ _ given))

end

theorem settle_eq_ok_iff {outcome : Except Violation α} {rest left : Bytes} {x : α} :
    Reader.settle outcome rest = .ok (x, left) ↔ outcome = .ok x ∧ rest = left := by
  cases outcome <;> simp [Reader.settle]

theorem yields_record {r : Record Reader δ α} {s : Record (Yield bounds) δ α}
    (corresponds : Record.Corresponds Yields r s) :
    Yields α (Readers.record r) (Readers.record s) := by
  intro levels bytes x left read
  obtain ⟨⟨token, rest⟩, -, read⟩ := Except.bind_eq_ok_iff.1 read
  cases token with
  | opening bracket =>
      cases bracket with
      | object =>
          obtain ⟨inner, entered, read⟩ := Except.bind_eq_ok_iff.1 read
          obtain ⟨⟨draft, rest'⟩, found, settled⟩ := Except.bind_eq_ok_iff.1 read
          rw [enter_eq_ok entered, corresponds.blank] at found
          refine ⟨draft, ?_, ?_⟩
          · exact objectMembers_induct _
              (fun _ _ _ _ _ => drafts_fieldMember corresponds.fields) found .blank
          · rw [← corresponds.finish]
            exact Except.mapError_eq_ok_iff.1 (settle_eq_ok_iff.1 settled).1
      | list =>
          obtain ⟨inner, entered, read⟩ := Except.bind_eq_ok_iff.1 read
          obtain ⟨⟨draft, rest'⟩, found, settled⟩ := Except.bind_eq_ok_iff.1 read
          rw [enter_eq_ok entered, corresponds.blank] at found
          refine ⟨draft, ?_, ?_⟩
          · exact drafts_fieldItems corresponds.fields (fun _ member => member) found .blank
          · rw [← corresponds.finish]
            exact Except.mapError_eq_ok_iff.1 (settle_eq_ok_iff.1 settled).1
  | _ => cases read

theorem simulates_yields : Simulates Yields where
  map := yields_map
  unsigned _ _ _ _ _ := trivial
  text _ _ _ _ _ := trivial
  attributes := yields_attributes
  list := yields_list
  record := yields_record

/-- A description that is decoded nests within the levels of the reader. -/
theorem nestsWithin_of_decode {bytes : Bytes} {description : ModelDescription}
    (decoded : decode bytes = .ok description) : description.NestsWithin 123 := by
  obtain ⟨⟨x, rest⟩, read, ended⟩ := Except.bind_eq_ok_iff.1 decoded
  have kept := Yield.descriptionKept allowEmpty (simulates_yields.description _ _ _ _ read)
  dsimp only at ended
  split at ended <;> cases ended
  exact kept.nestsWithin

end Dataflow.Json

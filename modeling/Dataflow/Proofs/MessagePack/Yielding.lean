import Dataflow.Proofs.MessagePack.Documents
import Dataflow.Proofs.Yielding

/-! # What can be read of a MessagePack document

A head tells a length with four bytes at most, so that whatever is read can be written again. Main
statements: a description that is decoded nests within the levels of the reader, and its lengths fit
the markers.
-/

namespace Dataflow

theorem Bytes.bigEndianValue_lt (bytes : Bytes) : bigEndianValue bytes < 256 ^ bytes.length := by
  induction bytes using List.reverseRecOn with
  | nil => decide
  | append_singleton bytes b ih =>
      rw [bigEndianValue_append, List.length_append, List.length_singleton, pow_succ]
      have small := b.toNat_lt
      omega

theorem Bytes.ofString_of_toString? {content : Bytes} {s : String}
    (spelled : toString? content = some s) : ofString s = content := by
  unfold toString? String.fromUTF8? at spelled
  split at spelled <;> cases spelled
  rfl

namespace MessagePack

variable {α β δ : Type}

/-- The lengths that a head tells are less than four bytes can count. -/
def Head.Sized : Head → Prop
  | text content | bytes content => content.length < 0x100000000
  | list count | map count => count < 0x100000000
  | _ => True

theorem length_of_takeBytes {count : Nat} {bytes content left : Bytes}
    (taken : takeBytes count bytes = .ok (content, left)) : content.length = count := by
  unfold takeBytes at taken
  dsimp only at taken
  split at taken <;> cases taken
  assumption

theorem lt_of_takeNat {width n : Nat} {bytes left : Bytes}
    (taken : takeNat width bytes = .ok (n, left)) : n < 256 ^ width := by
  obtain ⟨⟨content, rest⟩, found, same⟩ := Except.bind_eq_ok_iff.1 taken
  cases same
  rw [← length_of_takeBytes found]
  exact Bytes.bigEndianValue_lt content

theorem sized_of_numberHead {width : Nat} {f : Nat → Head} {bytes left : Bytes} {h : Head}
    (read : numberHead width f bytes = .ok (h, left)) (each : ∀ n < 256 ^ width, (f n).Sized) :
    h.Sized := by
  obtain ⟨⟨n, rest⟩, taken, same⟩ := Except.bind_eq_ok_iff.1 read
  cases same
  exact each n (lt_of_takeNat taken)

theorem sized_of_contentHead {size : Nat} {f : Bytes → Head} {bytes left : Bytes} {h : Head}
    (read : contentHead size f bytes = .ok (h, left))
    (each : ∀ content : Bytes, content.length = size → (f content).Sized) : h.Sized := by
  obtain ⟨⟨content, rest⟩, taken, same⟩ := Except.bind_eq_ok_iff.1 read
  cases same
  exact each content (length_of_takeBytes taken)

theorem sized_of_sizedHead {width : Nat} {f : Bytes → Head} {bytes left : Bytes} {h : Head}
    (read : sizedHead width f bytes = .ok (h, left))
    (each : ∀ content : Bytes, content.length < 256 ^ width → (f content).Sized) : h.Sized := by
  obtain ⟨⟨size, rest⟩, taken, read⟩ := Except.bind_eq_ok_iff.1 read
  exact sized_of_contentHead read fun content length =>
    each content (length ▸ lt_of_takeNat taken)

theorem sized_of_headOf {marker : UInt8} {bytes left : Bytes} {h : Head}
    (read : headOf marker bytes = .ok (h, left)) : h.Sized := by
  have byte := marker.toNat_lt
  unfold headOf at read
  dsimp only at read
  generalize marker.toNat = m at read byte
  split at read
  · cases read
    trivial
  split at read
  · cases read
    simp only [Head.Sized]
    omega
  split at read
  · cases read
    simp only [Head.Sized]
    omega
  split at read
  · refine sized_of_contentHead read fun content length => ?_
    simp only [Head.Sized]
    omega
  split at read
  all_goals first
    | (cases read <;> trivial)
    | exact sized_of_numberHead read fun _ _ => trivial
    | exact sized_of_numberHead read fun n small => small.trans_le (by decide)
    | exact sized_of_sizedHead read fun content small => small.trans_le (by decide)

theorem sized_of_head {bytes left : Bytes} {h : Head} (read : head bytes = .ok (h, left)) :
    h.Sized := by
  cases bytes with
  | nil => cases read
  | cons marker bytes => exact sized_of_headOf read

theorem sizedItems_iff {items : List Value} : SizedItems items ↔ ∀ item ∈ items, Sized item := by
  induction items with
  | nil => simp [SizedItems]
  | cons item rest ih => simp [SizedItems, ih]

/-- A member whose name and value fit the markers. -/
def SizedEntry (entry : String × Value) : Prop :=
  (Bytes.ofString entry.1).length < 0x100000000 ∧ Sized entry.2

theorem sizedMembers_iff {members : List (String × Value)} :
    SizedMembers members ↔ ∀ entry ∈ members, SizedEntry entry := by
  induction members with
  | nil => simp [SizedMembers]
  | cons entry rest ih => simp [SizedMembers, SizedEntry, ih, and_assoc]

theorem sized_normalizeMembers {members : List (String × Value)}
    (length : members.length < 0x100000000)
    (each : ∀ entry ∈ members, SizedEntry (entry.1, entry.2.normalize)) :
    Sized (.object (Value.normalizeMembers [] members)) := by
  refine ⟨(Value.length_normalizeMembers_le [] members).trans_lt (by simpa using length), ?_⟩
  rw [sizedMembers_iff]
  intro entry member
  obtain ⟨⟨⟩⟩ | ⟨given, inside, rfl⟩ := Value.mem_normalizeMembers member
  exact each given inside

theorem sized_normalize {value : Value} (sized : Sized value) : Sized value.normalize := by
  induction value using Value.induction with
  | null | bool | int | double | string => exact sized
  | array items ih =>
      obtain ⟨length, each⟩ := sized
      rw [sizedItems_iff] at each
      change (Value.normalizeItems items).length < _ ∧ SizedItems (Value.normalizeItems items)
      rw [Value.normalizeItems_eq_map, List.length_map, sizedItems_iff, List.forall_mem_map]
      exact ⟨length, fun item member => ih item member (each item member)⟩
  | object members ih =>
      obtain ⟨length, each⟩ := sized
      rw [sizedMembers_iff] at each
      exact sized_normalizeMembers length fun entry member =>
        ⟨(each entry member).1, ih entry member (each entry member).2⟩

theorem textOf_eq_ok {content : Bytes} {s : String} (read : textOf content = .ok s) :
    Bytes.ofString s = content := by
  unfold textOf at read
  split at read <;> cases read
  exact Bytes.ofString_of_toString? ‹_›

theorem not_refuse {h : Head} {levels : Nat} {expected : Expected} {x : α}
    (read : h.refuse levels expected = .ok x) : False := by
  have none := toOption_refuse (α := α) h levels expected
  rw [read] at none
  cases none

theorem length_lt_of_text {levels : Nat} {bytes left : Bytes} {s : String}
    (read : text levels bytes = .ok (s, left)) : (Bytes.ofString s).length < 0x100000000 := by
  obtain ⟨⟨h, rest⟩, found, read⟩ := Except.bind_eq_ok_iff.1 read
  have sized := sized_of_head found
  cases h with
  | text content =>
      obtain ⟨s, spelled, same⟩ := Except.bind_eq_ok_iff.1 read
      cases same
      rwa [textOf_eq_ok spelled]
  | bytes content =>
      dsimp only at read
      split at read <;> cases read
      rwa [Bytes.ofString_of_toString? ‹_›]
  | _ => exact (not_refuse read).elim

theorem length_lt_of_objectKey {levels : Nat} {bytes left : Bytes} {s : String}
    (read : objectKey levels bytes = .ok (s, left)) : (Bytes.ofString s).length < 0x100000000 := by
  obtain ⟨⟨h, rest⟩, found, read⟩ := Except.bind_eq_ok_iff.1 read
  have sized := sized_of_head found
  cases h with
  | text content =>
      obtain ⟨s, spelled, same⟩ := Except.bind_eq_ok_iff.1 read
      cases same
      rwa [textOf_eq_ok spelled]
  | _ => exact (not_refuse read).elim

/-- As many entries are read as announced. -/
theorem entries_eq_ok {entry : Bytes → Except Error (α × Bytes)} {kept : α → Prop}
    (each : ∀ bytes x left, entry bytes = .ok (x, left) → kept x) {count : Nat} {done xs : List α}
    {bytes left : Bytes} (read : entries entry count done bytes = .ok (xs, left))
    (before : ∀ x ∈ done, kept x) : xs.length = done.length + count ∧ ∀ x ∈ xs, kept x := by
  induction count generalizing done bytes with
  | zero =>
      cases read
      simpa using before
  | succ count ih =>
      obtain ⟨⟨x, rest⟩, found, read⟩ := Except.bind_eq_ok_iff.1 read
      obtain ⟨length, all⟩ := ih read (List.forall_mem_cons.2 ⟨each _ _ _ found, before⟩)
      rw [List.length_cons] at length
      exact ⟨by omega, all⟩

/-- What is kept of a member: its name fits the markers, and its value is kept. -/
theorem member_eq_ok {key : Bytes → Except Error (String × Bytes)}
    {value : Bytes → Except Error (Value × Bytes)} {kept : Value → Prop}
    (keys : ∀ bytes s left, key bytes = .ok (s, left) → (Bytes.ofString s).length < 0x100000000)
    (values : ∀ bytes v left, value bytes = .ok (v, left) → kept v) {entry : String × Value}
    {bytes left : Bytes} (read : member key value bytes = .ok (entry, left)) :
    (Bytes.ofString entry.1).length < 0x100000000 ∧ kept entry.2 := by
  obtain ⟨⟨name, rest⟩, named, read⟩ := Except.bind_eq_ok_iff.1 read
  obtain ⟨⟨v, rest'⟩, found, same⟩ := Except.bind_eq_ok_iff.1 read
  cases same
  exact ⟨keys _ _ _ named, values _ _ _ found⟩

theorem objectMembers_eq_ok {levels count : Nat} {value : Bytes → Except Error (Value × Bytes)}
    {kept : Value → Prop} (values : ∀ bytes v left, value bytes = .ok (v, left) → kept v)
    {members : List (String × Value)} {bytes left : Bytes}
    (read : objectMembers levels count value bytes = .ok (members, left)) :
    members.length = count ∧
      ∀ entry ∈ members, (Bytes.ofString entry.1).length < 0x100000000 ∧ kept entry.2 := by
  cases count with
  | zero =>
      cases read
      simp
  | succ count =>
      obtain ⟨⟨first, rest⟩, found, read⟩ := Except.bind_eq_ok_iff.1 read
      have before := member_eq_ok (fun _ _ _ => length_lt_of_objectKey) values found
      obtain ⟨length, all⟩ := entries_eq_ok
        (fun _ _ _ => member_eq_ok (fun _ _ _ => length_lt_of_text) values) read
        (List.forall_mem_singleton.2 before)
      rw [List.length_singleton] at length
      exact ⟨by omega, all⟩

/-- A value that is read nests within the levels and fits the markers. -/
structure Kept (levels : Nat) (v : Value) : Prop where
  nesting : v.nesting ≤ levels
  sized : Sized v

theorem Kept.array {levels : Nat} {items : List Value} (length : items.length < 0x100000000)
    (each : ∀ item ∈ items, Kept levels item) : Kept (levels + 1) (.array items) where
  nesting := Nat.succ_le_succ (Value.nestingItems_le_iff.2 fun item member =>
    (each item member).nesting)
  sized := ⟨length, sizedItems_iff.2 fun item member => (each item member).sized⟩

theorem Kept.object {levels : Nat} {members : List (String × Value)}
    (length : members.length < 0x100000000)
    (each : ∀ entry ∈ members,
      (Bytes.ofString entry.1).length < 0x100000000 ∧ Kept levels entry.2) :
    Kept (levels + 1) (.object members) where
  nesting := Nat.succ_le_succ (Value.nestingMembers_le_iff.2 fun entry member =>
    (each entry member).2.nesting)
  sized := ⟨length, sizedMembers_iff.2 fun entry member =>
    ⟨(each entry member).1, (each entry member).2.sized⟩⟩

theorem Kept.normalize {levels : Nat} {v : Value} (kept : Kept levels v) :
    Kept levels v.normalize :=
  ⟨(Value.nesting_normalize_le v).trans kept.nesting, sized_normalize kept.sized⟩

/-- A value is a scalar, or a list or object whose entries are read with the inner reader. -/
theorem valueOver_cases {inner : Option (Nat × (Bytes → Except Error (Value × Bytes)))}
    {bytes left : Bytes} {v : Value} (read : valueOver inner bytes = .ok (v, left)) :
    Kept 0 v ∨ ∃ levels value rest count, inner = some (levels, value) ∧ count < 0x100000000 ∧
      ((∃ items, v = .array items ∧ entries value count [] rest = .ok (items, left)) ∨
        ∃ members, v = .object members ∧
          objectMembers levels count value rest = .ok (members, left)) := by
  obtain ⟨⟨h, rest⟩, found, read⟩ := Except.bind_eq_ok_iff.1 read
  have sized := sized_of_head found
  cases h with
  | nil | bool | unsigned | signed =>
      cases read
      exact .inl ⟨le_rfl, trivial⟩
  | float x =>
      cases read
      cases x <;> exact .inl ⟨le_rfl, trivial⟩
  | text content =>
      obtain ⟨s, spelled, same⟩ := Except.bind_eq_ok_iff.1 read
      cases same
      refine .inl ⟨le_rfl, ?_⟩
      change (Bytes.ofString s).length < _
      rwa [textOf_eq_ok spelled]
  | bytes => cases read
  | extension => cases inner <;> cases read
  | list count =>
      obtain _ | ⟨levels, value⟩ := inner
      · cases read
      · obtain ⟨⟨items, rest'⟩, found, same⟩ := Except.bind_eq_ok_iff.1 read
        cases same
        exact .inr ⟨levels, value, rest, count, rfl, sized, .inl ⟨items, rfl, found⟩⟩
  | map count =>
      obtain _ | ⟨levels, value⟩ := inner
      · cases read
      · obtain ⟨⟨members, rest'⟩, found, same⟩ := Except.bind_eq_ok_iff.1 read
        cases same
        exact .inr ⟨levels, value, rest, count, rfl, sized, .inr ⟨members, rfl, found⟩⟩

theorem kept_of_value {levels : Nat} {bytes left : Bytes} {v : Value}
    (read : value levels bytes = .ok (v, left)) : Kept levels v := by
  induction levels generalizing bytes left v with
  | zero =>
      obtain scalar | ⟨_, _, _, _, ⟨⟩, -⟩ := valueOver_cases read
      exact scalar
  | succ levels ih =>
      obtain scalar | ⟨_, _, rest, count, ⟨⟩, small, ⟨items, rfl, found⟩ | ⟨members, rfl, found⟩⟩ :=
        valueOver_cases read
      · exact ⟨scalar.nesting.trans (Nat.zero_le _), scalar.sized⟩
      · obtain ⟨length, each⟩ := entries_eq_ok (fun _ _ _ => ih) found (List.forall_mem_nil _)
        exact .array (by simpa [length] using small) each
      · obtain ⟨length, each⟩ := objectMembers_eq_ok (fun _ _ _ => ih) found
        exact .object (length ▸ small) each

/-- The bounds of MessagePack: what can be told with four bytes. -/
def bounds : Bounds where
  text s := (Bytes.ofString s).length < 0x100000000
  length count := count < 0x100000000
  members members := Sized (.object members)

theorem allowEmpty : bounds.AllowEmpty := ⟨Nat.two_pow_pos 32, Nat.two_pow_pos 32, trivial⟩

/-- All that the reader can yield is expected of it. -/
structure Yields (α : Type) (reader : Reader α) (yield : Yield bounds α) : Prop where
  run : ∀ levels bytes x left, reader.run levels bytes = .ok (x, left) → yield.holds levels x
  byte : ∀ b x, reader.ofByte b = .ok x → ∀ levels, yield.holds levels x

theorem enter_eq_ok {levels inner : Nat} (entered : enter levels = .ok inner) :
    inner = levels - 1 := by
  cases levels <;> cases entered
  rfl

theorem settle_eq_ok_iff {outcome : Except Violation α} {rest left : Bytes} {x : α} :
    Reader.settle outcome rest = .ok (x, left) ↔ outcome = .ok x ∧ rest = left := by
  cases outcome <;> simp [Reader.settle]

theorem yields_map (f : α → β) {reader : Reader α} {yield : Yield bounds α}
    (yields : Yields α reader yield) : Yields β (Readers.map f reader) (Readers.map f yield) where
  run levels bytes y left read := by
    obtain ⟨⟨x, rest⟩, found, same⟩ := Except.bind_eq_ok_iff.1 read
    cases same
    exact ⟨x, yields.run levels bytes x left found, rfl⟩
  byte b y read levels := by
    obtain ⟨x, found, rfl⟩ := Except.map_eq_ok_iff.1 read
    exact ⟨x, yields.byte b x found levels, rfl⟩

theorem yields_text : Yields String Readers.text Readers.text where
  run _ _ _ _ read := length_lt_of_text read
  byte _ _ read := by cases read

theorem yields_attributes : Yields Attributes Readers.attributes Readers.attributes where
  run levels bytes a left read := by
    obtain ⟨⟨h, rest⟩, found, read⟩ := Except.bind_eq_ok_iff.1 read
    have sized := sized_of_head found
    cases h with
    | nil =>
        cases read
        exact ⟨Nat.zero_le _, allowEmpty.members⟩
    | map count =>
        obtain ⟨inner, entered, read⟩ := Except.bind_eq_ok_iff.1 read
        obtain ⟨⟨members, rest'⟩, found, same⟩ := Except.bind_eq_ok_iff.1 read
        cases same
        obtain ⟨length, each⟩ := entries_eq_ok
          (fun _ _ _ => member_eq_ok (fun _ _ _ => length_lt_of_text) fun _ _ _ => kept_of_value)
          found (List.forall_mem_nil _)
        have kept : Kept (inner + 1) (.object members) :=
          .object (by simpa [length, Head.Sized] using sized) each
        rw [enter_eq_ok entered] at kept
        exact ⟨Nat.le_of_succ_le_succ kept.normalize.nesting, kept.normalize.sized⟩
    | _ => exact (not_refuse read).elim
  byte _ _ read := by cases read

theorem mapM_eq_ok {ε : Type} {f : δ → Except ε α} {xs : List δ} {ys : List α}
    (mapped : xs.mapM f = .ok ys) : ys.length = xs.length ∧ ∀ y ∈ ys, ∃ x, f x = .ok y := by
  induction xs generalizing ys with
  | nil =>
      cases mapped
      simp
  | cons x xs ih =>
      rw [List.mapM_cons] at mapped
      obtain ⟨y, here, mapped⟩ := Except.bind_eq_ok_iff.1 mapped
      obtain ⟨ys, there, same⟩ := Except.bind_eq_ok_iff.1 mapped
      cases same
      obtain ⟨length, each⟩ := ih there
      exact ⟨congrArg Nat.succ length, List.forall_mem_cons.2 ⟨⟨x, here⟩, each⟩⟩

theorem yields_list {reader : Reader α} {yield : Yield bounds α} (yields : Yields α reader yield) :
    Yields (List α) (Readers.list reader) (Readers.list yield) where
  run levels bytes xs left read := by
    obtain ⟨⟨h, rest⟩, found, read⟩ := Except.bind_eq_ok_iff.1 read
    have sized := sized_of_head found
    cases h with
    | list count =>
        obtain ⟨inner, entered, read⟩ := Except.bind_eq_ok_iff.1 read
        rw [enter_eq_ok entered] at read
        obtain ⟨length, each⟩ := entries_eq_ok (yields.run _) read (List.forall_mem_nil _)
        exact ⟨show xs.length < _ by simpa [length, Head.Sized] using sized, each⟩
    | bytes content =>
        obtain ⟨length, each⟩ := mapM_eq_ok (settle_eq_ok_iff.1 read).1
        refine ⟨show xs.length < _ from length ▸ sized, fun x member => ?_⟩
        obtain ⟨b, same⟩ := each x member
        exact yields.byte b x same _
    | _ => exact (not_refuse read).elim
  byte _ _ read := by cases read

section

variable {left : List (Field Reader δ)} {right : List (Field (Yield bounds) δ)}
  (corresponds : List.Forall₂ (Field.Corresponds Yields) left right)

include corresponds

theorem drafts_fieldMembers {levels count : Nat} {blank draft draft' : δ} {bytes rest : Bytes}
    (read : Reader.fieldMembers left levels count draft bytes = .ok (draft', rest))
    (drafts : Yield.Drafts right levels blank draft) : Yield.Drafts right levels blank draft' := by
  induction count generalizing draft bytes with
  | zero =>
      cases read
      exact drafts
  | succ count ih =>
      obtain ⟨⟨_ | field, rest'⟩, found, read⟩ := Except.bind_eq_ok_iff.1 read
      · obtain ⟨_, -, read⟩ := Except.bind_eq_ok_iff.1 read
        exact ih read drafts
      · dsimp only at read
        split at read
        · cases read
        · obtain ⟨⟨change, _⟩, given, read⟩ := Except.bind_eq_ok_iff.1 read
          obtain ⟨g, member, same⟩ := Field.exists_corresponds _ corresponds (mem_of_keyField found)
          exact ih read (.change drafts member (same.reader.run _ _ _ _ given))

theorem drafts_fieldItems {levels : Nat} {fields : List (Field Reader δ)}
    (inside : ∀ field ∈ fields, field ∈ left) {count unread : Nat} {blank draft draft' : δ}
    {bytes rest : Bytes}
    (read : Reader.fieldItems levels fields count draft bytes = .ok (draft', unread, rest))
    (drafts : Yield.Drafts right levels blank draft) : Yield.Drafts right levels blank draft' := by
  induction fields generalizing count draft bytes with
  | nil =>
      cases read
      exact drafts
  | cons field fields ih =>
      obtain ⟨here, there⟩ := List.forall_mem_cons.1 inside
      cases count with
      | zero =>
          cases read
          exact drafts
      | succ count =>
          obtain ⟨⟨change, _⟩, given, read⟩ := Except.bind_eq_ok_iff.1 read
          obtain ⟨g, member, same⟩ := Field.exists_corresponds _ corresponds here
          exact ih there read (.change drafts member (same.reader.run _ _ _ _ given))

theorem drafts_fieldBytes (levels : Nat) {fields : List (Field Reader δ)}
    (inside : ∀ field ∈ fields, field ∈ left) {blank draft draft' : δ} {content : Bytes}
    (read : Reader.fieldBytes fields content draft = .ok draft')
    (drafts : Yield.Drafts right levels blank draft) : Yield.Drafts right levels blank draft' := by
  induction fields generalizing draft content with
  | nil =>
      cases read
      exact drafts
  | cons field fields ih =>
      obtain ⟨here, there⟩ := List.forall_mem_cons.1 inside
      cases content with
      | nil =>
          cases read
          exact drafts
      | cons b content =>
          obtain ⟨change, given, read⟩ := Except.bind_eq_ok_iff.1 read
          obtain ⟨g, member, same⟩ := Field.exists_corresponds _ corresponds here
          exact ih there read (.change drafts member (same.reader.byte _ _ given _))

end

theorem yields_record {r : Record Reader δ α} {s : Record (Yield bounds) δ α}
    (corresponds : Record.Corresponds Yields r s) :
    Yields α (Readers.record r) (Readers.record s) where
  run levels bytes x left read := by
    have finished {draft : δ} (finish : r.finish draft = .ok x)
        (drafts : Yield.Drafts s.fields (levels - 1) r.blank draft) :
        (Readers.record s).holds levels x :=
      ⟨draft, corresponds.blank ▸ drafts, corresponds.finish ▸ finish⟩
    obtain ⟨⟨h, rest⟩, -, read⟩ := Except.bind_eq_ok_iff.1 read
    cases h with
    | map count =>
        obtain ⟨inner, entered, read⟩ := Except.bind_eq_ok_iff.1 read
        obtain ⟨⟨draft, rest'⟩, found, settled⟩ := Except.bind_eq_ok_iff.1 read
        rw [enter_eq_ok entered] at found
        exact finished (Except.mapError_eq_ok_iff.1 (settle_eq_ok_iff.1 settled).1)
          (drafts_fieldMembers corresponds.fields found .blank)
    | list count =>
        obtain ⟨inner, entered, read⟩ := Except.bind_eq_ok_iff.1 read
        obtain ⟨⟨draft, unread, rest'⟩, found, read⟩ := Except.bind_eq_ok_iff.1 read
        obtain ⟨⟨y, rest''⟩, settled, read⟩ := Except.bind_eq_ok_iff.1 read
        dsimp only at read
        split at read <;> cases read
        rw [enter_eq_ok entered] at found
        exact finished (Except.mapError_eq_ok_iff.1 (settle_eq_ok_iff.1 settled).1)
          (drafts_fieldItems corresponds.fields (fun _ member => member) found .blank)
    | bytes content =>
        obtain ⟨draft, found, settled⟩ := Except.bind_eq_ok_iff.1 (settle_eq_ok_iff.1 read).1
        exact finished (Except.mapError_eq_ok_iff.1 settled)
          (drafts_fieldBytes corresponds.fields _ (fun _ member => member) found .blank)
    | _ => exact (not_refuse read).elim
  byte _ _ read := by cases read

theorem simulates_yields : Simulates Yields where
  map := yields_map
  unsigned := ⟨fun _ _ _ _ _ => trivial, fun _ _ _ _ => trivial⟩
  text := yields_text
  attributes := yields_attributes
  list := yields_list
  record := yields_record

theorem sized_items {tree : α → Value} {xs : List α} (length : bounds.length xs.length)
    (each : ∀ x ∈ xs, Sized (tree x)) : Sized (.array (xs.map tree)) :=
  ⟨(List.length_map tree).trans_lt length, sizedItems_iff.2 (List.forall_mem_map.2 each)⟩

theorem sized_input {input : Input} (kept : Yield.InputKept bounds input) :
    Sized (Document.toValue input) := by
  have parents : Sized (.array (input.parents.map Document.toValue)) :=
    sized_items kept.parents fun _ _ => trivial
  exact ⟨by simp, by decide, kept.name, by decide, parents, trivial⟩

theorem sized_node {levels : Nat} {node : NodeDescription}
    (kept : Yield.NodeKept bounds levels node) : Sized (Document.toValue node) := by
  have inputs : Sized (.array (node.inputs.map Document.toValue)) :=
    sized_items kept.inputs fun input member => sized_input (kept.input input member)
  exact ⟨by simp, by decide, trivial, by decide, kept.kind, by decide, inputs, by decide,
    kept.attributes, trivial⟩

theorem sized_description {levels : Nat} {description : ModelDescription}
    (kept : Yield.DescriptionKept bounds levels description) :
    Sized (Document.toValue description) := by
  have nodes : Sized (.array (description.nodes.map Document.toValue)) :=
    sized_items kept.nodes fun node member => sized_node (kept.node node member)
  exact ⟨by simp, by decide, nodes, trivial⟩

theorem kept_of_decode {bytes : Bytes} {description : ModelDescription}
    (decoded : decode bytes = .ok description) : Yield.DescriptionKept bounds 1019 description := by
  obtain ⟨⟨x, rest⟩, read, rfl⟩ := Except.map_eq_ok_iff.1 decoded
  exact Yield.descriptionKept allowEmpty (simulates_yields.description.run _ _ _ _ read)

/-- A description that is decoded nests within the levels of the reader. -/
theorem nestsWithin_of_decode {bytes : Bytes} {description : ModelDescription}
    (decoded : decode bytes = .ok description) : description.NestsWithin 1019 :=
  (kept_of_decode decoded).nestsWithin

/-- The lengths in a description that is decoded fit the markers. -/
theorem sized_of_decode {bytes : Bytes} {description : ModelDescription}
    (decoded : decode bytes = .ok description) : Sized (Document.toValue description) :=
  sized_description (kept_of_decode decoded)

end MessagePack

end Dataflow

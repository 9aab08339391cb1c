import Dataflow.Proofs.MessagePack.Spelling

/-! # Reading what spells a value in MessagePack

The readers of the format agree with those of trees on all bytes that spell a tree, whatever
follows the bytes. Main statement: so does the reader of descriptions.
-/

namespace Dataflow.MessagePack

/-- Nil stands for no attributes, and what is passed over counts against the levels. -/
def convention : Convention where
  nullAttributes := true
  limitsSkipped := true

/-- The parser makes this of the bytes, whatever follows them. -/
def Parses {α : Type} (parse : Bytes → Except Error (α × Bytes)) (outcome : Option α)
    (bytes : Bytes) : Prop :=
  ∀ rest, (parse (bytes ++ rest)).toOption = outcome.map fun x => (x, rest)

/-- The parser makes of bytes that spell a value what the reading makes of the value. -/
def Reads {α : Type} (parse : Bytes → Except Error (α × Bytes)) (read : Value → Option α)
    (value : Value) : Prop :=
  ∀ bytes, Spells value bytes → Parses parse (read value) bytes

variable {α β : Type}

theorem toOption_textOf (s : String) : textOf (Bytes.ofString s) = .ok s := by
  rw [textOf, Bytes.toString?_ofString]

@[simp] theorem toOption_refuse (h : Head) (levels : Nat) (expected : Expected) :
    (h.refuse levels expected : Except Error α).toOption = none := by
  cases h with
  | text content => cases read : textOf content <;> simp [Head.refuse, read, Bind.bind, Except.bind]
  | list | map | extension => cases levels <;> rfl
  | _ => rfl

/-- Entries are read one by one, as far as each can be read. -/
theorem entries_inTurn {parse : Bytes → Except Error (α × Bytes)} {read : β → Option α}
    {items : List β} {body : Bytes}
    (each : InTurn (fun item => Parses parse (read item)) items body) (done : List α)
    (rest : Bytes) :
    (entries parse items.length done (body ++ rest)).toOption =
      (items.mapM read).map fun xs => (done.reverse ++ xs, rest) := by
  induction each generalizing done with
  | nil => simp [entries]
  | @cons item items bytes body here _ ih =>
      rw [List.length_cons, entries, List.append_assoc, Except.toOption_bind, here,
        List.mapM_cons]
      cases read item with
      | none => rfl
      | some x => simp [ih, Option.map_eq_bind, Option.bind_assoc]

/-- The parser takes keys that are texts. -/
def ReadsKeys (key : Bytes → Except Error (String × Bytes)) : Prop :=
  ∀ name bytes, head bytes = .ok (.text (Bytes.ofString name), []) →
    ∀ rest, key (bytes ++ rest) = .ok (name, rest)

/-- The bytes of a list are its head and what spells its items. -/
theorem Spells.exists_items {items : List Value} {bytes : Bytes}
    (spelled : Spells (.array items) bytes) (rest : Bytes) :
    ∃ body, SpellsItems items body ∧
      head (bytes ++ rest) = .ok (.list items.length, body ++ rest) := by
  cases spelled with
  | array ok spelled => exact ⟨_, spelled, by rw [List.append_assoc, head_append ok]⟩

theorem Spells.exists_members {members : List (String × Value)} {bytes : Bytes}
    (spelled : Spells (.object members) bytes) (rest : Bytes) :
    ∃ body, SpellsMembers members body ∧
      head (bytes ++ rest) = .ok (.map members.length, body ++ rest) := by
  cases spelled with
  | object ok spelled => exact ⟨_, spelled, by rw [List.append_assoc, head_append ok]⟩

theorem readsKeys_text (levels : Nat) : ReadsKeys (text levels) := by
  intro name bytes ok rest
  simp only [text, head_append ok, Bind.bind, Except.bind, toOption_textOf]

theorem readsKeys_objectKey (levels : Nat) : ReadsKeys (objectKey levels) := by
  intro name bytes ok rest
  simp only [objectKey, head_append ok, Bind.bind, Except.bind, toOption_textOf]

section

variable {key : Bytes → Except Error (String × Bytes)}
  {parse : Bytes → Except Error (Value × Bytes)} {read : Value → Option Value}

theorem parses_member (keys : ReadsKeys key) {name : String} {value : Value} {bytes : Bytes}
    (joined : Joined (fun opening => head opening = .ok (.text (Bytes.ofString name), []))
      (Parses parse (read value)) bytes) :
    Parses (member key parse) ((read value).map fun v => (name, v)) bytes := by
  obtain ⟨opening, content, rfl, ok, reads⟩ := joined
  intro rest
  rw [List.append_assoc, member, keys name opening ok, Except.toOption_bind, Except.toOption_ok,
    Option.bind_some, Except.toOption_bind, reads rest]
  cases read value <;> rfl

theorem SpellsMembers.parses {members : List (String × Value)} {body : Bytes}
    (spelled : SpellsMembers members body) (each : ∀ entry ∈ members, Reads parse read entry.2) :
    InTurn (fun entry => Joined (fun key => head key = .ok (.text (Bytes.ofString entry.1), []))
      (Parses parse (read entry.2))) members body :=
  spelled.inTurn.imp fun entry member _ ⟨key, content, same, ok, spelled⟩ =>
    ⟨key, content, same, ok, each entry member content spelled⟩

end

theorem toOption_objectMembers {levels : Nat} {members : List (String × Value)} {body : Bytes}
    (spelled : SpellsMembers members body)
    (each : ∀ entry ∈ members, Reads (value levels) (Value.kept levels) entry.2) (rest : Bytes) :
    (objectMembers levels members.length (value levels) (body ++ rest)).toOption =
      if Value.nestingMembers members ≤ levels then some (members, rest) else none := by
  have all : (objectMembers levels members.length (value levels) (body ++ rest)).toOption =
      (members.mapM fun entry => (Value.kept levels entry.2).map fun v => (entry.1, v)).map
        fun xs => (xs, rest) := by
    cases spelled.parses each with
    | nil => simp [objectMembers]
    | cons first later =>
        have here := parses_member (readsKeys_objectKey levels) first
        have there := entries_inTurn
          (later.imp fun _ _ _ joined => parses_member (readsKeys_text levels) joined)
        rw [List.length_cons, objectMembers, List.append_assoc, Except.toOption_bind, here,
          List.mapM_cons]
        cases Value.kept levels _ with
        | none => rfl
        | some v =>
            simp [there, Option.map_eq_bind, Option.bind_assoc]
  rw [all, Value.mapM_kept_members]
  split <;> rfl

/-- A head that is a whole value is read as it, with or without levels. -/
theorem valueOver_scalar {v : Value} {bytes : Bytes} (spelled : Spells v bytes)
    (scalar : v.nesting = 0) (inner : Option (Nat × (Bytes → Except Error (Value × Bytes))))
    (rest : Bytes) : valueOver inner (bytes ++ rest) = .ok (v, rest) := by
  cases spelled with
  | @int h n _ ok integer =>
      cases h with
      | unsigned | signed =>
          cases integer
          simp only [valueOver, head_append ok, Bind.bind, Except.bind]
      | _ => cases integer
  | null ok | bool ok | double ok =>
      simp only [valueOver, head_append ok, Bind.bind, Except.bind, floatValue]
  | string ok => simp only [valueOver, head_append ok, Bind.bind, Except.bind, toOption_textOf]
  | array | object => simp [Value.nesting] at scalar

theorem exists_valueOver (levels : Nat) : ∃ inner, value levels = valueOver inner := by
  cases levels with
  | zero => exact ⟨none, funext fun _ => rfl⟩
  | succ levels => exact ⟨some (levels, value levels), funext fun _ => rfl⟩

/-- Values are read as they are, if they nest at most as deep as there are levels. -/
theorem reads_value (v : Value) : ∀ levels, Reads (value levels) (Value.kept levels) v := by
  induction v using Value.induction with
  | null | bool | int | double | string =>
      intro levels bytes spelled rest
      obtain ⟨inner, same⟩ := exists_valueOver levels
      rw [same, valueOver_scalar spelled rfl]
      rfl
  | array items ih =>
      intro levels bytes spelled rest
      obtain ⟨body, spelled, opens⟩ := spelled.exists_items rest
      cases levels with
      | zero => simp [value, valueOver, opens, Except.toOption_bind, Value.kept,
          Value.nesting]
      | succ levels =>
          have all := entries_inTurn (spelled.inTurn.imp fun item member => ih item member levels)
            [] rest
          rw [Value.mapM_kept] at all
          simp only [value, valueOver, opens, Except.toOption_bind, Except.toOption_ok,
            Option.bind_some, all, Value.kept, Value.nesting, Nat.add_le_add_iff_right]
          split <;> rfl
  | object members ih =>
      intro levels bytes spelled rest
      obtain ⟨body, spelled, opens⟩ := spelled.exists_members rest
      cases levels with
      | zero => simp [value, valueOver, opens, Except.toOption_bind, Value.kept,
          Value.nesting]
      | succ levels =>
          have all :=
            toOption_objectMembers spelled (fun entry member => ih entry member levels) rest
          simp only [value, valueOver, opens, Except.toOption_bind, Except.toOption_ok,
            Option.bind_some, all, Value.kept, Value.nesting, Nat.add_le_add_iff_right]
          split <;> rfl

/-- The bytes of something that nests so deep are passed over, if there are levels enough. -/
def Passes (levels nesting : Nat) (bytes : Bytes) : Prop :=
  ∀ rest, (skip levels (bytes ++ rest)).toOption = if nesting ≤ levels then some rest else none

section

variable {items : List β} {body : Bytes} {levels : Nat}

theorem skipEntries_inTurn {nesting : β → Nat}
    (each : InTurn (fun item => Passes levels (nesting item)) items body) (rest : Bytes) :
    (skipEntries (skip levels) items.length (body ++ rest)).toOption =
      if ∀ item ∈ items, nesting item ≤ levels then some rest else none := by
  induction each with
  | nil => simp [skipEntries]
  | @cons item items bytes body here _ ih =>
      rw [List.length_cons, skipEntries, List.append_assoc, Except.toOption_bind, here]
      simp only [List.forall_mem_cons]
      by_cases fits : nesting item ≤ levels <;> simp [fits, ih]

/-- Of every member two values are passed over. -/
theorem skipEntries_members {nesting nesting' : β → Nat}
    (each : InTurn (fun item => Joined (Passes levels (nesting item))
      (Passes levels (nesting' item))) items body) (rest : Bytes) :
    (skipEntries (skip levels) (2 * items.length) (body ++ rest)).toOption =
      if ∀ item ∈ items, nesting item ≤ levels ∧ nesting' item ≤ levels then some rest
      else none := by
  induction each with
  | nil => simp [skipEntries]
  | @cons item items bytes body here _ ih =>
      obtain ⟨key, content, rfl, first, second⟩ := here
      simp only [List.length_cons, Nat.mul_add, skipEntries, List.append_assoc,
        Except.toOption_bind, first (content ++ (body ++ rest)), List.forall_mem_cons]
      by_cases fits : nesting item ≤ levels
      · simp only [if_pos fits, Option.bind_some, second (body ++ rest)]
        by_cases fits' : nesting' item ≤ levels <;> simp [fits, fits', ih]
      · simp [fits]

end

theorem exists_skipOver (levels : Nat) : ∃ inner, skip levels = skipOver inner := by
  cases levels with
  | zero => exact ⟨none, funext fun _ => rfl⟩
  | succ levels => exact ⟨some (skip levels), funext fun _ => rfl⟩

/-- The head is the whole value. -/
def Head.isWhole : Head → Bool
  | list _ | map _ | extension _ => false
  | _ => true

theorem Head.isWhole_of_integer {h : Head} {n : Integer} (integer : h.integer? = some n) :
    h.isWhole = true := by
  cases h with
  | list | map | extension => cases integer
  | _ => rfl

theorem passes_whole {h : Head} {bytes : Bytes} (ok : head bytes = .ok (h, []))
    (whole : h.isWhole = true) (levels : Nat) : Passes levels 0 bytes := by
  intro rest
  obtain ⟨inner, same⟩ := exists_skipOver levels
  rw [same, skipOver, head_append ok, if_pos (Nat.zero_le levels)]
  cases h with
  | list | map | extension => cases whole
  | _ => rfl

section

variable {items : List β} {opening body : Bytes} {deepest : Nat}

theorem passes_list {nesting : β → Nat} (ok : head opening = .ok (.list items.length, []))
    (covers : ∀ levels, deepest ≤ levels ↔ ∀ item ∈ items, nesting item ≤ levels)
    (each : ∀ levels, InTurn (fun item => Passes levels (nesting item)) items body)
    (levels : Nat) : Passes levels (deepest + 1) (opening ++ body) := by
  intro rest
  rw [List.append_assoc]
  cases levels with
  | zero => simp [skip, skipOver, head_append ok, Except.toOption_bind]
  | succ levels =>
      have all := skipEntries_inTurn (each levels) rest
      simp only [skip, skipOver, head_append ok, Except.toOption_bind, Except.toOption_ok,
        Option.bind_some, all, Nat.add_le_add_iff_right, covers]

theorem passes_map (nesting nesting' : β → Nat) (ok : head opening = .ok (.map items.length, []))
    (covers : ∀ levels, deepest ≤ levels ↔
      ∀ item ∈ items, nesting item ≤ levels ∧ nesting' item ≤ levels)
    (each : ∀ levels, InTurn (fun item => Joined (Passes levels (nesting item))
      (Passes levels (nesting' item))) items body)
    (levels : Nat) : Passes levels (deepest + 1) (opening ++ body) := by
  intro rest
  rw [List.append_assoc]
  cases levels with
  | zero => simp [skip, skipOver, head_append ok, Except.toOption_bind]
  | succ levels =>
      have all := skipEntries_members (each levels) rest
      simp only [skip, skipOver, head_append ok, Except.toOption_bind, Except.toOption_ok,
        Option.bind_some, all, Nat.add_le_add_iff_right, covers]

end

/-- Bytes that spell a value are passed over, if it nests at most as deep as there are levels. -/
theorem Spells.passes {v : Value} : ∀ {bytes}, Spells v bytes →
    ∀ levels, Passes levels v.nesting bytes := by
  induction v using Value.induction with
  | null | bool | double | string =>
      intro bytes spelled
      cases spelled with
      | _ ok => exact passes_whole ok rfl
  | int n =>
      intro bytes spelled
      cases spelled with
      | int ok integer => exact passes_whole ok (Head.isWhole_of_integer integer)
  | array items ih =>
      intro bytes spelled
      cases spelled with
      | array ok spelled =>
          apply passes_list ok fun levels => Value.nestingItems_le_iff
          intro levels
          exact spelled.inTurn.imp fun item member _ spelled => ih item member spelled levels
  | object members ih =>
      intro bytes spelled
      cases spelled with
      | object ok spelled =>
          apply passes_map (fun _ => 0) (fun entry => entry.2.nesting) ok
          · intro levels
            simp [Value.nestingMembers_le_iff]
          · intro levels
            exact spelled.inTurn.imp fun entry member _ ⟨key, content, same, ok, spelled⟩ =>
              ⟨key, content, same, passes_whole ok rfl levels, ih entry member spelled levels⟩

end Dataflow.MessagePack

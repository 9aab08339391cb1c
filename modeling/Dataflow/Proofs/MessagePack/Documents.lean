import Dataflow.Proofs.MessagePack.Reading

/-! # Reading documents in MessagePack

Each reader that the format provides agrees with the reader of trees, so every schema does. Main
statement: of a description that is written, with anything after it, the description is read, unless
it nests too deep.
-/

namespace Dataflow.MessagePack

variable {α β δ : Type}

/-- The reader makes of the bytes what the reading makes of the value. -/
def Alike (reader : Reader α) (reading : Reading convention α) (v : Value) (bytes : Bytes) : Prop :=
  ∀ levels, Parses (reader.run levels) (reading.run levels v) bytes

/-- The reader makes of all bytes that spell a value what the reading makes of the value. -/
def Agrees (α : Type) (reader : Reader α) (reading : Reading convention α) : Prop :=
  ∀ levels value, Reads (reader.run levels) (reading.run levels) value

theorem Agrees.alike {reader : Reader α} {reading : Reading convention α}
    (agrees : Agrees α reader reading) {v : Value} {bytes : Bytes} (spelled : Spells v bytes) :
    Alike reader reading v bytes := fun levels => agrees levels v bytes spelled

theorem toOption_settle (outcome : Except Violation α) (rest : Bytes) :
    (Reader.settle outcome rest).toOption = outcome.toOption.map fun x => (x, rest) := by
  cases outcome <;> rfl

section

variable {left : List (Field Reader δ)} {right : List (Field (Reading convention) δ)}

theorem keyField_text {name : String} {key : Bytes}
    (ok : head key = .ok (.text (Bytes.ofString name), [])) (levels : Nat) (rest : Bytes) :
    Reader.keyField left levels (key ++ rest) = .ok (left.find? (·.name == name), rest) := by
  have same : (fun field : Field Reader δ => Bytes.ofString field.name == Bytes.ofString name) =
      (·.name == name) := by
    funext field
    simp only [beq_eq_decide, Bytes.ofString_inj]
  simp only [Reader.keyField, head_append ok, Bind.bind, Except.bind, same]

theorem mem_of_keyField {levels : Nat} {bytes rest : Bytes} {field : Field Reader δ}
    (found : Reader.keyField left levels bytes = .ok (some field, rest)) : field ∈ left := by
  obtain ⟨⟨h, rest'⟩, -, same⟩ := Except.bind_eq_ok_iff.1 found
  cases h with
  | text content | bytes content =>
      injection same with same
      exact List.mem_of_find?_eq_some (Prod.mk.inj same).1
  | unsigned n =>
      injection same with same
      exact List.mem_of_getElem? (Prod.mk.inj same).1
  | _ => exact absurd (congrArg Except.toOption same) (by simp)

/-- The bytes of one member make the change that the member makes. -/
inductive MemberAlike (left : List (Field Reader δ)) (right : List (Field (Reading convention) δ)) :
    String × Value → Bytes → Prop where
  | passed {name : String} {v : Value} {key bytes : Bytes} :
      head key = .ok (.text (Bytes.ofString name), []) →
      left.find? (·.name == name) = none → right.find? (·.name == name) = none →
      (∀ levels, Passes levels v.nesting bytes) → MemberAlike left right (name, v) (key ++ bytes)
  | field {name : String} {v : Value} {key bytes : Bytes} {f : Field Reader δ}
      {g : Field (Reading convention) δ} :
      head key = .ok (.text (Bytes.ofString name), []) →
      left.find? (·.name == name) = some f → right.find? (·.name == name) = some g →
      f.isSet = g.isSet → Alike f.reader g.reader v bytes →
      MemberAlike left right (name, v) (key ++ bytes)

theorem toOption_fieldMembers {members : List (String × Value)} {body : Bytes}
    (each : InTurn (MemberAlike left right) members body) (levels : Nat) (draft : δ) :
    Parses (Reader.fieldMembers left levels members.length draft)
      (members.foldlM (Reading.member right levels) draft) body := by
  intro rest
  induction each generalizing draft with
  | nil => rfl
  | @cons entry members bytes body here _ ih =>
      cases here with
      | @passed name v key bytes ok none₁ none₂ passes =>
          simp only [List.length_cons, Reader.fieldMembers, List.append_assoc, keyField_text ok,
            Except.toOption_bind, Except.toOption_ok, Option.bind_some, List.foldlM_cons,
            Reading.member, none₁, none₂, passes levels (body ++ rest)]
          simp only [convention, Bool.true_and]
          by_cases fits : v.nesting ≤ levels
          · simp only [fits, if_true, Nat.not_lt.2 fits, decide_false, Bool.false_eq_true,
              if_false, Option.bind_some]
            exact ih draft
          · simp [fits, Nat.lt_of_not_le fits]
      | @field name v key bytes f g ok some₁ some₂ isSet alike =>
          simp only [List.length_cons, Reader.fieldMembers, List.append_assoc, keyField_text ok,
            Except.toOption_bind, Except.toOption_ok, Option.bind_some, List.foldlM_cons,
            Reading.member, some₁, some₂, isSet]
          cases seen : g.isSet draft with
          | true => rfl
          | false =>
              simp only [Bool.false_eq_true, if_false, Except.toOption_bind,
                alike levels (body ++ rest)]
              cases g.reader.run levels v with
              | none => rfl
              | some change => simp [ih]

/-- The bytes of items make the changes of the fields that the items stand for. -/
inductive ItemsAlike : List (Field Reader δ) → List (Field (Reading convention) δ) → List Value →
    Bytes → Prop where
  | done {left : List (Field Reader δ)} {right : List (Field (Reading convention) δ)} :
      ItemsAlike left right [] []
  | unread {item : Value} {items : List Value} {body : Bytes} :
      ItemsAlike [] [] (item :: items) body
  | field {f : Field Reader δ} {g : Field (Reading convention) δ} {left : List (Field Reader δ)}
      {right : List (Field (Reading convention) δ)} {item : Value} {items : List Value}
      {bytes body : Bytes} :
      Alike f.reader g.reader item bytes → ItemsAlike left right items body →
      ItemsAlike (f :: left) (g :: right) (item :: items) (bytes ++ body)

/-- Items are read as the fields in turn. None may be left after the last field. -/
theorem toOption_fieldItems {items : List Value} {body : Bytes}
    (alike : ItemsAlike left right items body) (levels : Nat) (draft : δ) (rest : Bytes) :
    ((Reader.fieldItems levels left items.length draft (body ++ rest)).toOption.bind
      fun (draft, unread, rest) => if unread = 0 then some (draft, rest) else none) =
      (Reading.items levels right items draft).map fun draft => (draft, rest) := by
  induction alike generalizing draft with
  | @done left right =>
      cases left <;> cases right <;> rfl
  | unread => simp [Reader.fieldItems, Reading.items]
  | @field f g _ _ item _ bytes body here _ ih =>
      simp only [List.length_cons, Reader.fieldItems, List.append_assoc, Except.toOption_bind,
        here levels (body ++ rest), Reading.items]
      cases g.reader.run levels item with
      | none => rfl
      | some change => simpa using ih (change draft)

variable (corresponds : List.Forall₂ (Field.Corresponds Agrees) left right)

include corresponds

theorem SpellsMembers.alike {members : List (String × Value)} {body : Bytes}
    (spelled : SpellsMembers members body) : InTurn (MemberAlike left right) members body := by
  refine spelled.inTurn.imp ?_
  rintro ⟨name, v⟩ - _ ⟨key, bytes, rfl, ok, spelled⟩
  obtain ⟨none₁, none₂⟩ | ⟨f, g, some₁, some₂, same⟩ :=
    Field.find?_corresponds Agrees corresponds name
  · exact .passed ok none₁ none₂ spelled.passes
  · exact .field ok some₁ some₂ same.isSet (same.reader.alike spelled)

theorem SpellsItems.alike {items : List Value} {body : Bytes} (spelled : SpellsItems items body) :
    ItemsAlike left right items body := by
  induction corresponds generalizing items body with
  | nil =>
      cases spelled with
      | nil => exact .done
      | cons => exact .unread
  | cons same _ ih =>
      cases spelled with
      | nil => exact .done
      | cons first later => exact .field (same.reader.alike first) (ih later)

end

section

variable {opening body : Bytes}

theorem Alike.map (f : α → β) {reader : Reader α} {reading : Reading convention α} {v : Value}
    {bytes : Bytes} (alike : Alike reader reading v bytes) :
    Alike (Readers.map f reader) (Readers.map f reading) v bytes := by
  intro levels rest
  change ((Reader.map f reader).run levels _).toOption = ((reading.run levels v).map f).map _
  simp only [Reader.map, Except.toOption_bind, alike levels rest]
  cases reading.run levels v <;> rfl

theorem alike_list {reader : Reader α} {reading : Reading convention α} {items : List Value}
    (ok : head opening = .ok (.list items.length, []))
    (each : InTurn (Alike reader reading) items body) :
    Alike (Readers.list reader) (Readers.list reading) (.array items) (opening ++ body) := by
  intro levels rest
  change ((Reader.list reader).run levels _).toOption = ((Reading.list reading).run levels _).map _
  rw [List.append_assoc]
  cases levels with
  | zero => simp [Reader.list, head_append ok, Except.toOption_bind, enter, Reading.list]
  | succ levels =>
      have all := entries_inTurn (each.imp fun _ _ _ alike => alike levels) [] rest
      simp only [Reader.list, head_append ok, Except.toOption_bind, Except.toOption_ok,
        Option.bind_some, enter, all, Reading.list]
      rfl

variable {r : Record Reader δ α} {s : Record (Reading convention) δ α}
  (blank : r.blank = s.blank) (finish : r.finish = s.finish)

include blank finish

theorem alike_members {members : List (String × Value)}
    (ok : head opening = .ok (.map members.length, []))
    (each : InTurn (MemberAlike r.fields s.fields) members body) :
    Alike (Readers.record r) (Readers.record s) (.object members) (opening ++ body) := by
  intro levels rest
  change ((Reader.record r).run levels _).toOption = ((Reading.record s).run levels _).map _
  rw [List.append_assoc]
  cases levels with
  | zero => simp [Reader.record, head_append ok, Except.toOption_bind, enter, Reading.record]
  | succ levels =>
      have all := toOption_fieldMembers each levels s.blank rest
      simp only [Reader.record, head_append ok, Except.toOption_bind, Except.toOption_ok,
        Option.bind_some, enter, blank, all, Reading.record]
      cases members.foldlM (Reading.member s.fields levels) s.blank with
      | none => rfl
      | some draft =>
          simp only [Option.map_some, Option.bind_some, toOption_settle,
            Record.toOption_ofNamed, finish]

theorem alike_items {items : List Value} (ok : head opening = .ok (.list items.length, []))
    (alike : ItemsAlike r.fields s.fields items body) :
    Alike (Readers.record r) (Readers.record s) (.array items) (opening ++ body) := by
  intro levels rest
  change ((Reader.record r).run levels _).toOption = ((Reading.record s).run levels _).map _
  rw [List.append_assoc]
  cases levels with
  | zero => simp [Reader.record, head_append ok, Except.toOption_bind, enter, Reading.record]
  | succ levels =>
      have all := toOption_fieldItems alike levels s.blank rest
      simp only [Reader.record, head_append ok, Except.toOption_bind, Except.toOption_ok,
        Option.bind_some, enter, blank, Reading.record]
      generalize Reader.fieldItems levels r.fields items.length s.blank (body ++ rest) =
        found at all ⊢
      generalize Reading.items levels s.fields items s.blank = read at all ⊢
      -- items that are left show on both sides, though the reader ends the record first
      cases found with
      | error e =>
          have none : read = none := by simpa using all.symm
          simp [none]
      | ok found =>
          obtain ⟨draft, unread, left⟩ := found
          cases unread with
          | zero =>
              obtain ⟨_, rfl, rfl, rfl⟩ : ∃ d, read = some d ∧ d = draft ∧ rest = left := by
                simpa using all.symm
              simp [toOption_settle, Record.toOption_ofItems, finish]
          | succ unread =>
              have none : read = none := by simpa using all.symm
              simp [none]

end

/-- The heads that a value can start with. -/
inductive Opens : Head → Value → Prop where
  | nil : Opens .nil .null
  | bool (b : Bool) : Opens (.bool b) (.bool b)
  | unsigned (n : UInt64) : Opens (.unsigned n) (.int (.ofUInt64 n))
  | signed (n : Int64) : Opens (.signed n) (.int (.ofInt64 n))
  | float (d : Double) : Opens (.float (.finite d)) (.double d)
  | text (s : String) : Opens (.text (Bytes.ofString s)) (.string s)
  | list (items : List Value) : Opens (.list items.length) (.array items)
  | map (members : List (String × Value)) : Opens (.map members.length) (.object members)

theorem Spells.exists_head {v : Value} {bytes : Bytes} (spelled : Spells v bytes) :
    ∃ h opening body, bytes = opening ++ body ∧ head opening = .ok (h, []) ∧ Opens h v := by
  cases spelled with
  | null ok => exact ⟨_, _, [], (List.append_nil _).symm, ok, .nil⟩
  | bool ok => exact ⟨_, _, [], (List.append_nil _).symm, ok, .bool _⟩
  | double ok => exact ⟨_, _, [], (List.append_nil _).symm, ok, .float _⟩
  | string ok => exact ⟨_, _, [], (List.append_nil _).symm, ok, .text _⟩
  | array ok => exact ⟨_, _, _, rfl, ok, .list _⟩
  | object ok => exact ⟨_, _, _, rfl, ok, .map _⟩
  | @int h n bytes ok integer =>
      refine ⟨h, bytes, [], (List.append_nil _).symm, ok, ?_⟩
      cases h with
      | unsigned m =>
          obtain rfl := Option.some.inj integer
          exact .unsigned m
      | signed m =>
          obtain rfl := Option.some.inj integer
          exact .signed m
      | _ => cases integer

/-- A value whose heads are not of the type that is asked for is refused. -/
theorem Spells.refuse {v : Value} {bytes : Bytes} (spelled : Spells v bytes) {levels : Nat}
    {expected : Expected} {next : Head × Bytes → Except Error (α × Bytes)}
    (refuses : ∀ h, Opens h v → ∀ rest, next (h, rest) = h.refuse levels expected)
    (rest : Bytes) : (head (bytes ++ rest) >>= next).toOption = none := by
  obtain ⟨h, opening, body, rfl, ok, opens⟩ := spelled.exists_head
  rw [List.append_assoc, head_append ok]
  exact (congrArg Except.toOption (refuses h opens _)).trans (toOption_refuse h levels expected)

theorem agrees_map (f : α → β) {reader : Reader α} {reading : Reading convention α}
    (agrees : Agrees α reader reading) :
    Agrees β (Readers.map f reader) (Readers.map f reading) :=
  fun levels _ _ spelled => (agrees.alike spelled).map f levels

theorem unsigned_head {h : Head} {bytes : Bytes} (ok : head bytes = .ok (h, [])) (levels : Nat)
    (rest : Bytes) : (Reader.unsigned.run levels (bytes ++ rest)).toOption =
      (h.integer?.bind Integer.toUInt64?).map fun n => (n, rest) := by
  cases bytes with
  | nil => cases ok
  | cons marker bytes =>
      have read : headOf marker (bytes ++ rest) = .ok (h, rest) := head_append ok rest
      have scalar := fun {n} => isScalarMarker_of_integer (n := n) ok
      simp only [Reader.unsigned, List.cons_append, read]
      cases h with
      | unsigned n =>
          simp [Head.integer?, scalar rfl, Integer.toUInt64?_ofUInt64, Bind.bind, Except.bind]
      | signed n =>
          simp only [Head.integer?, scalar rfl, if_true, Bind.bind, Except.bind, Option.bind_some]
          cases (Integer.ofInt64 n).toUInt64? <;> rfl
      | _ =>
          simp only [Head.integer?, Bind.bind, Except.bind]
          split <;> simp

theorem agrees_unsigned : Agrees UInt64 Readers.unsigned Readers.unsigned := by
  intro levels v bytes spelled rest
  change (Reader.unsigned.run levels _).toOption = (Reading.unsigned.run levels v).map _
  cases v with
  | int n =>
      cases spelled with
      | int ok integer =>
          rw [unsigned_head ok, integer]
          rfl
  | _ =>
      obtain ⟨h, opening, body, rfl, ok, opens⟩ := spelled.exists_head
      rw [List.append_assoc, unsigned_head ok]
      cases opens
      rfl

theorem agrees_text : Agrees String Readers.text Readers.text := by
  intro levels v bytes spelled rest
  change (text levels _).toOption = (Reading.text.run levels v).map _
  cases v with
  | string s =>
      cases spelled with
      | string ok =>
          rw [readsKeys_text levels _ _ ok]
          rfl
  | _ => exact spelled.refuse (by rintro _ ⟨⟩ _ <;> rfl) rest

theorem agrees_attributes : Agrees Attributes Readers.attributes Readers.attributes := by
  intro levels v bytes spelled rest
  change (Reader.attributes.run levels _).toOption = (Reading.attributes.run levels v).map _
  cases v with
  | null =>
      cases spelled with
      | null ok =>
          simp only [Reader.attributes, head_append ok, Bind.bind, Except.bind,
            Reading.attributes, convention]
          rfl
  | object members =>
      obtain ⟨body, spelled, opens⟩ := spelled.exists_members rest
      cases levels with
      | zero => simp [Reader.attributes, opens, Except.toOption_bind, enter,
          Reading.attributes]
      | succ levels =>
          have each := spelled.parses fun entry _ => reads_value entry.2 levels
          have all := entries_inTurn
            (each.imp fun _ _ _ joined => parses_member (readsKeys_text levels) joined) [] rest
          rw [Value.mapM_kept_members] at all
          simp only [Reader.attributes, opens, Except.toOption_bind,
            Except.toOption_ok, Option.bind_some, enter, all, Reading.attributes]
          split <;> rfl
  | bool | int | double | string | array =>
      refine (spelled.refuse (by rintro _ ⟨⟩ _ <;> rfl) rest).trans ?_
      cases levels <;> rfl

theorem agrees_list {reader : Reader α} {reading : Reading convention α}
    (agrees : Agrees α reader reading) :
    Agrees (List α) (Readers.list reader) (Readers.list reading) := by
  intro levels v bytes spelled
  cases v with
  | array items =>
      cases spelled with
      | array ok spelled =>
          exact alike_list ok (spelled.inTurn.imp fun _ _ _ => agrees.alike) levels
  | null | bool | int | double | string | object =>
      intro rest
      refine (spelled.refuse (by rintro _ ⟨⟩ _ <;> rfl) rest).trans ?_
      cases levels <;> rfl

theorem agrees_record {r : Record Reader δ α} {s : Record (Reading convention) δ α}
    (corresponds : Record.Corresponds Agrees r s) :
    Agrees α (Readers.record r) (Readers.record s) := by
  intro levels v bytes spelled
  cases v with
  | object members =>
      cases spelled with
      | object ok spelled =>
          exact alike_members corresponds.blank corresponds.finish ok
            (spelled.alike corresponds.fields) levels
  | array items =>
      cases spelled with
      | array ok spelled =>
          exact alike_items corresponds.blank corresponds.finish ok
            (spelled.alike corresponds.fields) levels
  | null | bool | int | double | string =>
      intro rest
      refine (spelled.refuse (by rintro _ ⟨⟩ _ <;> rfl) rest).trans ?_
      cases levels <;> rfl

theorem simulates : Simulates Agrees where
  map := agrees_map
  unsigned := agrees_unsigned
  text := agrees_text
  attributes := agrees_attributes
  list := agrees_list
  record := agrees_record

theorem Alike.toOption_decode {v : Value} {bytes : Bytes}
    (alike : Alike (Document.reader : Reader ModelDescription) Document.reader v bytes)
    (rest : Bytes) : (decode (bytes ++ rest) : Except Error ModelDescription).toOption =
      (Document.reader : Reading convention ModelDescription).run maxLevels v := by
  have first (outcome : Except Error (ModelDescription × Bytes)) :
      (outcome.map (·.1)).toOption = outcome.toOption.map (·.1) := by cases outcome <;> rfl
  rw [decode, first, alike maxLevels rest, Option.map_map]
  exact Option.map_id'

/-- A description is read off bytes that spell its tree, whatever comes after them. -/
theorem toOption_decode {v : Value} {bytes : Bytes} (spelled : Spells v bytes) (rest : Bytes) :
    (decode (bytes ++ rest) : Except Error ModelDescription).toOption =
      (Document.reader : Reading convention ModelDescription).run maxLevels v :=
  (simulates.description.alike spelled).toOption_decode rest

theorem toOption_decode_encode {description : ModelDescription}
    (sized : Sized (Document.toValue description)) (trailing : Bytes) :
    (decode (encode description ++ trailing) : Except Error ModelDescription).toOption =
      if description.NestsWithin 1019 then some description else none := by
  have read := toOption_decode (spells_write sized) trailing
  rwa [maxLevels, Reading.run_description] at read

/-- What is written of a description is read back, whatever comes after it, if its lengths and its
    nesting are within the bounds of the format. -/
theorem decode_encode_append (description : ModelDescription)
    (sized : Sized (Document.toValue description))
    (shallow : (Document.toValue description).nesting ≤ maxLevels) (trailing : Bytes) :
    decode (encode description ++ trailing) = .ok description := by
  have fits : description.NestsWithin 1019 := ModelDescription.nesting_le_iff.1 shallow
  have read := toOption_decode_encode sized trailing
  rw [if_pos fits] at read
  exact Except.toOption_eq_some.1 read

theorem decode_encode_append_sample :
    let attributes := (Attributes.empty.insert "rate" (.int ⟨-129, by decide, by decide⟩)).insert
      "names" (.array [.string "a", .object [("b", .null)]])
    let description : ModelDescription := ⟨[⟨⟨300⟩, "k", [⟨"in", [⟨300⟩, ⟨7⟩]⟩], attributes⟩]⟩
    Sized (Document.toValue description) ∧
      (Document.toValue description).nesting ≤ maxLevels ∧
      decode (encode description ++ [0xc1]) = .ok description := by
  intro attributes description
  have sized : Sized (Document.toValue description) := by decide +kernel
  have shallow : (Document.toValue description).nesting ≤ maxLevels := by decide +kernel
  exact ⟨sized, shallow, decode_encode_append description sized shallow [0xc1]⟩

end Dataflow.MessagePack

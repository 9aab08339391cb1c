import Dataflow.Proofs.Json.Reading

/-! # Reading documents in JSON

Each reader that the format provides agrees with the reader of trees, so every schema does. Main
statement: a text that spells the tree of a description, with blanks anywhere between its tokens, is
read as the tree is.
-/

namespace Dataflow.Json

variable {α β δ : Type}

/-- The reader makes of all texts that spell a value what the reading makes of the value. -/
def Agrees (α : Type) (reader : Reader α) (reading : Reading convention α) : Prop :=
  ∀ levels value, Reads (reader.run levels) (reading.run levels) value

theorem toOption_settle (outcome : Except Violation α) (rest : Bytes) :
    (Reader.settle outcome rest).toOption = outcome.toOption.map fun x => (x, rest) := by
  cases outcome <;> rfl

section

variable {left : List (Field Reader δ)} {right : List (Field (Reading convention) δ)}
  (corresponds : List.Forall₂ (Field.Corresponds Agrees) left right)

include corresponds

theorem readsMember_field (levels : Nat) (entry : String × Value) :
    ReadsMember (Reader.fieldMember left levels) (Reading.member right levels) entry := by
  obtain ⟨name, v⟩ := entry
  intro draft blanks ahead blanks' behind bytes spelled rest delimited
  simp only [Reader.fieldMember, Reading.member, colon_append ahead]
  obtain ⟨none₁, none₂⟩ | ⟨f, g, some₁, some₂, same⟩ :=
    Field.find?_corresponds Agrees corresponds name
  · simp [none₁, none₂, skip_append spelled behind delimited, convention, Bind.bind, Except.bind]
  · simp only [some₁, some₂, same.isSet]
    cases seen : g.isSet draft with
    | true => rfl
    | false =>
        have read := same.reader levels v blanks' behind bytes spelled rest delimited
        simp only [Bool.false_eq_true, if_false, Except.toOption_bind, Except.toOption_ok,
          Option.bind_some, read]
        cases g.reader.run levels v <;> rfl

/-- Items are read as the fields in turn. None may be left after the last field. -/
theorem toOption_fieldItems (levels : Nat) {first : Bool} {items : List Value} {body : Bytes}
    (spelled : SpellsItems first items body) (draft : δ) (rest : Bytes) :
    (Reader.fieldItems levels left first draft (body ++ rest)).toOption =
      (Reading.items levels right items draft).map fun draft => (draft, rest) := by
  induction corresponds generalizing first items body draft with
  | nil =>
      cases spelled with
      | nil blank =>
          have closing := skipBlanks_before blank (show isBlank 0x5d = false from rfl) rest
          simp [Reader.fieldItems, closing, Bracket.close, Reading.items]
      | @cons _ _ _ _ _ _ body separates blank spelled later =>
          obtain ⟨b, tail, rfl, starts⟩ := spelled.exists_cons
          obtain ⟨before, blank, found⟩ :=
            next_entry separates blank starts .list (tail ++ (body ++ rest))
          obtain ⟨b, tail, same, open'⟩ := skipBlanks_of_next found
          simp [Reader.fieldItems, same, open', Reading.items]
  | @cons f g lefts rights same _ ih =>
      cases spelled with
      | nil blank =>
          have closed := next_closed blank .list first rest
          simp only [Bracket.close] at closed
          simp [Reader.fieldItems, closed, Bind.bind, Except.bind, Reading.items]
      | @cons _ item items _ _ _ body separates blank spelled later =>
          obtain ⟨b, tail, rfl, starts⟩ := spelled.exists_cons
          obtain ⟨before, blank, found⟩ :=
            next_entry separates blank starts .list (tail ++ (body ++ rest))
          have read := same.reader levels item before blank _ spelled _ (later.delimited rest)
          simp only [Reader.fieldItems, List.append_assoc, List.cons_append, found,
            Except.toOption_bind, Except.toOption_ok, Option.bind_some, Reading.items] at read ⊢
          rw [read]
          cases g.reader.run levels item with
          | none => rfl
          | some change => exact ih later (change draft)

end

/-- A first token that is not of the type that is asked for is refused. -/
theorem refuse_token {v : Value} {bytes : Bytes} (spelled : Spells v bytes) {blanks : Bytes}
    (blank : Blank blanks) {rest : Bytes} (delimited : Delimited rest) {expected : Expected}
    {next : Token × Bytes → Except Error (α × Bytes)}
    (refuses : ∀ left, next (firstToken v, left) = Reader.refuse (firstToken v) expected) :
    (token (blanks ++ (bytes ++ rest)) >>= next).toOption = none := by
  obtain ⟨left, read⟩ := spelled.exists_token delimited
  rw [token_append blank, read]
  exact congrArg Except.toOption (refuses left)

theorem agrees_map (f : α → β) {reader : Reader α} {reading : Reading convention α}
    (agrees : Agrees α reader reading) :
    Agrees β (Readers.map f reader) (Readers.map f reading) := by
  intro levels v blanks blank bytes spelled rest delimited
  have read := agrees levels v blanks blank bytes spelled rest delimited
  change ((Reader.map f reader).run levels _).toOption = ((reading.run levels v).map f).map _
  simp only [Reader.map, Except.toOption_bind, read]
  cases reading.run levels v <;> rfl

theorem agrees_unsigned : Agrees UInt64 Readers.unsigned Readers.unsigned := by
  intro levels v blanks blank bytes spelled rest delimited
  change (Reader.unsigned.run levels _).toOption = (Reading.unsigned.run levels v).map _
  cases v with
  | int n =>
      have read := (spelled.token_scalar rfl delimited).1
      simp only [Reader.unsigned, token_append blank, read, firstToken, Except.toOption_bind,
        Except.toOption_ok, Option.bind_some, Reading.unsigned]
      cases n.toUInt64? <;> rfl
  | _ => exact refuse_token spelled blank delimited fun _ => rfl

theorem agrees_text : Agrees String Readers.text Readers.text := by
  intro levels v blanks blank bytes spelled rest delimited
  change (Reader.text.run levels _).toOption = (Reading.text.run levels v).map _
  cases v with
  | string s =>
      have read := (spelled.token_scalar rfl delimited).1
      simp only [Reader.text, token_append blank, read, firstToken, Except.toOption_bind,
        Except.toOption_ok, Option.bind_some, Reading.text, Option.map_some]
  | _ => exact refuse_token spelled blank delimited fun _ => rfl

theorem agrees_attributes : Agrees Attributes Readers.attributes Readers.attributes := by
  intro levels v blanks blank bytes spelled rest delimited
  change (Reader.attributes.run levels _).toOption = (Reading.attributes.run levels v).map _
  cases v with
  | object members =>
      obtain ⟨body, spelled, opens⟩ := spelled.exists_members rest
      cases levels with
      | zero => simp [Reader.attributes, token_append blank, opens, Except.toOption_bind, enter,
          Reading.attributes]
      | succ levels =>
          have enough : body.length ≤ (body ++ rest).length := by simp
          have all := toOption_objectMembers spelled
            (fun entry _ => readsMember_kept (reads_value entry.2 levels)) enough [] rest
          rw [foldlM_kept] at all
          simp only [Reader.attributes, token_append blank, opens, Except.toOption_bind,
            Except.toOption_ok, Option.bind_some, enter, all, Reading.attributes]
          split <;> simp
  | null | bool | int | double | string | array =>
      refine (refuse_token spelled blank delimited fun _ => rfl).trans ?_
      cases levels <;> rfl

theorem agrees_list {reader : Reader α} {reading : Reading convention α}
    (agrees : Agrees α reader reading) :
    Agrees (List α) (Readers.list reader) (Readers.list reading) := by
  intro levels v blanks blank bytes spelled rest delimited
  change ((Reader.list reader).run levels _).toOption = ((Reading.list reading).run levels v).map _
  cases v with
  | array items =>
      obtain ⟨body, spelled, opens⟩ := spelled.exists_items rest
      cases levels with
      | zero => simp [Reader.list, token_append blank, opens, Except.toOption_bind, enter,
          Reading.list]
      | succ levels =>
          have enough : body.length ≤ (body ++ rest).length := by simp
          have all :=
            toOption_listEntries spelled (fun item _ => agrees levels item) enough [] rest
          simp only [Reader.list, token_append blank, opens, Except.toOption_bind,
            Except.toOption_ok, Option.bind_some, enter, all, Reading.list]
          rfl
  | null | bool | int | double | string | object =>
      refine (refuse_token spelled blank delimited fun _ => rfl).trans ?_
      cases levels <;> rfl

theorem agrees_record {r : Record Reader δ α} {s : Record (Reading convention) δ α}
    (corresponds : Record.Corresponds Agrees r s) :
    Agrees α (Readers.record r) (Readers.record s) := by
  intro levels v blanks blank bytes spelled rest delimited
  change ((Reader.record r).run levels _).toOption = ((Reading.record s).run levels v).map _
  cases v with
  | object members =>
      obtain ⟨body, spelled, opens⟩ := spelled.exists_members rest
      cases levels with
      | zero => simp [Reader.record, token_append blank, opens, Except.toOption_bind, enter,
          Reading.record]
      | succ levels =>
          have enough : body.length ≤ (body ++ rest).length := by simp
          have all := toOption_objectMembers spelled
            (fun entry _ => readsMember_field corresponds.fields levels entry) enough s.blank
            rest
          simp only [Reader.record, token_append blank, opens, Except.toOption_bind,
            Except.toOption_ok, Option.bind_some, enter, corresponds.blank, all, Reading.record]
          cases members.foldlM (Reading.member s.fields levels) s.blank with
          | none => rfl
          | some draft =>
              simp only [Option.map_some, Option.bind_some, toOption_settle,
                Record.toOption_ofNamed, corresponds.finish]
  | array items =>
      obtain ⟨body, spelled, opens⟩ := spelled.exists_items rest
      cases levels with
      | zero => simp [Reader.record, token_append blank, opens, Except.toOption_bind, enter,
          Reading.record]
      | succ levels =>
          have all := toOption_fieldItems corresponds.fields levels spelled s.blank rest
          simp only [Reader.record, token_append blank, opens, Except.toOption_bind,
            Except.toOption_ok, Option.bind_some, enter, corresponds.blank, all, Reading.record]
          cases Reading.items levels s.fields items s.blank with
          | none => rfl
          | some draft =>
              simp only [Option.map_some, Option.bind_some, toOption_settle,
                Record.toOption_ofItems, corresponds.finish]
  | null | bool | int | double | string =>
      refine (refuse_token spelled blank delimited fun _ => rfl).trans ?_
      cases levels <;> rfl

theorem simulates : Simulates Agrees where
  map := agrees_map
  unsigned := agrees_unsigned
  text := agrees_text
  attributes := agrees_attributes
  list := agrees_list
  record := agrees_record

/-- A text that spells a tree, between blanks, is read as a description just as the tree is. -/
theorem toOption_decode {v : Value} {bytes : Bytes} (spelled : Spells v bytes)
    {before after : Bytes} (blank : Blank before) (blank' : Blank after) :
    (decode (before ++ (bytes ++ after)) : Except Error ModelDescription).toOption =
      (Document.reader : Reading convention ModelDescription).run maxLevels v := by
  have delimited : Delimited after := by
    simpa using delimited_append blank' delimited_nil
  have read := simulates.description maxLevels v before blank bytes spelled after delimited
  rw [decode, Reader.runAll, Except.toOption_bind, read]
  cases (Document.reader : Reading convention ModelDescription).run maxLevels v with
  | none => rfl
  | some description => simp [skipBlanks_of_blank blank']

end Dataflow.Json

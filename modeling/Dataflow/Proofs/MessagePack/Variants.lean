import Dataflow.Proofs.MessagePack.Describing

/-! # Documents of other writers

Other writers need not take the smallest markers or the order of fields that is written here. They
may leave out what is empty, write a record as the list of its first fields, and add fields of their
own with any data in them. Main statement: from all such documents of a description the description
is read, unless the document, with all that is added, nests too deep.
-/

namespace Dataflow.MessagePack

namespace Datum

variable {α δ : Type}

/-- The reader makes of all bytes that write the datum what the reading makes of its value. -/
def ReadAlike (datum : Datum) (reader : Reader α) (reading : Reading convention α) : Prop :=
  ∀ bytes, datum.Writes bytes → Alike reader reading datum.shadow bytes

theorem Gives.readAlike {gives : Value → α → Prop} {datum : Datum} {x : α}
    (given : datum.Gives gives x) {reader : Reader δ} {reading : Reading convention δ}
    (agrees : Agrees δ reader reading) : datum.ReadAlike reader reading := by
  obtain ⟨v, rfl, -⟩ := given
  intro bytes written
  rw [shadow_ofValue]
  exact agrees.alike written.spells

theorem ReadAlike.map {β : Type} (f : α → β) {datum : Datum} {reader : Reader α}
    {reading : Reading convention α} (alike : datum.ReadAlike reader reading) :
    datum.ReadAlike (Readers.map f reader) (Readers.map f reading) :=
  fun bytes written => (alike bytes written).map f

theorem GivesList.readAlike {each : Datum → α → Prop} {datum : Datum} {xs : List α}
    (given : datum.GivesList each xs) {reader : Reader δ} {reading : Reading convention δ}
    (alike : ∀ item x, each item x → item.ReadAlike reader reading) :
    datum.ReadAlike (Readers.list reader) (Readers.list reading) := by
  obtain ⟨items, rfl, all⟩ := given
  have all := (List.forall₂_and_left _ _).1 (all.imp fun item x given =>
    (⟨alike item x given, given⟩ : item.ReadAlike reader reading ∧ each item x))
  intro bytes written
  cases written with
  | list opens written =>
      rw [Datum.shadow, shadowItems_eq_map]
      apply alike_list
      · rw [List.length_map]
        exact head_alone (head_list opens)
      · exact written.inTurn.map Datum.shadow all.1

/-- What is given for each field is read alike. -/
inductive SlotsAlike : List (Field Reader δ) → List (Field (Reading convention) δ) →
    List (Option Datum) → Prop where
  | nil : SlotsAlike [] [] []
  | cons {f : Field Reader δ} {g : Field (Reading convention) δ} {slot : Option Datum}
      {left : List (Field Reader δ)} {right : List (Field (Reading convention) δ)}
      {slots : List (Option Datum)} :
      Field.Corresponds (fun _ reader reading =>
        ∀ datum, slot = some datum → datum.ReadAlike reader reading) f g →
      SlotsAlike left right slots → SlotsAlike (f :: left) (g :: right) (slot :: slots)

section

variable {left : List (Field Reader δ)} {right : List (Field (Reading convention) δ)}

section

variable {name : String} {isSet : δ → Bool} {set : α → δ → δ} {reader : Reader α}
  {reading : Reading convention α} {slots : List (Option Datum)}

theorem SlotsAlike.given {datum : Datum} (alike : datum.ReadAlike reader reading)
    (later : SlotsAlike left right slots) :
    SlotsAlike (⟨name, isSet, Readers.map set reader⟩ :: left)
      (⟨name, isSet, Readers.map set reading⟩ :: right) (some datum :: slots) := by
  refine .cons ⟨rfl, rfl, ?_⟩ later
  intro _ same
  cases same
  exact alike.map set

theorem SlotsAlike.givenOr {default : α} {each : Datum → α → Prop} {slot : Option Datum} {x : α}
    (given : GivesOr default each slot x) (alike : ∀ datum, each datum x →
      datum.ReadAlike reader reading) (later : SlotsAlike left right slots) :
    SlotsAlike (⟨name, isSet, Readers.map set reader⟩ :: left)
      (⟨name, isSet, Readers.map set reading⟩ :: right) (slot :: slots) := by
  refine .cons ⟨rfl, rfl, ?_⟩ later
  intro datum same
  cases same
  exact (alike datum given).map set

end

/-- The items of a list are read alike as the first fields. -/
theorem SlotsAlike.items {items : List Datum} {tail : List (Option Datum)} {body : Bytes}
    (alike : SlotsAlike left right (items.map some ++ tail))
    (written : InTurn Writes items body) :
    ItemsAlike left right (items.map shadow) body := by
  induction written generalizing left right with
  | nil => exact .done
  | cons first _ ih =>
      cases alike with
      | cons same later => exact .field (same.reader _ rfl _ first) (ih later)

/-- A name finds no field on either side, or fields that read alike what is given for them. -/
theorem SlotsAlike.find? {members : List (String × Datum)}
    (alike : SlotsAlike left right (right.map fun g => members.lookup g.name)) {s : String}
    {item : Datum} (found : s ∈ right.map (·.name) → members.lookup s = some item) :
    left.find? (·.name == s) = none ∧ right.find? (·.name == s) = none ∨
      ∃ f g, left.find? (·.name == s) = some f ∧ right.find? (·.name == s) = some g ∧
        f.isSet = g.isSet ∧ item.ReadAlike f.reader g.reader := by
  induction right generalizing left with
  | nil =>
      cases alike
      exact .inl ⟨rfl, rfl⟩
  | cons g right ih =>
      cases alike with
      | @cons f _ _ left _ _ same later =>
          simp only [List.find?_cons, same.name]
          by_cases here : g.name = s
          · have given : members.lookup g.name = some item := by
              rw [here]
              exact found (List.mem_map.2 ⟨g, List.mem_cons_self, here⟩)
            simp only [beq_iff_eq.2 here]
            exact .inr ⟨f, g, rfl, rfl, same.isSet, same.reader item given⟩
          · simp only [beq_eq_false_iff_ne.2 here]
            exact ih later fun member => found (List.mem_cons_of_mem _ member)

end

theorem lookup_of_count_le {members : List (String × Datum)} {s : String} {item : Datum}
    (member : (s, item) ∈ members) (once : (members.map Prod.fst).count s ≤ 1) :
    members.lookup s = some item := by
  induction members with
  | nil => cases member
  | cons first rest ih =>
      obtain ⟨other, item'⟩ := first
      rw [List.map_cons, List.count_cons] at once
      obtain same | later := List.mem_cons.1 member
      · cases same
        simp
      · have inside : 0 < (rest.map Prod.fst).count s :=
          List.count_pos_iff.2 (List.mem_map_of_mem later)
        have different : s ≠ other := by
          intro same
          rw [same, beq_self_eq_true, if_pos rfl, ← same] at once
          omega
        rw [List.lookup_cons, beq_eq_false_iff_ne.2 different]
        exact ih later (by omega)

theorem ReadAlike.record {r : Record Reader δ α} {s : Record (Reading convention) δ α}
    (blank : r.blank = s.blank) (finish : r.finish = s.finish) {datum : Datum}
    {slots : List (Option Datum)} (fills : datum.Fills (s.fields.map (·.name)) slots)
    (alike : SlotsAlike r.fields s.fields slots) :
    datum.ReadAlike (Readers.record r) (Readers.record s) := by
  intro bytes written
  cases fills with
  | @named members once =>
      have slots : ((s.fields.map (·.name)).map fun name => members.lookup name) =
          s.fields.map fun field => members.lookup field.name := List.map_map
      rw [shadow_keyed]
      cases written with
      | map opens written =>
          apply alike_members blank finish
          · rw [List.length_map] at opens ⊢
            exact head_alone (head_map opens)
          · apply written.inTurn.of_map.map
            rintro ⟨name, item⟩ member _ ⟨key, bytes, rfl, named, written⟩
            rw [slots] at alike
            obtain ⟨none₁, none₂⟩ | ⟨f, g, some₁, some₂, isSet, same⟩ :=
              alike.find? fun inside => lookup_of_count_le member (once name inside)
            · exact .passed named.head_name none₁ none₂ (nesting_shadow item ▸ written.passes)
            · exact .field named.head_name some₁ some₂ isSet (same bytes written)
  | @listed items short =>
      rw [shadow, shadowItems_eq_map]
      cases written with
      | list opens written =>
          apply alike_items blank finish
          · rw [List.length_map]
            exact head_alone (head_list opens)
          · exact alike.items written.inTurn

variable {datum : Datum}

theorem GivesInput.readAlike {input : Input} (given : datum.GivesInput input) :
    datum.ReadAlike (Document.reader : Reader Input) Document.reader := by
  obtain ⟨name, parents, fills, named, ids⟩ := given
  apply ReadAlike.record (r := inputRecord) (s := inputRecord) rfl rfl fills
  apply SlotsAlike.given (named.readAlike agrees_text)
  apply SlotsAlike.givenOr ids
  · intro _ given
    exact given.readAlike fun _ _ id => id.readAlike simulates.nodeId
  · exact .nil

theorem GivesNode.readAlike {node : NodeDescription} (given : datum.GivesNode node) :
    datum.ReadAlike (Document.reader : Reader NodeDescription) Document.reader := by
  obtain ⟨id, kind, inputs, attributes, fills, number, named, list, object⟩ := given
  apply ReadAlike.record (r := nodeRecord) (s := nodeRecord) rfl rfl fills
  apply SlotsAlike.given (number.readAlike simulates.nodeId)
  apply SlotsAlike.given (named.readAlike agrees_text)
  apply SlotsAlike.givenOr list
  · intro _ given
    exact given.readAlike fun _ _ input => input.readAlike
  apply SlotsAlike.givenOr object
  · intro _ given
    exact given.readAlike agrees_attributes
  · exact .nil

theorem Describes.readAlike {description : ModelDescription}
    (describes : datum.Describes description) :
    datum.ReadAlike (Document.reader : Reader ModelDescription) Document.reader := by
  obtain ⟨nodes, fills, given⟩ := describes
  apply ReadAlike.record (r := modelRecord) (s := modelRecord) rfl rfl fills
  apply SlotsAlike.given (given.readAlike fun _ _ node => node.readAlike)
  exact .nil

end Datum

/-- From every document of a description the description is read, whatever comes after it, if the
    document nests within the levels. A deeper one is refused. -/
theorem toOption_decode_of_describes {description : ModelDescription} {document : Datum}
    (describes : document.Describes description) {bytes : Bytes} (written : document.Writes bytes)
    (trailing : Bytes) : (decode (bytes ++ trailing) : Except Error ModelDescription).toOption =
      if document.nesting ≤ maxLevels then some description else none := by
  have limited : convention.limitsSkipped = true := rfl
  have read := Reading.run_eq_some_iff_describes limited maxLevels document.shadow
  rw [(describes.readAlike bytes written).toOption_decode, ← document.nesting_shadow]
  split
  · next fits => exact (read description).2 ⟨fits, describes.shadow⟩
  · next deep =>
    rw [Option.eq_none_iff_forall_ne_some]
    intro other found
    exact deep ((read other).1 found).1

theorem Datum.Writes.of_eq {datum : Datum} {bytes bytes' : Bytes} (written : datum.Writes bytes)
    (same : bytes = bytes') : datum.Writes bytes' := same ▸ written

theorem toOption_decode_of_describes_mixed :
    let id : Integer := .ofUInt64 7
    let half : Double := ⟨false, 0x3fe0000000000000, by decide⟩
    let description : ModelDescription :=
      ⟨[⟨⟨7⟩, "k", [⟨"in", []⟩], Attributes.empty.insert "a" (.double half)⟩]⟩
    let document : Datum :=
      .list [.list [.keyed
        [("x", .extension 5 [0xff]), ("attributes", .keyed [("a", .float (.finite half))]),
          ("kind", .text (Bytes.ofString "k")), ("x", .map [(.bytes [1], .float .nan)]),
          ("inputs", .list [.list [.text (Bytes.ofString "in")]]), ("id", .int id)]]]
    let bytes : Bytes :=
      [0xdc, 0x00, 0x01, 0x91, 0x86, 0xa1, 0x78, 0xd4, 0x05, 0xff, 0xaa, 0x61, 0x74, 0x74, 0x72,
        0x69, 0x62, 0x75, 0x74, 0x65, 0x73, 0x81, 0xa1, 0x61, 0xca, 0x3f, 0x00, 0x00, 0x00, 0xa4,
        0x6b, 0x69, 0x6e, 0x64, 0xd9, 0x01, 0x6b, 0xa1, 0x78, 0x81, 0xc4, 0x01, 0x01, 0xca, 0x7f,
        0xc0, 0x00, 0x00, 0xa6, 0x69, 0x6e, 0x70, 0x75, 0x74, 0x73, 0x91, 0x91, 0xa2, 0x69, 0x6e,
        0xa2, 0x69, 0x64, 0xd0, 0x07]
    document.Describes description ∧ document.Writes bytes ∧
      (decode (bytes ++ [0xc1]) : Except Error ModelDescription).toOption = some description := by
  intro id half description document bytes
  have describes : document.Describes description := by
    have number : (Datum.int id).Gives Value.GivesId ⟨7⟩ := ⟨.int id, rfl, _, rfl, rfl⟩
    have kind : (Datum.text (Bytes.ofString "k")).Gives Value.GivesText "k" :=
      ⟨.string "k", rfl, rfl⟩
    have input : (Datum.list [.text (Bytes.ofString "in")]).GivesInput ⟨"in", []⟩ :=
      ⟨_, none, .listed (by decide), ⟨.string "in", rfl, rfl⟩, rfl⟩
    have object : (Datum.keyed [("a", .float (.finite half))]).Gives (Value.GivesAttributes true)
        (Attributes.empty.insert "a" (.double half)) :=
      ⟨.object [("a", .double half)], rfl, .object (Attributes.ofMembers_eq_iff.1 rfl)⟩
    refine ⟨_, .listed (by decide), _, rfl, .cons ?_ .nil⟩
    exact ⟨_, _, some _, some _, .of_lookup (by decide) rfl, number, kind,
      ⟨_, rfl, .cons input .nil⟩, object⟩
  have written : document.Writes bytes := by
    have key (s : String) (small : (Bytes.ofString s).length < 32) :=
      Datum.Writes.text (@Markers.Opens.short .text _ small)
    have signed : (Datum.int id).Writes (0xd0 :: Bytes.bigEndian 1 7) :=
      .int (.signed (by simp [signedMarkers]) (by decide) (by decide))
    have float : (Datum.float (.finite half)).Writes (0xca :: Bytes.bigEndian 4 0x3f000000) :=
      @Datum.Writes.float32 0x3f000000 (by decide)
    have noNumber : (Datum.float .nan).Writes (0xca :: Bytes.bigEndian 4 0x7fc00000) :=
      @Datum.Writes.float32 0x7fc00000 (by decide)
    have kind : (Datum.text (Bytes.ofString "k")).Writes _ :=
      .text (@Markers.Opens.wide .text _ 0xd9 1 (by simp [Markers.text]) (by decide))
    have content : (Datum.bytes [1]).Writes _ :=
      .bytes (@Markers.Opens.wide .bytes _ 0xc4 1 (by simp [Markers.bytes]) (by decide))
    have added : (Datum.extension 5 [0xff]).Writes [0xd4, 0x05, 0xff] :=
      .sizedExtension (by simp [Datum.sizedMarkers])
    have one : Markers.list.Opens 1 [0x91] := .short (by decide)
    have wide : Markers.list.Opens 1 (0xdc :: Bytes.bigEndian 2 1) :=
      .wide (by simp [Markers.list]) (by decide)
    have single : Markers.map.Opens 1 [0x81] := .short (by decide)
    have six : Markers.map.Opens 6 [0x86] := .short (by decide)
    exact .of_eq (.list wide (.cons (.list one (.cons (.map six
      (.cons (key "x" (by decide)) added
        (.cons (key "attributes" (by decide))
          (.map single (.cons (key "a" (by decide)) float .nil))
          (.cons (key "kind" (by decide)) kind
            (.cons (key "x" (by decide)) (.map single (.cons content noNumber .nil))
              (.cons (key "inputs" (by decide))
                (.list one (.cons (.list one (.cons (key "in" (by decide)) .nil)) .nil))
                (.cons (key "id" (by decide)) signed .nil))))))) .nil)) .nil)) (by decide)
  have read := toOption_decode_of_describes describes written [0xc1]
  have fits : document.nesting ≤ maxLevels := by decide
  rw [if_pos fits] at read
  exact ⟨describes, written, read⟩

/-- Lists inside one another, so many of them. -/
def Datum.nested : Nat → Datum
  | 0 => .nil
  | depth + 1 => .list [nested depth]

theorem Datum.writes_nested (depth : Nat) :
    (nested depth).Writes (List.replicate depth 0x91 ++ [0xc0]) := by
  induction depth with
  | zero => exact .nil
  | succ depth ih =>
      have opens : Markers.list.Opens [nested depth].length [0x91] := .short (by simp [Markers.list])
      have written := Writes.list opens (.cons ih .nil)
      rwa [List.append_nil] at written

/-- A field of another writer that nests deeper than the levels: the description is not read, though
    it is not deep itself. -/
theorem decode_nested_unknown :
    let description : ModelDescription := ⟨[]⟩
    let document : Datum := .keyed [("nodes", .list []), ("x", .nested 1023)]
    let bytes : Bytes := [0x82, 0xa5, 0x6e, 0x6f, 0x64, 0x65, 0x73, 0x90, 0xa1, 0x78] ++
      (List.replicate 1023 0x91 ++ [0xc0])
    (Document.toValue description).nesting ≤ maxLevels ∧ document.Describes description ∧
      document.Writes bytes ∧
      (decode bytes : Except Error ModelDescription) = .error .tooDeep := by
  intro description document bytes
  have describes : document.Describes description :=
    ⟨.list [], .of_lookup (by decide) rfl, [], rfl, .nil⟩
  have written : document.Writes bytes := by
    have opens : Markers.map.Opens 2 [0x82] := .short (by decide)
    have nodes : Markers.text.Opens (Bytes.ofString "nodes").length [0xa5] := .short (by decide)
    have empty : Markers.list.Opens 0 [0x90] := .short (by decide)
    have other : Markers.text.Opens (Bytes.ofString "x").length [0xa1] := .short (by decide)
    exact .of_eq (.map opens (.cons (.text nodes) (.list empty .nil)
      (.cons (.text other) (Datum.writes_nested 1023) .nil))) (by decide +kernel)
  have refused : ((decode bytes : Except Error ModelDescription).map fun _ => ()) =
      .error .tooDeep := by decide +kernel
  refine ⟨by decide, describes, written, ?_⟩
  generalize (decode bytes : Except Error ModelDescription) = read at refused
  cases read with
  | ok => cases refused
  | error e => exact congrArg Except.error (Except.error.inj refused)

end Dataflow.MessagePack

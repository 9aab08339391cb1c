import Dataflow.Proofs.MessagePack.Documents

/-! # What MessagePack can write

Values are not all that MessagePack has: there are bytes, extensions, doubles that are no numbers,
texts that are not UTF-8 and maps with keys of any kind. Here is said how each datum may be written,
with whichever markers. Main statements: whatever is written as a value spells the value, and every
datum is passed over, if it nests at most as deep as there are levels.
-/

namespace Dataflow.MessagePack

inductive Datum where
  | nil
  | bool (b : Bool)
  | int (n : Integer)
  | float (x : Binary64)
  | text (content : Bytes)
  | bytes (content : Bytes)
  | list (items : List Datum)
  | map (members : List (Datum × Datum))
  /-- A value of an application's own type. -/
  | extension (type : UInt8) (content : Bytes)

namespace Datum

mutual

/-- How many lists, maps and extensions stand inside one another. -/
def nesting : Datum → Nat
  | list items => nestingItems items + 1
  | map members => nestingMembers members + 1
  | extension _ _ => 1
  | _ => 0

def nestingItems : List Datum → Nat
  | [] => 0
  | item :: rest => max item.nesting (nestingItems rest)

/-- The deepest nesting among keys and values. -/
def nestingMembers : List (Datum × Datum) → Nat
  | [] => 0
  | (key, item) :: rest => max (max key.nesting item.nesting) (nestingMembers rest)

end

/-- The extensions whose size is in the marker, each marker with its size. -/
def sizedMarkers : List (UInt8 × Nat) := [(0xd4, 1), (0xd5, 2), (0xd6, 4), (0xd7, 8), (0xd8, 16)]

mutual

/-- The bytes are one way to write the datum. -/
inductive Writes : Datum → Bytes → Prop where
  | nil : Writes .nil [0xc0]
  | bool (b : Bool) : Writes (.bool b) [if b then 0xc3 else 0xc2]
  | int {n : Integer} {bytes : Bytes} : WritesInteger n.val bytes → Writes (.int n) bytes
  | float32 {bits : Nat} : bits < Nat.pow 256 4 →
      Writes (.float (Binary64.ofBits32 bits)) (0xca :: Bytes.bigEndian 4 bits)
  | float64 {bits : Nat} : bits < Nat.pow 256 8 →
      Writes (.float (Binary64.ofBits bits)) (0xcb :: Bytes.bigEndian 8 bits)
  | text {content opening : Bytes} : Markers.text.Opens content.length opening →
      Writes (.text content) (opening ++ content)
  | bytes {content opening : Bytes} : Markers.bytes.Opens content.length opening →
      Writes (.bytes content) (opening ++ content)
  | list {items : List Datum} {opening body : Bytes} :
      Markers.list.Opens items.length opening → WritesItems items body →
      Writes (.list items) (opening ++ body)
  | map {members : List (Datum × Datum)} {opening body : Bytes} :
      Markers.map.Opens members.length opening → WritesMembers members body →
      Writes (.map members) (opening ++ body)
  | extension {type : UInt8} {content opening : Bytes} :
      Markers.extension.Opens content.length opening →
      Writes (.extension type content) (opening ++ type :: content)
  | sizedExtension {marker type : UInt8} {content : Bytes} :
      (marker, content.length) ∈ sizedMarkers →
      Writes (.extension type content) (marker :: type :: content)

inductive WritesItems : List Datum → Bytes → Prop where
  | nil : WritesItems [] []
  | cons {item : Datum} {rest : List Datum} {bytes body : Bytes} :
      Writes item bytes → WritesItems rest body → WritesItems (item :: rest) (bytes ++ body)

inductive WritesMembers : List (Datum × Datum) → Bytes → Prop where
  | nil : WritesMembers [] []
  | cons {key item : Datum} {rest : List (Datum × Datum)} {opening bytes body : Bytes} :
      Writes key opening → Writes item bytes → WritesMembers rest body →
      WritesMembers ((key, item) :: rest) (opening ++ (bytes ++ body))

end

theorem WritesItems.inTurn {items : List Datum} {body : Bytes} (written : WritesItems items body) :
    InTurn Writes items body := by
  induction items generalizing body with
  | nil =>
      cases written
      exact .nil
  | cons item items ih =>
      cases written with
      | cons first later => exact .cons first (ih later)

theorem WritesMembers.inTurn {members : List (Datum × Datum)} {body : Bytes}
    (written : WritesMembers members body) :
    InTurn (fun member => Joined member.1.Writes member.2.Writes) members body := by
  induction members generalizing body with
  | nil =>
      cases written
      exact .nil
  | cons member members ih =>
      cases written with
      | cons key first later =>
          rw [← List.append_assoc]
          exact .cons ⟨_, _, rfl, key, first⟩ (ih later)

section

variable {motive : Datum → Prop} (nil : motive .nil) (bool : ∀ b, motive (.bool b))
  (int : ∀ n, motive (.int n)) (float : ∀ x, motive (.float x))
  (text : ∀ content, motive (.text content)) (bytes : ∀ content, motive (.bytes content))
  (list : ∀ items, (∀ item ∈ items, motive item) → motive (.list items))
  (map : ∀ members, (∀ member ∈ members, motive member.1 ∧ motive member.2) →
    motive (.map members))
  (extension : ∀ type content, motive (.extension type content))

include nil bool int float text bytes list map extension

/-- Induction over data, with the hypothesis for every item, key and value. -/
@[elab_as_elim]
theorem induction (datum : Datum) : motive datum := by
  cases datum with
  | nil => exact nil
  | bool b => exact bool b
  | int n => exact int n
  | float x => exact float x
  | text content => exact text content
  | bytes content => exact bytes content
  | list items => exact list items fun item _ => induction item
  | map members => exact map members fun member _ => ⟨induction member.1, induction member.2⟩
  | extension type content => exact extension type content
termination_by sizeOf datum
decreasing_by
  · next member =>
    have smaller := List.sizeOf_lt_of_mem member
    rw [Datum.list.sizeOf_spec]
    omega
  all_goals
    next inside =>
    have smaller := List.sizeOf_lt_of_mem inside
    cases member
    dsimp only
    rw [Prod.mk.sizeOf_spec] at smaller
    rw [Datum.map.sizeOf_spec]
    omega

end

theorem nestingItems_le_iff {items : List Datum} {levels : Nat} :
    nestingItems items ≤ levels ↔ ∀ item ∈ items, item.nesting ≤ levels := by
  induction items with
  | nil => simp [nestingItems]
  | cons item rest ih => simp [nestingItems, ih]

theorem nestingMembers_le_iff {members : List (Datum × Datum)} {levels : Nat} :
    nestingMembers members ≤ levels ↔
      ∀ member ∈ members, member.1.nesting ≤ levels ∧ member.2.nesting ≤ levels := by
  induction members with
  | nil => simp [nestingMembers]
  | cons member rest ih => simp only [nestingMembers, Nat.max_le, ih, List.forall_mem_cons]

/-- The head is all there is of the datum. -/
inductive IsHead : Datum → Head → Prop where
  | nil : IsHead .nil .nil
  | bool (b : Bool) : IsHead (.bool b) (.bool b)
  | int {n : Integer} {h : Head} : h.integer? = some n → IsHead (.int n) h
  | float (x : Binary64) : IsHead (.float x) (.float x)
  | text (content : Bytes) : IsHead (.text content) (.text content)
  | bytes (content : Bytes) : IsHead (.bytes content) (.bytes content)

theorem IsHead.isWhole {datum : Datum} {h : Head} (isHead : datum.IsHead h) :
    h.isWhole = true := by
  cases isHead with
  | int integer => exact Head.isWhole_of_integer integer
  | _ => rfl

/-- What is written of a datum with nothing inside it reads as its head. -/
theorem Writes.exists_head {datum : Datum} {bytes : Bytes} (written : datum.Writes bytes)
    (scalar : datum.nesting = 0) : ∃ h, head bytes = .ok (h, []) ∧ datum.IsHead h := by
  cases written with
  | nil => exact ⟨_, rfl, .nil⟩
  | bool b => cases b <;> exact ⟨_, rfl, .bool _⟩
  | int written =>
      obtain ⟨h, ok, integer⟩ := head_integer written []
      rw [List.append_nil] at ok
      exact ⟨h, ok, .int integer⟩
  | float32 fits =>
      have ok := numberHead_bigEndian fits fun bits => .float (Binary64.ofBits32 bits)
      exact ⟨_, head_alone ok, .float _⟩
  | float64 fits =>
      have ok := numberHead_bigEndian fits fun bits => .float (Binary64.ofBits bits)
      exact ⟨_, head_alone ok, .float _⟩
  | text opens =>
      refine ⟨_, head_alone fun rest => ?_, .text _⟩
      rw [List.append_assoc]
      exact head_text opens rest
  | bytes opens =>
      refine ⟨_, head_alone fun rest => ?_, .bytes _⟩
      rw [List.append_assoc]
      exact head_bytes opens rest
  | list | map => simp [nesting] at scalar
  | extension | sizedExtension => cases scalar

theorem head_sizedExtension {marker : UInt8} {size : Nat} (member : (marker, size) ∈ sizedMarkers)
    (rest : Bytes) : head (marker :: rest) = .ok (.extension size, rest) := by
  simp only [sizedMarkers, List.mem_cons, Prod.mk.injEq, List.not_mem_nil, or_false] at member
  obtain ⟨rfl, rfl⟩ | ⟨rfl, rfl⟩ | ⟨rfl, rfl⟩ | ⟨rfl, rfl⟩ | ⟨rfl, rfl⟩ := member
  all_goals rfl

theorem passes_extension {opening content : Bytes} {type : UInt8}
    (ok : head opening = .ok (.extension content.length, [])) (levels : Nat) :
    Passes levels 1 (opening ++ type :: content) := by
  intro rest
  rw [List.append_assoc]
  cases levels with
  | zero => simp [skip, skipOver, head_append ok, Except.toOption_bind]
  | succ levels =>
      have taken : takeBytes (content.length + 1) (type :: content ++ rest) =
          .ok (type :: content, rest) := takeBytes_append rfl
      simp only [skip, skipOver, head_append ok, Except.toOption_bind, Except.toOption_ok,
        Option.bind_some, taken]
      rfl

/-- What is written of any datum is passed over, if it nests at most as deep as there are levels. -/
theorem Writes.passes {datum : Datum} : ∀ {bytes}, datum.Writes bytes →
    ∀ levels, Passes levels datum.nesting bytes := by
  induction datum using Datum.induction with
  | nil | bool | int | float | text | bytes =>
      intro bytes written
      obtain ⟨h, ok, isHead⟩ := written.exists_head rfl
      exact passes_whole ok isHead.isWhole
  | list items ih =>
      intro bytes written
      cases written with
      | list opens written =>
          apply passes_list (head_alone (head_list opens)) fun levels => nestingItems_le_iff
          intro levels
          exact written.inTurn.imp fun item member _ written => ih item member written levels
  | map members ih =>
      intro bytes written
      cases written with
      | map opens written =>
          apply passes_map (fun member => member.1.nesting) (fun member => member.2.nesting)
            (head_alone (head_map opens)) fun levels => nestingMembers_le_iff
          intro levels
          exact written.inTurn.imp fun member inside _ ⟨key, content, same, first, second⟩ =>
            ⟨key, content, same, (ih member inside).1 first levels,
              (ih member inside).2 second levels⟩
  | extension type content =>
      intro bytes written
      cases written with
      | extension opens => exact passes_extension (head_alone (head_extension opens))
      | @sizedExtension marker _ _ member =>
          have ok : head [marker] = .ok (.extension content.length, []) :=
            head_sizedExtension member []
          exact passes_extension ok

end Datum

mutual

/-- The datum that is written for a value. -/
def Datum.ofValue : Value → Datum
  | .null => .nil
  | .bool b => .bool b
  | .int n => .int n
  | .double d => .float (.finite d)
  | .string s => .text (Bytes.ofString s)
  | .array items => .list (ofItems items)
  | .object members => .map (ofMembers members)

def Datum.ofItems : List Value → List Datum
  | [] => []
  | item :: rest => ofValue item :: ofItems rest

def Datum.ofMembers : List (String × Value) → List (Datum × Datum)
  | [] => []
  | (name, value) :: rest => (.text (Bytes.ofString name), ofValue value) :: ofMembers rest

end

namespace Datum

theorem ofItems_eq_map (items : List Value) : ofItems items = items.map ofValue := by
  induction items with
  | nil => rfl
  | cons item rest ih => rw [ofItems, ih, List.map_cons]

theorem ofMembers_eq_map (members : List (String × Value)) :
    ofMembers members =
      members.map fun entry => (.text (Bytes.ofString entry.1), ofValue entry.2) := by
  induction members with
  | nil => rfl
  | cons entry rest ih => rw [ofMembers, ih, List.map_cons]

/-- The bytes of a text that is a name read as its head. -/
theorem Writes.head_name {name : String} {bytes : Bytes}
    (written : (Datum.text (Bytes.ofString name)).Writes bytes) :
    head bytes = .ok (.text (Bytes.ofString name), []) := by
  obtain ⟨_, ok, ⟨⟩⟩ := written.exists_head rfl
  exact ok

mutual

/-- Bytes that write a value spell it. -/
theorem Writes.spells {v : Value} {bytes : Bytes} (written : (ofValue v).Writes bytes) :
    Spells v bytes := by
  cases v with
  | null =>
      obtain ⟨_, ok, ⟨⟩⟩ := written.exists_head rfl
      exact .null ok
  | bool b =>
      obtain ⟨_, ok, ⟨⟩⟩ := written.exists_head rfl
      exact .bool ok
  | int n =>
      obtain ⟨_, ok, integer⟩ := written.exists_head rfl
      cases integer with
      | int integer => exact .int ok integer
  | double d =>
      obtain ⟨_, ok, ⟨⟩⟩ := written.exists_head rfl
      exact .double ok
  | string s => exact .string written.head_name
  | array items =>
      cases written with
      | list opens written =>
          rw [ofItems_eq_map, List.length_map] at opens
          exact .array (head_alone (head_list opens)) written.spells
  | object members =>
      cases written with
      | map opens written =>
          rw [ofMembers_eq_map, List.length_map] at opens
          exact .object (head_alone (head_map opens)) written.spells

theorem WritesItems.spells {items : List Value} {body : Bytes}
    (written : WritesItems (ofItems items) body) : SpellsItems items body := by
  cases items with
  | nil =>
      cases written
      exact .nil
  | cons item rest =>
      cases written with
      | cons first later => exact .cons first.spells later.spells

theorem WritesMembers.spells {members : List (String × Value)} {body : Bytes}
    (written : WritesMembers (ofMembers members) body) : SpellsMembers members body := by
  cases members with
  | nil =>
      cases written
      exact .nil
  | cons member rest =>
      cases written with
      | cons key first later => exact .cons key.head_name first.spells later.spells

end

end Datum

end Dataflow.MessagePack

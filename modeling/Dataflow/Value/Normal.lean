import Dataflow.Value

/-! # Normal form of values

In normal form the members of every object stand in ascending order of their keys, each key once.
Keys are ordered by code points, which is also the order of their UTF-8 bytes. Normalizing keeps
the last of several members with one key. Main statement: what it gives is in normal form.
-/

namespace Dataflow

namespace Value

mutual

/-- Every object in the value has strictly ascending keys. -/
def IsNormal : Value → Prop
  | array items => NormalItems items
  | object members => NormalMembers members
  | _ => True

def NormalItems : List Value → Prop
  | [] => True
  | item :: rest => item.IsNormal ∧ NormalItems rest

/-- The keys ascend strictly, and all values are in normal form. -/
def NormalMembers : List (String × Value) → Prop
  | [] => True
  | (key, value) :: rest =>
    value.IsNormal ∧ (∀ other ∈ rest, key < other.1) ∧ NormalMembers rest

end

/-- Puts a member in its place among ascending ones; it replaces one of the same key. -/
def insertMember (key : String) (value : Value) :
    List (String × Value) → List (String × Value)
  | [] => [(key, value)]
  | (key', value') :: rest =>
    if key < key' then (key, value) :: (key', value') :: rest
    else if key = key' then (key, value) :: rest
    else (key', value') :: insertMember key value rest

mutual

/-- Sorts the members of every object; of members with one key the last stays. -/
def normalize : Value → Value
  | array items => array (normalizeItems items)
  | object members => object (normalizeMembers [] members)
  | value => value

/-- `Value.normalize` for each item. -/
def normalizeItems : List Value → List Value
  | [] => []
  | item :: rest => item.normalize :: normalizeItems rest

/-- Inserts members, first one first, among the ascending ones that are `done`. -/
def normalizeMembers (done : List (String × Value)) :
    List (String × Value) → List (String × Value)
  | [] => done
  | (key, value) :: rest => normalizeMembers (insertMember key value.normalize done) rest

end

theorem mem_insertMember {key : String} {value : Value} {members : List (String × Value)}
    {member : String × Value} (h : member ∈ insertMember key value members) :
    member = (key, value) ∨ member ∈ members := by
  induction members with
  | nil => simpa [insertMember] using h
  | cons head rest ih =>
    obtain ⟨key', value'⟩ := head
    simp only [insertMember] at h
    split at h
    · simpa using h
    · split at h
      · rcases List.mem_cons.1 h with rfl | h
        · exact .inl rfl
        · exact .inr (List.mem_cons_of_mem _ h)
      · rcases List.mem_cons.1 h with rfl | h
        · exact .inr List.mem_cons_self
        · exact (ih h).imp_right (List.mem_cons_of_mem _)

theorem normalMembers_insertMember {key : String} {value : Value}
    {members : List (String × Value)} (hv : value.IsNormal) (hm : NormalMembers members) :
    NormalMembers (insertMember key value members) := by
  induction members with
  | nil => simp [insertMember, NormalMembers, hv]
  | cons head rest ih =>
    obtain ⟨key', value'⟩ := head
    obtain ⟨hv', hbound, hrest⟩ := hm
    simp only [insertMember]
    split
    · next hlt =>
      refine ⟨hv, ?_, hv', hbound, hrest⟩
      intro other hother
      rcases List.mem_cons.1 hother with rfl | hother
      · exact hlt
      · exact String.lt_trans hlt (hbound other hother)
    · next hge =>
      split
      · next heq => exact ⟨hv, heq ▸ hbound, hrest⟩
      · next hne =>
        refine ⟨hv', ?_, ih hrest⟩
        intro other hother
        rcases mem_insertMember hother with rfl | hother
        · exact Decidable.byContradiction fun h =>
            hne (String.le_antisymm (String.not_lt.1 h) (String.not_lt.1 hge))
        · exact hbound other hother

mutual

theorem isNormal_normalize : (value : Value) → value.normalize.IsNormal
  | null | bool _ | int _ | double _ | string _ => trivial
  | array items => normalItems_normalizeItems items
  | object members => normalMembers_normalizeMembers members trivial

theorem normalItems_normalizeItems : (items : List Value) → NormalItems (normalizeItems items)
  | [] => trivial
  | item :: rest => ⟨isNormal_normalize item, normalItems_normalizeItems rest⟩

theorem normalMembers_normalizeMembers : (members : List (String × Value)) →
    {done : List (String × Value)} → NormalMembers done →
      NormalMembers (normalizeMembers done members)
  | [], _, h => h
  | (_, value) :: rest, _, h =>
    normalMembers_normalizeMembers rest
      (normalMembers_insertMember (isNormal_normalize value) h)

end

end Value

end Dataflow

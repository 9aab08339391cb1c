import Mathlib
import Dataflow.Description

/-! # Values in normal form

Normalizing leaves alone what is in normal form already. So attributes are the same after their
members have been set one after the other. Main statement: attributes are read from members exactly
if each name has in them what its last member gives.
-/

namespace Dataflow

namespace Value

theorem insertMember_eq_append {key : String} {value : Value} {members : List (String × Value)}
    (last : ∀ other ∈ members, other.1 < key) :
    insertMember key value members = members ++ [(key, value)] := by
  induction members with
  | nil => rfl
  | cons head rest ih =>
      obtain ⟨key', value'⟩ := head
      have less : key' < key := last (key', value') List.mem_cons_self
      have later := ih fun other member => last other (List.mem_cons_of_mem _ member)
      have different : key ≠ key' := fun same => String.lt_irrefl _ (same ▸ less)
      rw [insertMember, if_neg (String.lt_asymm less), if_neg different, later, List.cons_append]

mutual

theorem normalize_eq_self {value : Value} (normal : value.IsNormal) :
    value.normalize = value := by
  cases value with
  | null | bool | int | double | string => rfl
  | array items => rw [normalize, normalizeItems_eq_self normal]
  | object members => rw [normalize, normalizeMembers_eq_append normal (by simp), List.nil_append]

theorem normalizeItems_eq_self {items : List Value} (normal : NormalItems items) :
    normalizeItems items = items := by
  cases items with
  | nil => rfl
  | cons item rest =>
      rw [normalizeItems, normalize_eq_self normal.1, normalizeItems_eq_self normal.2]

/-- Members in normal form come after those that are done if their keys do. -/
theorem normalizeMembers_eq_append {done members : List (String × Value)}
    (normal : NormalMembers members)
    (after : ∀ earlier ∈ done, ∀ later ∈ members, earlier.1 < later.1) :
    normalizeMembers done members = done ++ members := by
  cases members with
  | nil => simp [normalizeMembers]
  | cons head rest =>
      obtain ⟨key, value⟩ := head
      obtain ⟨hv, bound, hrest⟩ := normal
      rw [normalizeMembers, normalize_eq_self hv,
        insertMember_eq_append fun other member => after other member _ List.mem_cons_self,
        normalizeMembers_eq_append hrest, List.append_assoc]
      · rfl
      · intro earlier member later behind
        rcases List.mem_append.1 member with old | new
        · exact after earlier old later (List.mem_cons_of_mem _ behind)
        · rw [List.mem_singleton.1 new]
          exact bound later behind

end

theorem lookup_cons_ite (key : String) (value : Value) (members : List (String × Value))
    (name : String) : ((key, value) :: members).lookup name =
      if name = key then some value else members.lookup name := by
  rw [List.lookup_cons]
  by_cases same : name = key
  · simp [same]
  · simp [same, beq_eq_false_iff_ne.2 same]

theorem lookup_insertMember (key : String) (value : Value) (members : List (String × Value))
    (name : String) : (insertMember key value members).lookup name =
      if name = key then some value else members.lookup name := by
  induction members with
  | nil => exact lookup_cons_ite key value [] name
  | cons head rest ih =>
      obtain ⟨key', value'⟩ := head
      simp only [insertMember]
      split_ifs with less same <;> grind [lookup_cons_ite]

/-- Of several members with one name the last stays. -/
theorem lookup_normalizeMembers (done members : List (String × Value)) (name : String) :
    (normalizeMembers done members).lookup name =
      ((members.reverse.lookup name).map normalize).or (done.lookup name) := by
  induction members generalizing done with
  | nil => simp [normalizeMembers]
  | cons head rest ih =>
      obtain ⟨key, value⟩ := head
      rw [normalizeMembers, ih, lookup_insertMember, List.reverse_cons, List.lookup_append]
      cases rest.reverse.lookup name with
      | some found => rfl
      | none =>
          rw [lookup_cons_ite]
          by_cases same : name = key <;> simp [same]

theorem lookup_eq_none_of_lt {key : String} {members : List (String × Value)}
    (after : ∀ other ∈ members, key < other.1) : members.lookup key = none := by
  rw [List.lookup_eq_none_iff]
  intro other member
  simpa using (String.ne_of_lt (after other member))

/-- Members in normal form are known by the value of each name. -/
theorem NormalMembers.ext {members members' : List (String × Value)}
    (normal : NormalMembers members) (normal' : NormalMembers members')
    (same : ∀ name, members.lookup name = members'.lookup name) : members = members' := by
  induction members generalizing members' with
  | nil =>
      cases members' with
      | nil => rfl
      | cons head rest =>
          obtain ⟨key, value⟩ := head
          simpa [lookup_cons_ite] using same key
  | cons head rest ih =>
      obtain ⟨key, value⟩ := head
      obtain ⟨-, bound, later⟩ := normal
      cases members' with
      | nil => simpa [lookup_cons_ite] using same key
      | cons head' rest' =>
          obtain ⟨key', value'⟩ := head'
          obtain ⟨-, bound', later'⟩ := normal'
          have keys : key = key' := by
            by_contra different
            rcases lt_or_gt_of_ne different with less | greater
            · have none : rest'.lookup key = none := lookup_eq_none_of_lt fun other member =>
                String.lt_trans less (bound' other member)
              have := same key
              simp [lookup_cons_ite, none, different] at this
            · have none : rest.lookup key' = none := lookup_eq_none_of_lt fun other member =>
                String.lt_trans greater (bound other member)
              have := same key'
              simp [lookup_cons_ite, none, Ne.symm different] at this
          subst keys
          have values : value = value' := by simpa [lookup_cons_ite] using same key
          have rests : rest = rest' := by
            refine ih later later' fun name => ?_
            by_cases here : name = key
            · rw [here, lookup_eq_none_of_lt bound, lookup_eq_none_of_lt bound']
            · simpa [lookup_cons_ite, here] using same name
          rw [values, rests]

end Value

/-- Attributes are read from members exactly if each name has in them what its last member gives. -/
theorem Attributes.ofMembers_eq_iff {members : List (String × Value)} {attributes : Attributes} :
    ofMembers members = attributes ↔
      ∀ name, attributes.get? name = (members.reverse.lookup name).map Value.normalize := by
  have each (name : String) : (ofMembers members).get? name =
      (members.reverse.lookup name).map Value.normalize := by
    simp only [get?, ofMembers, Value.lookup_normalizeMembers, List.lookup_nil, Option.or_none]
  constructor
  · rintro rfl name
    exact each name
  · intro given
    have entries := (ofMembers members).normal.ext attributes.normal fun name =>
      (each name).trans (given name).symm
    cases attributes
    cases entries
    rfl

theorem Attributes.ofMembers_entries (attributes : Attributes) :
    ofMembers attributes.entries = attributes := by
  obtain ⟨entries, normal⟩ := attributes
  have same : Value.normalizeMembers [] entries = [] ++ entries :=
    Value.normalizeMembers_eq_append normal (by simp)
  simp only [ofMembers, same, List.nil_append]

end Dataflow

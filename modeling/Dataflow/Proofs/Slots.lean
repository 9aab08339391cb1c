import Dataflow.Proofs.Outcomes
import Dataflow.Proofs.Reading

/-! # What a tree gives for the fields of a record

A record stands in a tree as an object, whose members may come in any order, or as the list of its
first fields. Either way it gives at most one value for each field. Main statement: a record is read
off a tree by reading these values in the order of the fields.
-/

namespace Dataflow

/-- What a value gives for each of the named fields of a record, in their order. An object names a
    field at most once, and its other members do not count. -/
inductive Value.Fills (names : List String) : Value → List (Option Value) → Prop where
  | named {members : List (String × Value)} :
      (∀ name ∈ names, (members.map Prod.fst).count name ≤ 1) →
      Fills names (.object members) (names.map fun name => members.lookup name)
  | listed {items : List Value} : items.length ≤ names.length →
      Fills names (.array items)
        (items.map some ++ List.replicate (names.length - items.length) none)

namespace Value.Fills

variable {names : List String} {v : Value} {slots slots' : List (Option Value)}

theorem of_lookup {members : List (String × Value)}
    (once : ∀ name ∈ names, (members.map Prod.fst).count name ≤ 1)
    (found : (names.map fun name => members.lookup name) = slots) :
    Fills names (.object members) slots := found ▸ .named once

theorem length_eq (fills : Fills names v slots) : slots.length = names.length := by
  cases fills with
  | named => simp
  | listed short =>
      simp only [List.length_append, List.length_map, List.length_replicate]
      omega

theorem unique (fills : Fills names v slots) (fills' : Fills names v slots') : slots = slots' := by
  cases fills <;> cases fills' <;> rfl

/-- Below the record, one level is spent. -/
theorem nesting_le (fills : Fills names v slots) {levels : Nat} (fits : v.nesting ≤ levels + 1)
    {w : Value} (given : some w ∈ slots) : w.nesting ≤ levels := by
  cases fills with
  | named =>
      obtain ⟨name, -, found⟩ := List.mem_map.1 given
      have all := nestingMembers_le_iff.1 (Nat.le_of_succ_le_succ fits)
      obtain ⟨before, after, rfl, -⟩ := List.lookup_eq_some_iff.1 found
      exact all (name, w) (List.mem_append_right _ List.mem_cons_self)
  | @listed items =>
      have member : w ∈ items := by simpa [List.mem_replicate] using given
      exact nestingItems_le_iff.1 (Nat.le_of_succ_le_succ fits) w member

theorem nesting_pos (fills : Fills names v slots) : 0 < v.nesting := by
  cases fills <;> exact Nat.succ_pos _

end Value.Fills

namespace Reading

variable {convention : Convention} {α δ : Type}

/-- Reads what is given for the fields in turn. -/
def fill (levels : Nat) : List (Field (Reading convention) δ) → List (Option Value) → δ → Option δ
  | _ :: fields, none :: slots, draft => fill levels fields slots draft
  | field :: fields, some v :: slots, draft =>
    (field.reader.run levels v).bind fun change => fill levels fields slots (change draft)
  | _, _, draft => some draft

theorem fill_replicate_none (levels : Nat) (fields : List (Field (Reading convention) δ))
    (count : Nat) (draft : δ) :
    fill levels fields (List.replicate count none) draft = some draft := by
  induction fields generalizing count with
  | nil => cases count <;> rfl
  | cons field fields ih =>
      cases count with
      | zero => rfl
      | succ count => exact ih count

/-- The items of a list are given for the first fields. -/
theorem items_eq_fill (levels : Nat) (fields : List (Field (Reading convention) δ))
    {values : List Value} (short : values.length ≤ fields.length) (draft : δ) :
    items levels fields values draft =
      fill levels fields
        (values.map some ++ List.replicate (fields.length - values.length) none) draft := by
  induction fields generalizing values draft with
  | nil =>
      obtain rfl := List.length_eq_zero_iff.1 (Nat.le_zero.1 short)
      rfl
  | cons field fields ih =>
      cases values with
      | nil => exact (fill_replicate_none levels _ _ draft).symm
      | cons v values =>
          have shorter : values.length ≤ fields.length := Nat.le_of_succ_le_succ short
          simp only [items, List.map_cons, List.length_cons, Nat.add_sub_add_right,
            List.cons_append, fill, ih shorter]

theorem items_eq_none (levels : Nat) (fields : List (Field (Reading convention) δ))
    {values : List Value} (long : fields.length < values.length) (draft : δ) :
    items levels fields values draft = none := by
  induction fields generalizing values draft with
  | nil =>
      cases values with
      | nil => cases long
      | cons => rfl
  | cons field fields ih =>
      cases values with
      | nil => cases long
      | cons v values =>
          have longer : fields.length < values.length := Nat.lt_of_succ_lt_succ long
          simp only [items, ih longer]
          cases field.reader.run levels v <;> rfl

/-- The field makes the change of some value that it reads. -/
def Makes (field : Field (Reading convention) δ) (change : δ → δ) : Prop :=
  ∃ levels v, field.reader.run levels v = some change

/-- Two fields that do not get in each other's way. -/
structure Apart (f g : Field (Reading convention) δ) : Prop where
  name : f.name ≠ g.name
  comm : ∀ change change', Makes f change → Makes g change' →
    ∀ draft, change (change' draft) = change' (change draft)
  left : ∀ change, Makes g change → ∀ draft, f.isSet (change draft) = f.isSet draft
  right : ∀ change, Makes f change → ∀ draft, g.isSet (change draft) = g.isSet draft

theorem Apart.symm {f g : Field (Reading convention) δ} (apart : Apart f g) : Apart g f where
  name := apart.name.symm
  comm change change' made made' draft := (apart.comm change' change made' made draft).symm
  left := apart.right
  right := apart.left

/-- Each field sets itself in a draft, and no other one. -/
structure Separate (fields : List (Field (Reading convention) δ)) : Prop where
  sets : ∀ f ∈ fields, ∀ change, Makes f change → ∀ draft, f.isSet (change draft) = true
  apart : fields.Pairwise Apart

instance : Std.Symm (@Apart convention δ) where
  symm _ _ apart := apart.symm

theorem Separate.of_ne {fields : List (Field (Reading convention) δ)} (separate : Separate fields)
    {f g : Field (Reading convention) δ} (hf : f ∈ fields) (hg : g ∈ fields) (different : f ≠ g) :
    Apart f g :=
  separate.apart.forall hf hg different

theorem fill_append (levels : Nat) {fields : List (Field (Reading convention) δ)}
    {slots : List (Option Value)} (length : slots.length = fields.length)
    (fields' : List (Field (Reading convention) δ)) (slots' : List (Option Value)) (draft : δ) :
    fill levels (fields ++ fields') (slots ++ slots') draft =
      (fill levels fields slots draft).bind (fill levels fields' slots') := by
  induction fields generalizing slots draft with
  | nil =>
      obtain rfl := List.length_eq_zero_iff.1 length
      rfl
  | cons field fields ih =>
      cases slots with
      | nil => cases length
      | cons slot slots =>
          have length' : slots.length = fields.length := Nat.succ.inj length
          cases slot with
          | none => exact ih length' draft
          | some v =>
              simp only [List.cons_append, fill, Option.bind_assoc]
              exact congrArg _ (funext fun change => ih length' (change draft))

/-- A change that commutes with those of all fields may be made first. -/
theorem fill_comm (levels : Nat) {fields : List (Field (Reading convention) δ)} {change : δ → δ}
    (comm : ∀ f ∈ fields, ∀ change', Makes f change' →
      ∀ draft, change' (change draft) = change (change' draft))
    (slots : List (Option Value)) (draft : δ) :
    fill levels fields slots (change draft) = (fill levels fields slots draft).map change := by
  induction fields generalizing slots draft with
  | nil => rfl
  | cons field fields ih =>
      have later := ih fun f member => comm f (List.mem_cons_of_mem _ member)
      match slots with
      | [] => rfl
      | none :: slots => exact later slots draft
      | some v :: slots =>
          cases read : field.reader.run levels v with
          | none => simp [fill, read]
          | some change' =>
              have swap := comm field List.mem_cons_self change' ⟨levels, v, read⟩ draft
              simp only [fill, read, Option.bind_some, swap, later]

section

variable {fields : List (Field (Reading convention) δ)} (separate : Separate fields)

include separate

/-- A field that is given by the first member may be read first. -/
theorem fill_lookup_cons (levels : Nat) {field : Field (Reading convention) δ}
    {members : List (String × Value)} (v : Value)
    (found : fields.find? (·.name == field.name) = some field)
    (once : members.lookup field.name = none) (draft : δ) :
    fill levels fields (fields.map fun f => ((field.name, v) :: members).lookup f.name) draft =
      (field.reader.run levels v).bind fun change =>
        fill levels fields (fields.map fun f => members.lookup f.name) (change draft) := by
  obtain ⟨-, before, after, rfl, earlier⟩ := List.find?_eq_some_iff_append.1 found
  have others : ∀ f ∈ before ++ after, f.name ≠ field.name := by
    intro f member
    obtain ⟨-, rest, cross⟩ := List.pairwise_append.1 separate.apart
    rcases List.mem_append.1 member with old | new
    · exact (cross f old field List.mem_cons_self).name
    · exact ((List.pairwise_cons.1 rest).1 f new).name.symm
  have same (part : List (Field (Reading convention) δ)) (inside : ∀ f ∈ part, f ∈ before ++ after) :
      (part.map fun f => ((field.name, v) :: members).lookup f.name) =
        part.map fun f => members.lookup f.name := by
    apply List.map_congr_left
    intro f member
    simp [List.lookup_cons, beq_eq_false_iff_ne.2 (others f (inside f member))]
  have here : ((field.name, v) :: members).lookup field.name = some v := by simp
  rw [List.map_append, List.map_append, List.map_cons, List.map_cons, here, once,
    same before fun f member => List.mem_append_left _ member,
    same after fun f member => List.mem_append_right _ member,
    fill_append levels (by simp)]
  cases read : field.reader.run levels v with
  | none => simp [fill, read]
  | some change =>
      have comm : ∀ f ∈ before, ∀ change', Makes f change' →
          ∀ draft, change' (change draft) = change (change' draft) := by
        intro f member change' made draft
        have apart := (List.pairwise_append.1 separate.apart).2.2 f member field List.mem_cons_self
        exact apart.comm change' change made ⟨levels, v, read⟩ draft
      rw [Option.bind_some, fill_append levels (by simp), fill_comm levels comm]
      simp [fill, read, Option.bind_map]

omit separate in
/-- What a member gives that is no field is as if it were not there. -/
theorem slots_cons_of_other {name : String} (v : Value) (members : List (String × Value))
    (other : ∀ f ∈ fields, f.name ≠ name) :
    (fields.map fun f => ((name, v) :: members).lookup f.name) =
      fields.map fun f => members.lookup f.name := by
  apply List.map_congr_left
  intro f member
  rw [List.lookup_cons, beq_eq_false_iff_ne.2 (other f member)]

/-- Each field is given at most once, by a member that is left or by the draft. -/
def GivenOnce (fields : List (Field (Reading convention) δ)) (members : List (String × Value))
    (draft : δ) : Prop :=
  ∀ f ∈ fields, (members.map Prod.fst).count f.name + (f.isSet draft).toNat ≤ 1

omit separate in
theorem givenOnce_cons_of_other {name : String} (v : Value) (members : List (String × Value))
    (other : ∀ f ∈ fields, f.name ≠ name) (draft : δ) :
    GivenOnce fields ((name, v) :: members) draft ↔ GivenOnce fields members draft := by
  apply forall₂_congr
  intro f member
  rw [List.map_cons, List.count_cons_of_ne (other f member).symm]

omit separate in
/-- The field that the first member names is given by nothing else. -/
theorem GivenOnce.first {field : Field (Reading convention) δ} (inside : field ∈ fields)
    {v : Value} {members : List (String × Value)} {draft : δ}
    (once : GivenOnce fields ((field.name, v) :: members) draft) :
    field.isSet draft = false ∧ members.lookup field.name = none := by
  have bound := once field inside
  rw [List.map_cons, List.count_cons_self] at bound
  constructor
  · cases set : field.isSet draft with
    | false => rfl
    | true => simp [set] at bound
  · have missing : (members.map Prod.fst).count field.name = 0 := by omega
    rw [List.lookup_eq_none_iff]
    intro entry member
    rw [bne_iff_ne]
    intro same
    rw [same] at missing
    exact List.count_eq_zero.1 missing (List.mem_map_of_mem member)

/-- A field may be given by one member more before it is set than after. -/
theorem givenOnce_cons_iff {field : Field (Reading convention) δ} (inside : field ∈ fields)
    {v : Value} (members : List (String × Value)) {change : δ → δ} (made : Makes field change)
    {draft : δ} (unset : field.isSet draft = false) :
    GivenOnce fields ((field.name, v) :: members) draft ↔
      GivenOnce fields members (change draft) := by
  apply forall₂_congr
  intro f member
  by_cases same : f = field
  · subst same
    simp [unset, separate.sets f member change made draft]
  · have apart := separate.of_ne member inside same
    rw [List.map_cons, List.count_cons_of_ne apart.name.symm, apart.left change made draft]

omit separate in
theorem member_of_other {name : String} (found : fields.find? (·.name == name) = none)
    {levels : Nat} {v : Value} (fits : convention.limitsSkipped = true → v.nesting ≤ levels)
    (draft : δ) : member fields levels draft (name, v) = some draft := by
  have passed : ¬(convention.limitsSkipped && decide (levels < v.nesting)) = true := by
    simp only [Bool.and_eq_true, decide_eq_true_eq, not_and, not_lt]
    exact fits
  simp only [member, found]
  exact if_neg passed

/-- The members of an object, in whatever order, are given for the fields that they name. -/
theorem foldlM_member_eq_some_iff (levels : Nat) (members : List (String × Value))
    (limit : convention.limitsSkipped = true → Value.nestingMembers members ≤ levels)
    (draft draft' : δ) :
    members.foldlM (member fields levels) draft = some draft' ↔
      GivenOnce fields members draft ∧
        fill levels fields (fields.map fun f => members.lookup f.name) draft = some draft' := by
  induction members generalizing draft with
  | nil =>
      have none : (fields.map fun f => ([] : List (String × Value)).lookup f.name) =
          List.replicate fields.length none := by simp
      rw [none, fill_replicate_none]
      simp [GivenOnce, Bool.toNat_le]
  | cons entry members ih =>
      obtain ⟨name, v⟩ := entry
      have limits := fun limited => Nat.max_le.1 (limit limited)
      have later := ih fun limited => (limits limited).2
      rw [List.foldlM_cons, Option.bind_eq_bind]
      cases found : fields.find? (·.name == name) with
      | none =>
          have other : ∀ f ∈ fields, f.name ≠ name := by simpa using found
          rw [member_of_other found (fun limited => (limits limited).1), Option.bind_some, later,
            slots_cons_of_other v members other, givenOnce_cons_of_other v members other]
      | some field =>
          obtain rfl : field.name = name := by simpa using List.find?_some found
          have inside : field ∈ fields := List.mem_of_find?_eq_some found
          cases set : field.isSet draft with
          | true =>
              refine iff_of_false (by simp [member, found, set]) ?_
              rintro ⟨once, -⟩
              cases set.symm.trans (once.first inside).1
          | false =>
              have here : member fields levels draft (field.name, v) =
                  (field.reader.run levels v).map fun change => change draft := by
                simp [member, found, set]
              cases read : field.reader.run levels v with
              | none =>
                  refine iff_of_false (by simp [here, read]) ?_
                  rintro ⟨once, filled⟩
                  rw [fill_lookup_cons separate levels v found (once.first inside).2, read]
                    at filled
                  cases filled
              | some change =>
                  rw [here, read, Option.map_some, Option.bind_some, later,
                    ← givenOnce_cons_iff separate inside members ⟨levels, v, read⟩ set]
                  refine and_congr_right fun once => ?_
                  rw [fill_lookup_cons separate levels v found (once.first inside).2, read,
                    Option.bind_some]

end

/-- A record is read off a tree by reading what the tree gives for each of its fields. -/
theorem run_record {r : Record (Reading convention) δ α} (separate : Separate r.fields)
    (blank : ∀ f ∈ r.fields, f.isSet r.blank = false) {levels : Nat} {v : Value}
    (limit : convention.limitsSkipped = true → v.nesting ≤ levels + 1) (x : α) :
    (record r).run (levels + 1) v = some x ↔
      ∃ slots draft, v.Fills (r.fields.map (·.name)) slots ∧
        fill levels r.fields slots r.blank = some draft ∧ r.finish draft = .ok x := by
  cases v with
  | object members =>
      have each := foldlM_member_eq_some_iff separate levels members
        (fun limited => Nat.le_of_succ_le_succ (limit limited)) r.blank
      simp only [record, Option.bind_eq_some_iff, each, Except.toOption_eq_some]
      constructor
      · rintro ⟨draft, ⟨once, filled⟩, finished⟩
        refine ⟨_, draft, .named ?_, by rwa [List.map_map], finished⟩
        rintro _ named
        obtain ⟨f, member, rfl⟩ := List.mem_map.1 named
        simpa [blank f member] using once f member
      · rintro ⟨_, draft, fills, filled, finished⟩
        cases fills with
        | named once =>
            refine ⟨draft, ⟨fun f member => ?_, by rwa [List.map_map] at filled⟩, finished⟩
            simpa [blank f member] using once f.name (List.mem_map_of_mem member)
  | array values =>
      simp only [record, Option.bind_eq_some_iff, Except.toOption_eq_some]
      constructor
      · rintro ⟨draft, filled, finished⟩
        have short : values.length ≤ r.fields.length := by
          by_contra long
          rw [items_eq_none levels r.fields (Nat.lt_of_not_le long)] at filled
          cases filled
        rw [items_eq_fill levels r.fields short] at filled
        refine ⟨_, draft, .listed (by simpa using short), by simpa using filled, finished⟩
      · rintro ⟨_, draft, fills, filled, finished⟩
        cases fills with
        | listed short =>
            rw [List.length_map] at short filled
            exact ⟨draft, by rwa [items_eq_fill levels r.fields short], finished⟩
  | null | bool | int | double | string =>
      refine iff_of_false (by simp [record]) ?_
      rintro ⟨_, _, ⟨⟩, _⟩

end Reading

end Dataflow

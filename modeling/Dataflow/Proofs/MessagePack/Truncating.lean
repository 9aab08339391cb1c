import Dataflow.Proofs.MessagePack.Yielding

/-! # Bytes that are cut off

A reader that is given fewer bytes either runs out of them, and says so, or does not miss those that
are gone. Main statement: this holds of the reader of descriptions.
-/

namespace Dataflow.MessagePack

/-- What a step works on or comes to, some bytes last, and the same with more bytes at the end. -/
class Leaves (α : Type) where
  extend : Bytes → α → α

open Leaves (extend)

instance : Leaves Bytes where
  extend rest bytes := bytes ++ rest

instance {α β : Type} [Leaves β] : Leaves (α × β) where
  extend rest pair := (pair.1, extend rest pair.2)

/-- The bytes end where more of them are due. -/
def RunsOut {α : Type} (outcome : Except Error α) : Prop :=
  outcome = .error .noMarker ∨ outcome = .error .noData

/-- The step runs out of bytes, or comes to the same when more of them follow. -/
def Decisive {α β : Type} [Leaves α] [Leaves β] (step : α → Except Error β) : Prop :=
  ∀ x rest, RunsOut (step x) ∨ step (extend rest x) = (step x).map (extend rest)

theorem RunsOut.bind {α β : Type} {outcome : Except Error α} (out : RunsOut outcome)
    (next : α → Except Error β) : RunsOut (outcome >>= next) := by
  obtain rfl | rfl := out
  · exact .inl rfl
  · exact .inr rfl

section

variable {α β γ δ : Type} [Leaves α] [Leaves β] [Leaves γ]

namespace Decisive

theorem bind {step : α → Except Error β} {next : β → Except Error γ} (first : Decisive step)
    (second : Decisive next) : Decisive fun x => step x >>= next := by
  intro x rest
  obtain out | same := first x rest
  · exact .inl (out.bind next)
  · simp only [same]
    cases step x with
    | error e => exact .inr rfl
    | ok y => exact second y rest

/-- The second step need only be decisive on what the first one can yield. -/
theorem bindOn (yields : δ → Prop) {step : α → Except Error (δ × β)}
    {next : δ × β → Except Error γ} (first : Decisive step)
    (only : ∀ x d y, step x = .ok (d, y) → yields d)
    (second : ∀ d, yields d → Decisive fun y => next (d, y)) :
    Decisive fun x => step x >>= next := by
  intro x rest
  obtain out | same := first x rest
  · exact .inl (out.bind next)
  · simp only [same]
    cases read : step x with
    | error e => exact .inr rfl
    | ok pair => exact second pair.1 (only x _ _ read) pair.2 rest

theorem map {step : α → Except Error β} (first : Decisive step) {f : β → γ}
    (same : ∀ y rest, f (extend rest y) = extend rest (f y)) :
    Decisive fun x => (step x).map f := by
  intro x rest
  obtain (out | out) | extended := first x rest
  · exact .inl (.inl (congrArg _ out))
  · exact .inl (.inr (congrArg _ out))
  · refine .inr ?_
    simp only [extended]
    cases step x with
    | error e => rfl
    | ok y => exact congrArg Except.ok (same y rest)

/-- A step that takes a pair apart. -/
theorem pair {step : δ × α → Except Error β} (each : ∀ d, Decisive fun x => step (d, x)) :
    Decisive step := fun x rest => each x.1 x.2 rest

theorem ok {f : α → β} (same : ∀ x rest, f (extend rest x) = extend rest (f x)) :
    Decisive fun x => .ok (f x) := fun x rest => .inr (congrArg Except.ok (same x rest))

theorem done (d : δ) : Decisive fun x : α => .ok (d, x) := ok fun _ _ => rfl

theorem error (e : Error) : Decisive fun _ : α => (.error e : Except Error β) :=
  fun _ _ => .inr rfl

/-- A step after an outcome that does not depend on the bytes. -/
theorem after (outcome : Except Error δ) {next : δ → α → Except Error β}
    (each : ∀ d, Decisive (next d)) : Decisive fun x => outcome >>= fun d => next d x := by
  cases outcome with
  | error e => exact error e
  | ok d => exact each d

end Decisive

end

theorem decisive_takeBytes (count : Nat) : Decisive (takeBytes count) := by
  intro bytes rest
  by_cases enough : (bytes.take count).length = count
  · refine .inr ?_
    have taken : takeBytes count bytes = .ok (bytes.take count, bytes.drop count) := if_pos enough
    rw [taken]
    exact extends_takeBytes count bytes _ _ taken rest trivial
  · exact .inl (.inr (if_neg enough))

theorem decisive_takeNat (width : Nat) : Decisive (takeNat width) :=
  (decisive_takeBytes width).bind (.pair fun _ => .done _)

theorem decisive_numberHead (width : Nat) (f : Nat → Head) : Decisive (numberHead width f) :=
  (decisive_takeNat width).bind (.pair fun _ => .done _)

theorem decisive_contentHead (size : Nat) (f : Bytes → Head) : Decisive (contentHead size f) :=
  (decisive_takeBytes size).bind (.pair fun _ => .done _)

theorem decisive_sizedHead (width : Nat) (f : Bytes → Head) : Decisive (sizedHead width f) :=
  (decisive_takeNat width).bind (.pair fun size => decisive_contentHead size f)

theorem decisive_headOf (marker : UInt8) : Decisive (headOf marker) := by
  unfold headOf
  dsimp only
  generalize marker.toNat = m
  split_ifs
  · exact .done _
  · exact .done _
  · exact .done _
  · exact decisive_contentHead _ _
  split
  all_goals first
    | exact .done _
    | exact .error _
    | exact decisive_numberHead _ _
    | exact decisive_sizedHead _ _

theorem decisive_head : Decisive head := by
  intro bytes rest
  cases bytes with
  | nil => exact .inl (.inl rfl)
  | cons marker bytes => exact decisive_headOf marker bytes rest

/-- What is refused is refused whatever follows. -/
theorem decisive_refuse {α : Type} [Leaves α] (h : Head) (levels : Nat) (expected : Expected) :
    Decisive fun _ : Bytes => (h.refuse levels expected : Except Error α) := by
  intro _ rest
  have none := toOption_refuse (α := α) h levels expected
  cases refused : (h.refuse levels expected : Except Error α) with
  | error e => exact .inr rfl
  | ok x => simp [refused] at none

variable {α δ : Type}

theorem decisive_text (levels : Nat) : Decisive (text levels) := by
  refine decisive_head.bind (.pair fun h => ?_)
  cases h with
  | text content => exact .after _ fun _ => .done _
  | bytes content =>
      cases read : Bytes.toString? content with
      | none => simpa only [read] using Decisive.error _
      | some s => simpa only [read] using Decisive.done s
  | _ => exact decisive_refuse _ _ _

theorem decisive_objectKey (levels : Nat) : Decisive (objectKey levels) := by
  refine decisive_head.bind (.pair fun h => ?_)
  cases h with
  | text content => exact .after _ fun _ => .done _
  | _ => exact decisive_refuse _ _ _

theorem decisive_entries {entry : Bytes → Except Error (α × Bytes)} (each : Decisive entry)
    (count : Nat) (done : List α) : Decisive (entries entry count done) := by
  induction count generalizing done with
  | zero => exact .done _
  | succ count ih => exact each.bind (.pair fun x => ih (x :: done))

section

variable {key : Bytes → Except Error (String × Bytes)}
  {value : Bytes → Except Error (Value × Bytes)}

theorem decisive_member (keys : Decisive key) (values : Decisive value) :
    Decisive (member key value) :=
  keys.bind (.pair fun _ => values.bind (.pair fun _ => .done _))

theorem decisive_objectMembers (values : Decisive value) (levels count : Nat) :
    Decisive (objectMembers levels count value) := by
  cases count with
  | zero => exact .done _
  | succ count =>
      exact (decisive_member (decisive_objectKey levels) values).bind
        (.pair fun first => decisive_entries (decisive_member (decisive_text levels) values) _ _)

end

theorem decisive_valueOver {inner : Option (Nat × (Bytes → Except Error (Value × Bytes)))}
    (values : ∀ levels value, inner = some (levels, value) → Decisive value) :
    Decisive (valueOver inner) := by
  refine decisive_head.bind (.pair fun h => ?_)
  cases h with
  | nil | bool | unsigned | signed | float => exact .done _
  | text content => exact .after _ fun _ => .done _
  | bytes => exact .error _
  | extension => cases inner <;> exact .error _
  | list count =>
      match inner, values with
      | none, _ => exact .error _
      | some (levels, value), values =>
          exact (decisive_entries (values levels value rfl) count []).bind (.pair fun _ => .done _)
  | map count =>
      match inner, values with
      | none, _ => exact .error _
      | some (levels, value), values =>
          exact (decisive_objectMembers (values levels value rfl) levels count).bind
            (.pair fun _ => .done _)

theorem decisive_value (levels : Nat) : Decisive (value levels) := by
  induction levels with
  | zero => exact decisive_valueOver (by simp)
  | succ levels ih =>
      refine decisive_valueOver fun _ _ same => ?_
      cases same
      exact ih

theorem decisive_skipEntries {skip : Bytes → Except Error Bytes} (each : Decisive skip)
    (count : Nat) : Decisive (skipEntries skip count) := by
  induction count with
  | zero => exact .ok fun _ _ => rfl
  | succ count ih => exact each.bind ih

theorem decisive_skipOver {inner : Option (Bytes → Except Error Bytes)}
    (skips : ∀ skip, inner = some skip → Decisive skip) : Decisive (skipOver inner) := by
  refine decisive_head.bind (.pair fun h => ?_)
  cases h with
  | list count =>
      match inner, skips with
      | none, _ => exact .error _
      | some skip, skips => exact decisive_skipEntries (skips skip rfl) count
  | map count =>
      match inner, skips with
      | none, _ => exact .error _
      | some skip, skips => exact decisive_skipEntries (skips skip rfl) (2 * count)
  | extension size =>
      match inner, skips with
      | none, _ => exact .error _
      | some skip, _ => exact (decisive_takeBytes (size + 1)).map fun _ _ => rfl
  | _ => exact .ok fun _ _ => rfl

theorem decisive_skip (levels : Nat) : Decisive (skip levels) := by
  induction levels with
  | zero => exact decisive_skipOver (by simp)
  | succ levels ih =>
      refine decisive_skipOver fun _ same => ?_
      cases same
      exact ih

/-- The reader of a schema runs out of bytes or does not miss any. -/
def Decides (α : Type) (reader : Reader α) : Prop := ∀ levels, Decisive (reader.run levels)

theorem decisive_settle (outcome : Except Violation α) :
    Decisive fun rest : Bytes => Reader.settle outcome rest := by
  cases outcome with
  | error => exact .error _
  | ok x => exact .done x

section

variable {fields : List (Field Reader δ)}

theorem decisive_keyField (levels : Nat) : Decisive (Reader.keyField fields levels) := by
  refine decisive_head.bind (.pair fun h => ?_)
  cases h with
  | text | bytes | unsigned => exact .done _
  | _ => exact decisive_refuse _ _ _

variable (each : ∀ field ∈ fields, Decides (δ → δ) field.reader)

include each

theorem decisive_fieldMembers (levels count : Nat) (draft : δ) :
    Decisive (Reader.fieldMembers fields levels count draft) := by
  induction count generalizing draft with
  | zero => exact .done _
  | succ count ih =>
      refine .bindOn (fun found => ∀ field, found = some field → field ∈ fields)
        (decisive_keyField levels) ?_ fun found inside => ?_
      · rintro bytes _ left found field rfl
        exact mem_of_keyField found
      cases found with
      | none => exact (decisive_skip levels).bind (ih draft)
      | some field =>
          cases set : field.isSet draft with
          | true =>
              simp only [set, if_true]
              exact .error _
          | false =>
              simp only [set, Bool.false_eq_true, if_false]
              exact (each field (inside field rfl) levels).bind
                (.pair fun change => ih (change draft))

theorem decisive_fieldItems (levels count : Nat) (draft : δ) :
    Decisive (Reader.fieldItems levels fields count draft) := by
  induction fields generalizing count draft with
  | nil => exact .ok fun _ _ => rfl
  | cons field fields ih =>
      obtain ⟨here, there⟩ := List.forall_mem_cons.1 each
      cases count with
      | zero => exact .ok fun _ _ => rfl
      | succ count => exact (here levels).bind (.pair fun change => ih there count (change draft))

end

theorem decides_map {β : Type} (f : α → β) {reader : Reader α} (decides : Decides α reader) :
    Decides β (Readers.map f reader) :=
  fun levels => (decides levels).bind (.pair fun _ => .done _)

theorem decides_unsigned : Decides UInt64 Readers.unsigned := by
  intro levels bytes rest
  cases bytes with
  | nil => exact .inl (.inl rfl)
  | cons marker bytes =>
      change RunsOut (Reader.unsigned.run levels (marker :: bytes)) ∨
        Reader.unsigned.run levels (marker :: (bytes ++ rest)) =
          (Reader.unsigned.run levels (marker :: bytes)).map (extend rest)
      simp only [Reader.unsigned]
      split
      · refine ((decisive_headOf marker).bind (.pair fun h => ?_)) bytes rest
        cases h with
        | unsigned n => exact .done _
        | signed n =>
            cases value : (Integer.ofInt64 n).toUInt64? with
            | none =>
                simp only [value]
                exact .error _
            | some m =>
                simp only [value]
                exact .done m
        | _ => exact decisive_refuse _ _ _
      · exact .inr rfl

theorem decides_text : Decides String Readers.text := decisive_text

theorem decides_attributes : Decides Attributes Readers.attributes := by
  intro levels
  refine decisive_head.bind (.pair fun h => ?_)
  cases h with
  | nil => exact .done _
  | map count =>
      refine .after _ fun inner => ?_
      exact (decisive_entries (decisive_member (decisive_text inner) (decisive_value inner)) count
        []).bind (.pair fun _ => .done _)
  | _ => exact decisive_refuse _ _ _

theorem decides_list {reader : Reader α} (decides : Decides α reader) :
    Decides (List α) (Readers.list reader) := by
  intro levels
  refine decisive_head.bind (.pair fun h => ?_)
  cases h with
  | list count => exact .after _ fun inner => decisive_entries (decides inner) count []
  | bytes content => exact decisive_settle _
  | _ => exact decisive_refuse _ _ _

theorem decides_record {r : Record Reader δ α}
    (each : ∀ field ∈ r.fields, Decides (δ → δ) field.reader) :
    Decides α (Readers.record r) := by
  intro levels
  refine decisive_head.bind (.pair fun h => ?_)
  cases h with
  | map count =>
      refine .after _ fun inner => ?_
      exact (decisive_fieldMembers each inner count r.blank).bind
        (.pair fun draft => decisive_settle _)
  | list count =>
      refine .after _ fun inner => ?_
      refine (decisive_fieldItems each inner count r.blank).bind
        (.pair fun draft => .pair fun left => ?_)
      refine (decisive_settle (r.ofItems draft)).bind (.pair fun x => ?_)
      by_cases none : left = 0
      · simp only [none, if_true]
        exact .done _
      · simp only [none, if_false]
        exact .error _
  | bytes content => exact decisive_settle _
  | _ => exact decisive_refuse _ _ _

theorem simulates_decides :
    Simulates fun α (reader : Reader α) (_ : Reader α) => Decides α reader where
  map f _ _ decides := decides_map f decides
  unsigned := decides_unsigned
  text := decides_text
  attributes := decides_attributes
  list decides := decides_list decides
  record corresponds := decides_record fun field member => by
    obtain ⟨_, -, same⟩ := Field.exists_corresponds _ corresponds.fields member
    exact same.reader

/-- Of a description that is written, every proper part at the start runs out of bytes. -/
theorem runsOut_of_cut {description : ModelDescription}
    (whole : decode (encode description) = .ok description) {kept rest : Bytes}
    (cut : kept ++ rest = encode description) (proper : rest ≠ []) :
    RunsOut (decode kept : Except Error ModelDescription) := by
  obtain ⟨⟨_, left⟩, read, -⟩ := Except.map_eq_ok_iff.1 whole
  -- the reader stops at the end of what is written
  have all := simulates.description maxLevels _ _ (spells_write (sized_of_decode whole)) []
  rw [List.append_nil, ← encode, Except.toOption_eq_some.2 read] at all
  obtain ⟨_, -, ended⟩ := Option.map_eq_some_iff.1 all.symm
  obtain rfl : [] = left := (Prod.mk.inj ended).2
  obtain out | extended := simulates_decides.description maxLevels kept rest
  · obtain out | out := out
    · exact .inl (congrArg _ out)
    · exact .inr (congrArg _ out)
  · rw [show extend rest kept = encode description from cut, read] at extended
    obtain ⟨⟨_, unread⟩, -, ended⟩ := Except.map_eq_ok_iff.1 extended.symm
    have nothing : unread ++ rest = [] := (Prod.mk.inj ended).2
    exact absurd (List.append_eq_nil_iff.1 nothing).2 proper

end Dataflow.MessagePack

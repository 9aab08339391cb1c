import Dataflow.Proofs.Json.Spelling

/-! # Reading what spells a value in JSON

The readers of the format agree with those of trees on every text that spells a tree. Main
statements: values are kept if they are not nested too deep, and passed over however deep they are.
-/

namespace Dataflow.Json

/-- Null is no attributes, and what is passed over may nest to any depth. -/
def convention : Convention where
  nullAttributes := false
  limitsSkipped := false

/-- The parser makes of a text that spells a value what the reading makes of the value. -/
def Reads {α : Type} (parse : Bytes → Except Error (α × Bytes)) (read : Value → Option α)
    (value : Value) : Prop :=
  ∀ blanks, Blank blanks → ∀ bytes, Spells value bytes → ∀ rest, Delimited rest →
    (parse (blanks ++ (bytes ++ rest))).toOption = (read value).map fun x => (x, rest)

/-- The parser makes of a member, from its colon on, what the step makes of it. -/
def ReadsMember {σ : Type} (parse : σ → String → Bytes → Except Error (σ × Bytes))
    (step : σ → String × Value → Option σ) (entry : String × Value) : Prop :=
  ∀ state blanks, Blank blanks → ∀ blanks', Blank blanks' → ∀ bytes, Spells entry.2 bytes →
    ∀ rest, Delimited rest →
      (parse state entry.1 (blanks ++ 0x3a :: (blanks' ++ (bytes ++ rest)))).toOption =
        (step state entry).map fun state => (state, rest)

variable {α σ : Type}

theorem toOption_listEntries {parse : Bytes → Except Error (α × Bytes)} {read : Value → Option α}
    {first : Bool} {items : List Value} {body : Bytes} (spelled : SpellsItems first items body)
    (each : ∀ item ∈ items, Reads parse read item) {clock : Bytes}
    (enough : body.length ≤ clock.length) (done : List α) (rest : Bytes) :
    (listEntries parse clock first done (body ++ rest)).toOption =
      (items.mapM read).map fun xs => (done.reverse ++ xs, rest) := by
  induction items generalizing first body clock done with
  | nil =>
      cases spelled with
      | nil blank =>
          cases clock with
          | nil => simp at enough
          | cons tick clock =>
              have closed := next_closed blank .list first rest
              simp only [Bracket.close] at closed
              simp [listEntries, closed, Bind.bind, Except.bind]
  | cons item items ih =>
      cases spelled with
      | @cons _ _ _ _ _ _ body separates blank spelled later =>
          obtain ⟨b, tail, rfl, starts⟩ := spelled.exists_cons
          obtain ⟨left, blank, found⟩ :=
            next_entry separates blank starts .list (tail ++ (body ++ rest))
          have here := each item List.mem_cons_self left blank _ spelled _ (later.delimited rest)
          cases clock with
          | nil => simp at enough
          | cons tick clock =>
              have still : body.length ≤ clock.length := by
                simp at enough
                omega
              have there := ih later
                (fun other member => each other (List.mem_cons_of_mem _ member)) still
              simp only [listEntries, List.append_assoc, List.cons_append] at here ⊢
              rw [found, Except.toOption_bind, Except.toOption_ok, Option.bind_some,
                Except.toOption_bind, here, List.mapM_cons]
              cases read item with
              | none => rfl
              | some x =>
                  simp [there, Option.map_eq_bind, Option.bind_assoc]

theorem toOption_objectMembers {parse : σ → String → Bytes → Except Error (σ × Bytes)}
    {step : σ → String × Value → Option σ} {first : Bool} {members : List (String × Value)}
    {body : Bytes} (spelled : SpellsMembers first members body)
    (each : ∀ entry ∈ members, ReadsMember parse step entry) {clock : Bytes}
    (enough : body.length ≤ clock.length) (state : σ) (rest : Bytes) :
    (objectMembers parse clock first state (body ++ rest)).toOption =
      (members.foldlM step state).map fun state => (state, rest) := by
  induction members generalizing first body clock state with
  | nil =>
      cases spelled with
      | nil blank =>
          cases clock with
          | nil => simp at enough
          | cons tick clock =>
              have closed := next_closed blank .object first rest
              simp only [Bracket.close] at closed
              simp [objectMembers, closed, Bind.bind, Except.bind]
  | cons entry members ih =>
      cases spelled with
      | @cons _ name v _ _ _ content blanks' blanks'' bytes body separates blank named ahead
            behind spelled later =>
          obtain ⟨left, blank, found⟩ := next_entry separates blank
            (show startsValue 0x22 from rfl) .object
            (content ++ (blanks' ++ 0x3a :: (blanks'' ++ (bytes ++ (body ++ rest)))))
          have here := each _ List.mem_cons_self state blanks' ahead blanks'' behind bytes spelled _
            (later.delimited rest)
          cases clock with
          | nil => simp at enough
          | cons tick clock =>
              have still : body.length ≤ clock.length := by
                simp at enough
                omega
              have there := ih later
                (fun other member => each other (List.mem_cons_of_mem _ member)) still
              simp only [objectMembers, List.append_assoc, List.cons_append, found,
                Except.toOption_bind, Except.toOption_ok, Option.bind_some,
                key_append blank named, here, List.foldlM_cons]
              cases step state (name, v) with
              | none => rfl
              | some next => exact there next

theorem readsMember_kept {parse : Bytes → Except Error (Value × Bytes)}
    {read : Value → Option Value} {entry : String × Value} (reads : Reads parse read entry.2) :
    ReadsMember (keptMember parse)
      (fun done entry => (read entry.2).map fun v => (entry.1, v) :: done) entry := by
  intro done blanks ahead blanks' behind bytes spelled rest delimited
  rw [keptMember, colon_append ahead, Except.toOption_bind, Except.toOption_ok, Option.bind_some,
    Except.toOption_bind, reads blanks' behind bytes spelled rest delimited]
  dsimp only
  cases read entry.2 <;> rfl

theorem foldlM_kept (levels : Nat) (members done : List (String × Value)) :
    (members.foldlM
      (fun done entry => (Value.kept levels entry.2).map fun v => (entry.1, v) :: done) done) =
      if Value.nestingMembers members ≤ levels then some (members.reverse ++ done) else none := by
  induction members generalizing done with
  | nil => simp [Value.nestingMembers]
  | cons entry members ih =>
      obtain ⟨name, v⟩ := entry
      rw [List.foldlM_cons]
      by_cases fits : v.nesting ≤ levels
      · have here : v.kept levels = some v := if_pos fits
        simp [here, ih, Value.nestingMembers, fits]
      · have here : v.kept levels = none := if_neg fits
        simp [here, Value.nestingMembers, fits]

theorem valueOver_scalar {v : Value} (scalar : v.nesting = 0) {bytes rest : Bytes}
    (read : token bytes = .ok (firstToken v, rest))
    (inner : Option (Bytes → Except Error (Value × Bytes))) :
    valueOver inner bytes = .ok (v, rest) := by
  simp only [valueOver, read, Bind.bind, Except.bind]
  cases v with
  | array | object => simp [Value.nesting] at scalar
  | _ => rfl

theorem exists_valueOver (levels : Nat) : ∃ inner, value levels = valueOver inner := by
  cases levels with
  | zero => exact ⟨none, funext fun _ => rfl⟩
  | succ levels => exact ⟨some (value levels), funext fun _ => rfl⟩

/-- Values are read as they are, if they nest at most as deep as there are levels. -/
theorem reads_value (v : Value) : ∀ levels, Reads (value levels) (Value.kept levels) v := by
  induction v using Value.induction with
  | null | bool | int | double | string =>
      intro levels blanks blank bytes spelled rest delimited
      obtain ⟨inner, same⟩ := exists_valueOver levels
      have read := (spelled.token_scalar rfl delimited).1
      rw [same, valueOver_scalar rfl ((token_append blank _).trans read)]
      rfl
  | array items ih =>
      intro levels blanks blank bytes spelled rest delimited
      obtain ⟨body, spelled, opens⟩ := spelled.exists_items rest
      cases levels with
      | zero => simp [value, valueOver, token_append blank, opens, Except.toOption_bind,
          Value.kept, Value.nesting]
      | succ levels =>
          have enough : body.length ≤ (body ++ rest).length := by simp
          have all := toOption_listEntries spelled (fun item member => ih item member levels)
            enough [] rest
          rw [Value.mapM_kept] at all
          simp only [value, valueOver, token_append blank, opens, Except.toOption_bind,
            Except.toOption_ok, Option.bind_some, all, Value.kept, Value.nesting,
            Nat.add_le_add_iff_right]
          split <;> rfl
  | object members ih =>
      intro levels blanks blank bytes spelled rest delimited
      obtain ⟨body, spelled, opens⟩ := spelled.exists_members rest
      cases levels with
      | zero => simp [value, valueOver, token_append blank, opens, Except.toOption_bind,
          Value.kept, Value.nesting]
      | succ levels =>
          have enough : body.length ≤ (body ++ rest).length := by simp
          have all := toOption_objectMembers spelled
            (fun entry member => readsMember_kept (ih entry member levels)) enough [] rest
          rw [foldlM_kept] at all
          simp only [value, valueOver, token_append blank, opens, Except.toOption_bind,
            Except.toOption_ok, Option.bind_some, all, Value.kept, Value.nesting,
            Nat.add_le_add_iff_right]
          split <;> simp

/-- The entries that are left of what was opened last are passed over, up to its closing bracket. -/
def Closes (bracket : Bracket) (first : Bool) (body : Bytes) : Prop :=
  ∀ clock outer rest, (body ++ rest).length ≤ clock.length →
    ∃ clock', rest.length ≤ clock'.length ∧
      skipEntries clock first (bracket :: outer) (body ++ rest) =
        skipEntries clock' false outer rest

/-- The value is passed over as one token, or as an opening bracket and what belongs to it. -/
def Passes (v : Value) : Prop :=
  ∀ bytes, Spells v bytes → ∀ rest, Delimited rest →
    skipToken (bytes ++ rest) = .ok (none, rest) ∨
      ∃ bracket body, skipToken (bytes ++ rest) = .ok (some bracket, body ++ rest) ∧
        body.length < bytes.length ∧ Closes bracket true body

/-- What comes after the token of an entry. -/
def skipAfter (clock : Bytes) (outer : List Bracket) : Option Bracket × Bytes → Except Error Bytes
  | (none, rest) => skipEntries clock false outer rest
  | (some inner, rest) => skipEntries clock true (inner :: outer) rest

theorem skipEntries_entry {bracket : Bracket} {first : Bool} {bytes entry content : Bytes}
    (found : next bracket first bytes = .ok (.entry entry))
    (keyed : skipKey bracket entry = .ok content) (tick : UInt8) (clock : Bytes)
    (outer : List Bracket) :
    skipEntries (tick :: clock) first (bracket :: outer) bytes =
      skipToken content >>= skipAfter clock (bracket :: outer) := by
  simp only [skipEntries, found, keyed, Bind.bind, Except.bind]
  cases skipToken content with
  | error e => rfl
  | ok read =>
      obtain ⟨token, rest⟩ := read
      cases token <;> rfl

theorem Passes.skipEntry {v : Value} (passes : Passes v) {bytes : Bytes} (spelled : Spells v bytes)
    {blanks : Bytes} (blank : Blank blanks) {rest : Bytes} (delimited : Delimited rest)
    {clock : Bytes} (enough : (bytes ++ rest).length ≤ clock.length + 1) (outer : List Bracket) :
    ∃ clock', rest.length ≤ clock'.length ∧
      skipToken (blanks ++ (bytes ++ rest)) >>= skipAfter clock outer =
        skipEntries clock' false outer rest := by
  rw [skipToken_append blank]
  obtain scalar | ⟨bracket, body, opens, shorter, closes⟩ := passes bytes spelled rest delimited
  · refine ⟨clock, ?_, by rw [scalar]; rfl⟩
    obtain ⟨b, tail, rfl, -⟩ := spelled.exists_cons
    simp at enough
    omega
  · rw [opens]
    apply closes
    simp at enough ⊢
    omega

theorem closes_items {first : Bool} {items : List Value} {body : Bytes}
    (spelled : SpellsItems first items body) (each : ∀ item ∈ items, Passes item) :
    Closes .list first body := by
  intro clock outer rest enough
  induction items generalizing first body clock with
  | nil =>
      cases spelled with
      | nil blank =>
          cases clock with
          | nil => simp at enough
          | cons tick clock =>
              have closed := next_closed blank .list first rest
              simp only [Bracket.close] at closed
              refine ⟨clock, by simp at enough; omega, ?_⟩
              simp [skipEntries, closed, Bind.bind, Except.bind]
  | cons item items ih =>
      cases spelled with
      | @cons _ _ _ _ _ _ body separates blank spelled later =>
          obtain ⟨b, tail, rfl, starts⟩ := spelled.exists_cons
          obtain ⟨left, blank, found⟩ :=
            next_entry separates blank starts .list (tail ++ (body ++ rest))
          cases clock with
          | nil => simp at enough
          | cons tick clock =>
              have still : (b :: tail ++ (body ++ rest)).length ≤ clock.length + 1 := by
                simp at enough ⊢
                omega
              obtain ⟨clock', enough', passed⟩ := (each item List.mem_cons_self).skipEntry spelled
                blank (later.delimited rest) still (.list :: outer)
              obtain ⟨clock'', enough'', same⟩ := ih later
                (fun other member => each other (List.mem_cons_of_mem _ member)) clock' enough'
              refine ⟨clock'', enough'', ?_⟩
              rw [← same, ← passed]
              simp only [List.append_assoc, List.cons_append]
              exact skipEntries_entry found rfl tick clock _

theorem skipKey_object {blanks content blanks' : Bytes} (blank : Blank blanks) {name : String}
    (named : text content = .ok (name, [])) (ahead : Blank blanks') (rest : Bytes) :
    skipKey .object (blanks ++ 0x22 :: (content ++ (blanks' ++ 0x3a :: rest))) = .ok rest := by
  simp only [skipKey, openKey_append blank, skipText_of_text (text_append named _), Bind.bind,
    Except.bind]
  exact colon_append ahead rest

theorem closes_members {first : Bool} {members : List (String × Value)} {body : Bytes}
    (spelled : SpellsMembers first members body) (each : ∀ entry ∈ members, Passes entry.2) :
    Closes .object first body := by
  intro clock outer rest enough
  induction members generalizing first body clock with
  | nil =>
      cases spelled with
      | nil blank =>
          cases clock with
          | nil => simp at enough
          | cons tick clock =>
              have closed := next_closed blank .object first rest
              simp only [Bracket.close] at closed
              refine ⟨clock, by simp at enough; omega, ?_⟩
              simp [skipEntries, closed, Bind.bind, Except.bind]
  | cons entry members ih =>
      cases spelled with
      | @cons _ _ _ _ _ _ content blanks' blanks'' bytes body separates blank named ahead behind
            spelled later =>
          obtain ⟨left, blank, found⟩ := next_entry separates blank
            (show startsValue 0x22 from rfl) .object
            (content ++ (blanks' ++ 0x3a :: (blanks'' ++ (bytes ++ (body ++ rest)))))
          cases clock with
          | nil => simp at enough
          | cons tick clock =>
              have still : (bytes ++ (body ++ rest)).length ≤ clock.length + 1 := by
                simp at enough ⊢
                omega
              obtain ⟨clock', enough', passed⟩ := (each _ List.mem_cons_self).skipEntry spelled
                behind (later.delimited rest) still (.object :: outer)
              obtain ⟨clock'', enough'', same⟩ := ih later
                (fun other member => each other (List.mem_cons_of_mem _ member)) clock' enough'
              refine ⟨clock'', enough'', ?_⟩
              have keyed := skipKey_object blank named ahead (blanks'' ++ (bytes ++ (body ++ rest)))
              rw [← same, ← passed]
              simp only [List.append_assoc, List.cons_append]
              exact skipEntries_entry found keyed tick clock _

theorem passes (v : Value) : Passes v := by
  induction v using Value.induction with
  | null | bool | int | double | string =>
      intro bytes spelled rest delimited
      exact .inl (spelled.token_scalar rfl delimited).2
  | array items ih =>
      intro bytes spelled rest _
      cases spelled with
      | array spelled => exact .inr ⟨.list, _, rfl, Nat.lt_succ_self _, closes_items spelled ih⟩
  | object members ih =>
      intro bytes spelled rest _
      cases spelled with
      | object spelled =>
          exact .inr ⟨.object, _, rfl, Nat.lt_succ_self _, closes_members spelled ih⟩

/-- A value is passed over to its end, however deep it nests. -/
theorem skip_append {v : Value} {bytes : Bytes} (spelled : Spells v bytes) {blanks : Bytes}
    (blank : Blank blanks) {rest : Bytes} (delimited : Delimited rest) :
    skip (blanks ++ (bytes ++ rest)) = .ok rest := by
  rw [skip, skipToken_append blank]
  obtain scalar | ⟨bracket, body, opens, -, closes⟩ := passes v bytes spelled rest delimited
  · rw [scalar]
    rfl
  · obtain ⟨clock', -, same⟩ := closes (body ++ rest) [] rest le_rfl
    rw [opens]
    exact same.trans (by cases clock' <;> rfl)

end Dataflow.Json

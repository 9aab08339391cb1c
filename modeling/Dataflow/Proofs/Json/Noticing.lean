import Dataflow.Proofs.Json.Numbers

/-! # Noticing the end of a text

A cut leaves an open bracket or quote, or a part of a number, which may be a number itself but has
nothing after it. Main statements: when a list or an object is cut off, a parser misses its closing
bracket.
-/

namespace Dataflow.Json

variable {α β σ : Type} {level : Nat}

/-- The parser comes to the end of the text. -/
def Ends (outcome : Except Error (α × Bytes)) : Prop :=
  outcome = .error .endOfText ∨ ∃ x, outcome = .ok (x, [])

/-- The text is read up to whatever a number does not go on with, and a parser of less of it comes
    to the end. -/
structure Notices (parse : Bytes → Except Error (α × Bytes)) (bytes : Bytes) (x : α) : Prop where
  whole : ∀ rest, Delimited rest → parse (bytes ++ rest) = .ok (x, rest)
  cut : ∀ kept rest, kept ++ rest = bytes → rest ≠ [] → Ends (parse kept)

/-- The text has an end of its own, which a parser of less of it misses. -/
structure Misses (parse : Bytes → Except Error (α × Bytes)) (bytes : Bytes) (x : α) : Prop where
  whole : ∀ rest, parse (bytes ++ rest) = .ok (x, rest)
  cut : ∀ kept rest, kept ++ rest = bytes → rest ≠ [] → parse kept = .error .endOfText

variable {parse : Bytes → Except Error (α × Bytes)} {bytes : Bytes} {x : α}

theorem Misses.notices (misses : Misses parse bytes x) : Notices parse bytes x where
  whole rest _ := misses.whole rest
  cut kept rest cut proper := .inl (misses.cut kept rest cut proper)

theorem Delimited.append_left {part rest : Bytes} (delimited : Delimited (part ++ rest)) :
    Delimited part := by
  cases part with
  | nil => exact delimited_nil
  | cons b part => exact delimited

/-- Of a text and what stands after it, the end may come in the text, or not. -/
theorem Notices.append (notices : Notices parse bytes x) {tail : Bytes}
    (delimited : Delimited tail) {kept rest : Bytes} (cut : kept ++ rest = bytes ++ tail) :
    Ends (parse kept) ∨ ∃ part, part ++ rest = tail ∧ parse kept = .ok (x, part) := by
  obtain ⟨more, proper, same⟩ | ⟨part, rfl, same⟩ := cut_append cut
  · exact .inl (notices.cut kept more same proper)
  · exact .inr ⟨part, same, notices.whole part (same ▸ delimited).append_left⟩

theorem Ends.bind {outcome : Except Error (α × Bytes)} (ends : Ends outcome) (f : α → β) :
    Ends (outcome >>= fun read => .ok (f read.1, read.2)) := by
  obtain rfl | ⟨x, rfl⟩ := ends
  · exact .inl rfl
  · exact .inr ⟨f x, rfl⟩

theorem Notices.map (notices : Notices parse bytes x) (f : α → β) :
    Notices (fun bytes => parse bytes >>= fun read => .ok (f read.1, read.2)) bytes (f x) where
  whole rest delimited := by
    simp only [notices.whole rest delimited]
    rfl
  cut kept rest cut proper := (notices.cut kept rest cut proper).bind f

theorem Misses.bind (misses : Misses parse bytes x)
    {next : α × Bytes → Except Error (β × Bytes)} {y : β}
    (same : ∀ rest, next (x, rest) = .ok (y, rest)) :
    Misses (fun bytes => parse bytes >>= next) bytes y where
  whole rest := by
    simp only [misses.whole rest]
    exact same rest
  cut kept rest cut proper := by
    simp only [misses.cut kept rest cut proper]
    rfl

/-- A text after a byte that opens it. -/
theorem Misses.cons (inside : Misses parse bytes x) {b : UInt8}
    {parse' : Bytes → Except Error (α × Bytes)} (empty : parse' [] = .error .endOfText)
    (opens : ∀ rest, parse' (b :: rest) = parse rest) : Misses parse' (b :: bytes) x where
  whole rest := (opens (bytes ++ rest)).trans (inside.whole rest)
  cut kept rest cut proper := by
    cases kept with
    | nil => exact empty
    | cons c kept =>
        obtain ⟨rfl, same⟩ := List.cons.inj cut
        exact (opens kept).trans (inside.cut kept rest same proper)

/-- A value after its colon. -/
theorem Notices.colon (notices : Notices parse bytes x) (f : α → β) :
    Notices (fun bytes => Json.colon bytes >>= fun bytes =>
      parse bytes >>= fun read => .ok (f read.1, read.2)) (0x3a :: bytes) (f x) where
  whole := (notices.map f).whole
  cut kept rest cut proper := by
    cases kept with
    | nil => exact .inl rfl
    | cons b kept =>
        obtain ⟨rfl, same⟩ := List.cons.inj cut
        exact (notices.map f).cut kept rest same proper

theorem scanText_cut (skipped : Bool) (state : TextState) (done kept rest : Bytes) :
    scanText skipped state done kept = .error .endOfText ∨
      scanText skipped state done (kept ++ rest) =
        (scanText skipped state done kept).map fun read => (read.1, read.2 ++ rest) := by
  induction kept generalizing state done with
  | nil => exact .inl (by cases state <;> rfl)
  | cons b kept ih =>
      by_cases closing : state = .plain ∧ b = 0x22
      · obtain ⟨rfl, rfl⟩ := closing
        exact .inr rfl
      rw [List.cons_append]
      cases step : state.step skipped b with
      | none =>
          rw [scanText_of_none closing _ _ step, scanText_of_none closing _ _ step]
          exact .inr rfl
      | some next =>
          rw [scanText_of_step closing _ _ step, scanText_of_step closing _ _ step]
          exact ih next.1 _

theorem misses_text (s : String) :
    Misses text ((Bytes.ofString s).flatMap escapeByte ++ [0x22]) s where
  whole rest := text_append (text_escaped s) rest
  cut kept rest cut proper := by
    obtain ⟨content, scanned, -⟩ := text_eq_ok_iff.1 (text_escaped s)
    obtain ended | same := scanText_cut false .plain [] kept rest
    · rw [text, ended]
      rfl
    · rw [cut, scanned] at same
      obtain ⟨read, -, ended⟩ := Except.map_eq_ok_iff.1 same.symm
      exact absurd (List.append_eq_nil_iff.1 (Prod.mk.inj ended).2).2 proper

/-- A key with its quotes. -/
theorem misses_key (name : String) : Misses key (writeText name) name :=
  (misses_text name).cons rfl fun _ => rfl

theorem misses_token_text (s : String) : Misses token (writeText s) (.text s) := by
  have inside : Misses (fun bytes => (text bytes).map fun read => (Token.text read.1, read.2))
      ((Bytes.ofString s).flatMap escapeByte ++ [0x22]) (.text s) :=
    (misses_text s).bind fun _ => rfl
  exact inside.cons rfl fun _ => rfl

theorem misses_of_take (whole : ∀ rest, parse (bytes ++ rest) = .ok (x, rest))
    (each : ∀ count < bytes.length, parse (bytes.take count) = .error .endOfText) :
    Misses parse bytes x where
  whole := whole
  cut := by
    rintro kept rest rfl proper
    have fewer : kept.length < (kept ++ rest).length := by
      rw [List.length_append]
      exact Nat.lt_add_of_pos_right (List.length_pos_iff.2 proper)
    simpa using each kept.length fewer

theorem misses_token_null : Misses token (Bytes.ofAscii ['n', 'u', 'l', 'l']) .null := by
  refine misses_of_take (fun _ => rfl) fun count fewer => ?_
  change count < 4 at fewer
  interval_cases count <;> rfl

theorem misses_token_true : Misses token (Bytes.ofAscii ['t', 'r', 'u', 'e']) (.bool true) := by
  refine misses_of_take (fun _ => rfl) fun count fewer => ?_
  change count < 4 at fewer
  interval_cases count <;> rfl

theorem misses_token_false :
    Misses token (Bytes.ofAscii ['f', 'a', 'l', 's', 'e']) (.bool false) := by
  refine misses_of_take (fun _ => rfl) fun count fewer => ?_
  change count < 5 at fewer
  interval_cases count <;> rfl

/-- What belongs to a bracket. -/
theorem Misses.opening {b : UInt8} {opened : Token} {body : Bytes}
    {next : Token × Bytes → Except Error (β × Bytes)} {y : β}
    (opens : ∀ rest, token (b :: rest) = .ok (opened, rest))
    (inside : Misses (fun bytes => next (opened, bytes)) body y) :
    Misses (fun bytes => token bytes >>= next) (b :: body) y := by
  refine inside.cons rfl fun rest => ?_
  simp only [opens]
  rfl

theorem token_of_startsNumber {b : UInt8} (starts : startsNumber b) (bytes : Bytes) :
    token (b :: bytes) =
      (number (b :: bytes)).map fun read => (.number read.1, read.2) := by
  obtain ⟨visible, others⟩ := ne_of_startsNumber starts
  unfold startsNumber at starts
  simp [token, skipBlanks_cons visible, others, starts]

theorem notices_number_of_cut {n : Number} (read : number bytes = .ok (n, []))
    (cut : ∀ kept rest, kept ++ rest = bytes → rest ≠ [] → Ends (number kept)) :
    Notices number bytes n where
  whole rest delimited := extends_number _ _ _ read rest delimited
  cut := cut

/-- A number as a token. What it goes on with need only be said for numbers that are cut off. -/
theorem Notices.token {n : Number} (notices : Notices number bytes n)
    {next : Token × Bytes → Except Error (β × Bytes)} {y : β}
    (same : ∀ rest, next (.number n, rest) = .ok (y, rest))
    (cut : ∀ kept rest, kept ++ rest = bytes → rest ≠ [] → ∀ m, number kept = .ok (m, []) →
      Ends (next (.number m, []))) :
    Notices (fun bytes => token bytes >>= next) bytes y := by
  have read := notices.whole [] delimited_nil
  rw [List.append_nil] at read
  obtain ⟨b, tail, rfl, starts⟩ := exists_of_number read
  constructor
  · intro rest delimited
    simp only [token_number read delimited]
    exact same rest
  · intro kept rest within proper
    cases kept with
    | nil => exact .inl rfl
    | cons c kept =>
        obtain ⟨rfl, -⟩ := List.cons.inj within
        obtain ended | ⟨m, ended⟩ := notices.cut _ rest within proper
        · simp only [token_of_startsNumber starts, ended]
          exact .inl rfl
        · have cut := cut _ rest within proper m ended
          simp only [token_of_startsNumber starts, ended]
          exact cut

/-- The text starts with a byte that a value can start with. -/
def Starts (bytes : Bytes) : Prop := ∃ b tail, bytes = b :: tail ∧ startsValue b

theorem starts_writeText (name : String) : Starts (writeText name) := ⟨_, _, rfl, rfl⟩

theorem starts_write (level : Nat) (v : Value) : Starts (write .compact level v) := by
  cases v with
  | null | bool b => first | exact ⟨_, _, rfl, rfl⟩ | cases b <;> exact ⟨_, _, rfl, rfl⟩
  | int n =>
      obtain ⟨b, tail, same, starts⟩ := exists_of_number (number_integerText n)
      exact ⟨b, tail, same, by simp [startsValue, starts]⟩
  | double d =>
      obtain ⟨n, read⟩ := number_double d
      obtain ⟨b, tail, same, starts⟩ := exists_of_number read
      exact ⟨b, tail, same, by simp [startsValue, starts]⟩
  | string s => exact ⟨_, _, rfl, rfl⟩
  | array items => cases items <;> exact ⟨_, _, rfl, rfl⟩
  | object members => cases members <;> exact ⟨_, _, rfl, rfl⟩

theorem write_array (level : Nat) (items : List Value) :
    write .compact level (.array items) =
      0x5b :: (writeItems .compact (level + 1) true items ++ [0x5d]) := by
  cases items <;> simp [write, writeItems, Style.compact]

theorem write_object (level : Nat) (members : List (String × Value)) :
    write .compact level (.object members) =
      0x7b :: (writeMembers .compact (level + 1) true members ++ [0x7d]) := by
  cases members <;> simp [write, writeMembers, Style.compact]

theorem writeItems_cons (level : Nat) (first : Bool) (item : Value) (items : List Value)
    (rest : Bytes) :
    writeItems .compact level first (item :: items) ++ rest =
      (if first then [] else [0x2c]) ++
        (write .compact level item ++ (writeItems .compact level false items ++ rest)) := by
  simp [writeItems, Style.compact]

theorem writeMembers_cons (level : Nat) (first : Bool) (name : String) (v : Value)
    (members : List (String × Value)) (rest : Bytes) :
    writeMembers .compact level first ((name, v) :: members) ++ rest =
      (if first then [] else [0x2c]) ++ (writeText name ++
        (0x3a :: write .compact level v ++ (writeMembers .compact level false members ++ rest))) := by
  simp [writeMembers, Style.compact]

theorem delimited_writeItems (level : Nat) (items : List Value) (rest : Bytes) :
    Delimited (writeItems .compact level false items ++ 0x5d :: rest) := by
  cases items with
  | nil => exact delimited_cons rfl _
  | cons item items =>
      rw [writeItems_cons]
      exact delimited_cons rfl _

theorem delimited_writeMembers (level : Nat) (members : List (String × Value)) (rest : Bytes) :
    Delimited (writeMembers .compact level false members ++ 0x7d :: rest) := by
  cases members with
  | nil => exact delimited_cons rfl _
  | cons entry members =>
      rw [writeMembers_cons]
      exact delimited_cons rfl _

theorem length_le_writeItems (level : Nat) (first : Bool) (items : List Value) :
    items.length ≤ (writeItems .compact level first items).length := by
  induction items generalizing first with
  | nil => exact Nat.zero_le _
  | cons item items ih =>
      obtain ⟨b, tail, same, -⟩ := starts_write level item
      have later := ih false
      have apart := writeItems_cons level first item items []
      rw [List.append_nil, List.append_nil, same] at apart
      rw [apart]
      simp only [List.length_append, List.length_cons]
      omega

theorem length_le_writeMembers (level : Nat) (first : Bool) (members : List (String × Value)) :
    members.length ≤ (writeMembers .compact level first members).length := by
  induction members generalizing first with
  | nil => exact Nat.zero_le _
  | cons entry members ih =>
      have later := ih false
      have apart := writeMembers_cons level first entry.1 entry.2 members []
      rw [List.append_nil, List.append_nil] at apart
      rw [apart]
      simp only [List.length_append, List.length_cons]
      omega

theorem next_written (starts : Starts bytes) (bracket : Bracket) (first : Bool) (rest : Bytes) :
    next bracket first ((if first then [] else [0x2c]) ++ (bytes ++ rest)) =
      .ok (.entry (bytes ++ rest)) := by
  obtain ⟨b, tail, rfl, starts⟩ := starts
  cases first with
  | true =>
      simp [next, skipBlanks_cons (isBlank_of_startsValue starts), ne_close_of_startsValue starts]
  | false => cases bracket <;> rfl

/-- Before an entry the text ends, or the entry is found, cut off or not. -/
theorem next_cut (starts : Starts bytes) (bracket : Bracket) (first : Bool)
    {tail kept rest : Bytes} (cut : kept ++ rest = (if first then [] else [0x2c]) ++ (bytes ++ tail)) :
    next bracket first kept = .error .endOfText ∨
      ∃ entry, next bracket first kept = .ok (.entry entry) ∧ entry ++ rest = bytes ++ tail := by
  cases kept with
  | nil => exact .inl rfl
  | cons c kept =>
      cases first with
      | true =>
          obtain ⟨b, text, rfl, starts⟩ := starts
          obtain ⟨rfl, same⟩ := List.cons.inj cut
          have found := next_written ⟨c, kept, rfl, starts⟩ bracket true []
          rw [List.append_nil] at found
          exact .inr ⟨_, found, congrArg _ same⟩
      | false =>
          obtain ⟨rfl, same⟩ := List.cons.inj cut
          exact .inr ⟨kept, by cases bracket <;> rfl, same⟩

theorem next_close (bracket : Bracket) (first : Bool) (rest : Bytes) :
    next bracket first (bracket.close :: rest) = .ok (.closed rest) :=
  next_closed blank_nil bracket first rest

theorem listEntries_nil (entry : Bytes → Except Error (α × Bytes)) (clock : Bytes) (first : Bool)
    (done : List α) : listEntries entry clock first done [] = .error .endOfText := by
  cases clock <;> rfl

theorem objectMembers_nil (member : σ → String → Bytes → Except Error (σ × Bytes)) (clock : Bytes)
    (first : Bool) (state : σ) : objectMembers member clock first state [] = .error .endOfText := by
  cases clock <;> rfl

section

variable {entry : Bytes → Except Error (α × Bytes)} {items : List Value}
  (each : ∀ item ∈ items, ∃ x, Notices entry (write .compact level item) x)

include each

theorem listEntries_whole : ∃ xs, ∀ clock first done rest, items.length < clock.length →
    listEntries entry clock first done (writeItems .compact level first items ++ 0x5d :: rest) =
      .ok (done.reverse ++ xs, rest) := by
  induction items with
  | nil =>
      refine ⟨[], fun clock first done rest enough => ?_⟩
      obtain ⟨tick, clock, rfl⟩ := List.exists_cons_of_length_pos enough
      rw [List.append_nil]
      change next .list first (Bracket.list.close :: rest) >>= _ = _
      rw [next_close]
      rfl
  | cons item items ih =>
      obtain ⟨⟨x, notices⟩, later⟩ := List.forall_mem_cons.1 each
      obtain ⟨xs, read⟩ := ih later
      refine ⟨x :: xs, fun clock first done rest enough => ?_⟩
      obtain ⟨tick, clock, rfl⟩ := List.exists_cons_of_length_pos (Nat.zero_lt_of_lt enough)
      rw [writeItems_cons, listEntries, next_written (starts_write level item)]
      change entry _ >>= _ = _
      rw [notices.whole _ (delimited_writeItems level items rest)]
      have there := read clock false (x :: done) rest (Nat.lt_of_succ_lt_succ enough)
      rw [List.reverse_cons, List.append_assoc] at there
      exact there

theorem listEntries_cut {first : Bool} {done : List α} {clock kept rest : Bytes}
    (cut : kept ++ rest = writeItems .compact level first items ++ [0x5d]) (proper : rest ≠ []) :
    listEntries entry clock first done kept = .error .endOfText := by
  induction items generalizing first done clock kept with
  | nil =>
      obtain ⟨rfl, -⟩ | ⟨-, none⟩ := List.append_eq_singleton_iff.1 cut
      · exact listEntries_nil entry clock first done
      · exact absurd none proper
  | cons item items ih =>
      obtain ⟨⟨x, notices⟩, later⟩ := List.forall_mem_cons.1 each
      cases clock with
      | nil => rfl
      | cons tick clock =>
          rw [writeItems_cons] at cut
          obtain ended | ⟨part, found, inner⟩ :=
            next_cut (starts_write level item) .list first cut
          · rw [listEntries, ended]
            rfl
          rw [listEntries, found]
          change entry part >>= _ = _
          obtain (ended | ⟨y, ended⟩) | ⟨left, innermost, read⟩ :=
            notices.append (delimited_writeItems level items []) inner
          · rw [ended]
            rfl
          · rw [ended]
            exact listEntries_nil entry clock false (y :: done)
          · rw [read]
            exact ih later innermost

end

/-- A list up to its closing bracket. -/
theorem misses_list {entry : Bytes → Except Error (α × Bytes)} {items : List Value}
    (each : ∀ item ∈ items, ∃ x, Notices entry (write .compact level item) x) :
    ∃ xs, Misses (fun bytes => listEntries entry bytes true [] bytes)
      (writeItems .compact level true items ++ [0x5d]) xs := by
  obtain ⟨xs, read⟩ := listEntries_whole each
  refine ⟨xs, fun rest => ?_, fun kept rest cut proper => listEntries_cut each cut proper⟩
  have enough := length_le_writeItems level true items
  rw [List.append_assoc]
  exact read _ true [] rest (by simp; omega)

/-- The members are read one after the other, each in the state that those before it lead to. -/
inductive Runs (level : Nat) (member : σ → String → Bytes → Except Error (σ × Bytes)) :
    σ → List (String × Value) → σ → Prop where
  | nil {state : σ} : Runs level member state [] state
  | cons {state next last : σ} {name : String} {v : Value} {members : List (String × Value)} :
      Notices (member state name) (0x3a :: write .compact level v) next →
      Runs level member next members last → Runs level member state ((name, v) :: members) last

section

variable {member : σ → String → Bytes → Except Error (σ × Bytes)} {state last : σ}
  {members : List (String × Value)} (runs : Runs level member state members last)

include runs

theorem Runs.whole {clock : Bytes} {first : Bool} (enough : members.length < clock.length)
    (rest : Bytes) : objectMembers member clock first state
      (writeMembers .compact level first members ++ 0x7d :: rest) = .ok (last, rest) := by
  induction runs generalizing clock first with
  | nil =>
      obtain ⟨tick, clock, rfl⟩ := List.exists_cons_of_length_pos enough
      change next .object first (Bracket.object.close :: rest) >>= _ = _
      rw [next_close]
      rfl
  | @cons state next' last name v members notices later ih =>
      obtain ⟨tick, clock, rfl⟩ := List.exists_cons_of_length_pos (Nat.zero_lt_of_lt enough)
      rw [writeMembers_cons, objectMembers, next_written (starts_writeText name)]
      change key _ >>= _ = _
      rw [(misses_key name).whole]
      change member state name _ >>= _ = _
      rw [notices.whole _ (delimited_writeMembers level members rest)]
      exact ih (Nat.lt_of_succ_lt_succ enough)

theorem Runs.cut {clock : Bytes} {first : Bool} {kept rest : Bytes}
    (cut : kept ++ rest = writeMembers .compact level first members ++ [0x7d])
    (proper : rest ≠ []) : objectMembers member clock first state kept = .error .endOfText := by
  induction runs generalizing clock first kept with
  | nil =>
      obtain ⟨rfl, -⟩ | ⟨-, none⟩ := List.append_eq_singleton_iff.1 cut
      · exact objectMembers_nil member clock first _
      · exact absurd none proper
  | @cons state next' last name v members notices later ih =>
      cases clock with
      | nil => rfl
      | cons tick clock =>
          rw [writeMembers_cons] at cut
          obtain ended | ⟨part, found, inner⟩ :=
            next_cut (starts_writeText name) .object first cut
          · rw [objectMembers, ended]
            rfl
          rw [objectMembers, found]
          change key part >>= _ = _
          obtain ⟨more, proper', same⟩ | ⟨part, rfl, valued⟩ := cut_append inner
          · rw [(misses_key name).cut part more same proper']
            rfl
          rw [(misses_key name).whole]
          change member state name part >>= _ = _
          obtain (ended | ⟨y, ended⟩) | ⟨left, innermost, read⟩ :=
            notices.append (delimited_writeMembers level members []) valued
          · rw [ended]
            rfl
          · rw [ended]
            exact objectMembers_nil member clock false y
          · rw [read]
            exact ih innermost

/-- An object up to its closing bracket. -/
theorem Runs.misses : Misses (fun bytes => objectMembers member bytes true state bytes)
    (writeMembers .compact level true members ++ [0x7d]) last where
  whole rest := by
    have enough := length_le_writeMembers level true members
    rw [List.append_assoc]
    exact runs.whole (by simp; omega) rest
  cut kept rest cut proper := runs.cut cut proper

end

theorem exists_runs_kept {value : Bytes → Except Error (Value × Bytes)}
    {members : List (String × Value)}
    (each : ∀ entry ∈ members, ∃ x, Notices value (write .compact level entry.2) x)
    (done : List (String × Value)) : ∃ last, Runs level (keptMember value) done members last := by
  induction members generalizing done with
  | nil => exact ⟨done, .nil⟩
  | cons entry members ih =>
      obtain ⟨⟨x, notices⟩, later⟩ := List.forall_mem_cons.1 each
      obtain ⟨last, runs⟩ := ih later ((entry.1, x) :: done)
      exact ⟨last, .cons (notices.colon fun v => (entry.1, v) :: done) runs⟩

end Dataflow.Json

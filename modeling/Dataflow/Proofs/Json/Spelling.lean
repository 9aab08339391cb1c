import Dataflow.Proofs.Json.Tokens
import Dataflow.Proofs.Reading

/-! # Spelling values in JSON

A text spells a value if tokens that read as its parts stand in its order, with any blanks between
them, whichever spellings are taken for its numbers and strings.
-/

namespace Dataflow.Json

/-- What stands before an entry: a comma, unless it is the first one. -/
inductive Separates : (first : Bool) → Bytes → Prop where
  | start : Separates true []
  | comma {blanks : Bytes} : Blank blanks → Separates false (blanks ++ [0x2c])

mutual

/-- The text of a value, without blanks around it. -/
inductive Spells : Value → Bytes → Prop where
  | null : Spells .null [0x6e, 0x75, 0x6c, 0x6c]
  | true : Spells (.bool true) [0x74, 0x72, 0x75, 0x65]
  | false : Spells (.bool false) [0x66, 0x61, 0x6c, 0x73, 0x65]
  | int {n : Integer} {bytes : Bytes} :
      number bytes = .ok (.int n, []) → Spells (.int n) bytes
  | double {d : Double} {bytes : Bytes} :
      number bytes = .ok (.double d, []) → Spells (.double d) bytes
  | string {s : String} {bytes : Bytes} :
      text bytes = .ok (s, []) → Spells (.string s) (0x22 :: bytes)
  | array {items : List Value} {body : Bytes} :
      SpellsItems true items body → Spells (.array items) (0x5b :: body)
  | object {members : List (String × Value)} {body : Bytes} :
      SpellsMembers true members body → Spells (.object members) (0x7b :: body)

/-- The rest of a list up to its closing bracket. -/
inductive SpellsItems : (first : Bool) → List Value → Bytes → Prop where
  | nil {first : Bool} {blanks : Bytes} : Blank blanks → SpellsItems first [] (blanks ++ [0x5d])
  | cons {first : Bool} {item : Value} {rest : List Value} {before blanks bytes body : Bytes} :
      Separates first before → Blank blanks → Spells item bytes → SpellsItems false rest body →
      SpellsItems first (item :: rest) (before ++ (blanks ++ (bytes ++ body)))

/-- The rest of an object up to its closing bracket. -/
inductive SpellsMembers : (first : Bool) → List (String × Value) → Bytes → Prop where
  | nil {first : Bool} {blanks : Bytes} : Blank blanks → SpellsMembers first [] (blanks ++ [0x7d])
  | cons {first : Bool} {name : String} {value : Value} {rest : List (String × Value)}
      {before blanks key blanks' blanks'' bytes body : Bytes} :
      Separates first before → Blank blanks → text key = .ok (name, []) → Blank blanks' →
      Blank blanks'' → Spells value bytes → SpellsMembers false rest body →
      SpellsMembers first ((name, value) :: rest)
        (before ++ (blanks ++ 0x22 :: (key ++ (blanks' ++ 0x3a :: (blanks'' ++ (bytes ++ body))))))

end

/-- The bytes that a value can start with. -/
def startsValue (b : UInt8) : Bool :=
  b = 0x22 || b = 0x5b || b = 0x7b || b = 0x6e || b = 0x74 || b = 0x66 || startsNumber b

theorem isBlank_of_startsValue {b : UInt8} (starts : startsValue b) : isBlank b = false := by
  revert b
  decide +kernel

theorem ne_close_of_startsValue {b : UInt8} (starts : startsValue b) (bracket : Bracket) :
    b ≠ bracket.close := by
  revert b
  cases bracket <;> decide +kernel

theorem Spells.exists_cons {v : Value} {bytes : Bytes} (spelled : Spells v bytes) :
    ∃ b tail, bytes = b :: tail ∧ startsValue b := by
  cases spelled with
  | int ok | double ok =>
      obtain ⟨b, tail, rfl, starts⟩ := exists_of_number ok
      exact ⟨b, tail, rfl, by simp [startsValue, starts]⟩
  | _ => exact ⟨_, _, rfl, rfl⟩

theorem SpellsItems.delimited {items : List Value} {body : Bytes}
    (spelled : SpellsItems false items body) (rest : Bytes) : Delimited (body ++ rest) := by
  cases spelled with
  | nil blank =>
      rw [List.append_assoc]
      exact delimited_append blank (delimited_cons rfl _)
  | cons before =>
      cases before with
      | comma blank =>
          simp only [List.append_assoc]
          exact delimited_append blank (delimited_cons rfl _)

theorem SpellsMembers.delimited {members : List (String × Value)} {body : Bytes}
    (spelled : SpellsMembers false members body) (rest : Bytes) : Delimited (body ++ rest) := by
  cases spelled with
  | nil blank =>
      rw [List.append_assoc]
      exact delimited_append blank (delimited_cons rfl _)
  | cons before =>
      cases before with
      | comma blank =>
          simp only [List.append_assoc]
          exact delimited_append blank (delimited_cons rfl _)

/-- The first token of a value, which is all of it if it is a scalar. -/
def firstToken : Value → Token
  | .null => .null
  | .bool b => .bool b
  | .int n => .number (.int n)
  | .double d => .number (.double d)
  | .string s => .text s
  | .array _ => .opening .list
  | .object _ => .opening .object

theorem token_append {blanks : Bytes} (blank : Blank blanks) (bytes : Bytes) :
    token (blanks ++ bytes) = token bytes := by
  simp only [token, skipBlanks_append blank]

theorem skipToken_append {blanks : Bytes} (blank : Blank blanks) (bytes : Bytes) :
    skipToken (blanks ++ bytes) = skipToken bytes := by
  simp only [skipToken, skipBlanks_append blank]

theorem ne_of_startsNumber {b : UInt8} (starts : startsNumber b) :
    isBlank b = false ∧ b ≠ 0x22 ∧ b ≠ 0x5b ∧ b ≠ 0x7b ∧ b ≠ 0x6e ∧ b ≠ 0x74 ∧ b ≠ 0x66 := by
  revert b
  decide +kernel

theorem token_number {bytes : Bytes} {n : Number} (ok : number bytes = .ok (n, [])) {rest : Bytes}
    (delimited : Delimited rest) : token (bytes ++ rest) = .ok (.number n, rest) := by
  obtain ⟨b, tail, rfl, starts⟩ := exists_of_number ok
  obtain ⟨visible, others⟩ := ne_of_startsNumber starts
  have read : number (b :: (tail ++ rest)) = .ok (n, rest) :=
    extends_number _ _ _ ok rest delimited
  unfold startsNumber at starts
  simp [token, skipBlanks_cons visible, others, starts, read, Except.map]

theorem skipToken_number {bytes : Bytes} {n : Number} (ok : number bytes = .ok (n, []))
    {rest : Bytes} (delimited : Delimited rest) : skipToken (bytes ++ rest) = .ok (none, rest) := by
  obtain ⟨b, tail, rfl, starts⟩ := exists_of_number ok
  obtain ⟨visible, others⟩ := ne_of_startsNumber starts
  have passed : skipNumber (b :: (tail ++ rest)) = .ok rest :=
    skipNumber_of_number (extends_number _ _ _ ok rest delimited)
  unfold startsNumber at starts
  simp [skipToken, skipBlanks_cons visible, others, starts, passed, Except.map]

theorem text_append {bytes : Bytes} {s : String} (ok : text bytes = .ok (s, [])) (rest : Bytes) :
    text (bytes ++ rest) = .ok (s, rest) :=
  extends_text _ _ _ ok rest trivial

theorem token_text {bytes : Bytes} {s : String} (ok : text bytes = .ok (s, [])) (rest : Bytes) :
    token (0x22 :: (bytes ++ rest)) = .ok (.text s, rest) := by
  have visible : isBlank 0x22 = false := rfl
  simp [token, skipBlanks_cons visible, text_append ok, Except.map]

theorem skipToken_text {bytes : Bytes} {s : String} (ok : text bytes = .ok (s, []))
    (rest : Bytes) : skipToken (0x22 :: (bytes ++ rest)) = .ok (none, rest) := by
  have visible : isBlank 0x22 = false := rfl
  simp [skipToken, skipBlanks_cons visible, skipText_of_text (text_append ok rest), Except.map]

/-- A scalar is one token, for the reader and where it is passed over. -/
theorem Spells.token_scalar {v : Value} {bytes : Bytes} (spelled : Spells v bytes)
    (scalar : v.nesting = 0) {rest : Bytes} (delimited : Delimited rest) :
    token (bytes ++ rest) = .ok (firstToken v, rest) ∧
      skipToken (bytes ++ rest) = .ok (none, rest) := by
  cases spelled with
  | null | true | false => exact ⟨rfl, rfl⟩
  | int ok => exact ⟨token_number ok delimited, skipToken_number ok delimited⟩
  | double ok => exact ⟨token_number ok delimited, skipToken_number ok delimited⟩
  | string ok => exact ⟨token_text ok rest, skipToken_text ok rest⟩
  | array | object => simp [Value.nesting] at scalar

/-- The text of a list is its opening bracket and what spells its items. -/
theorem Spells.exists_items {items : List Value} {bytes : Bytes}
    (spelled : Spells (.array items) bytes) (rest : Bytes) :
    ∃ body, SpellsItems .true items body ∧
      token (bytes ++ rest) = .ok (.opening .list, body ++ rest) := by
  cases spelled with
  | array spelled => exact ⟨_, spelled, rfl⟩

theorem Spells.exists_members {members : List (String × Value)} {bytes : Bytes}
    (spelled : Spells (.object members) bytes) (rest : Bytes) :
    ∃ body, SpellsMembers .true members body ∧
      token (bytes ++ rest) = .ok (.opening .object, body ++ rest) := by
  cases spelled with
  | object spelled => exact ⟨_, spelled, rfl⟩

theorem Spells.exists_token {v : Value} {bytes : Bytes} (spelled : Spells v bytes) {rest : Bytes}
    (delimited : Delimited rest) : ∃ left, token (bytes ++ rest) = .ok (firstToken v, left) := by
  cases v with
  | null | bool | int | double | string => exact ⟨_, (spelled.token_scalar rfl delimited).1⟩
  | array | object =>
      cases spelled
      exact ⟨_, rfl⟩

theorem next_closed {blanks : Bytes} (blank : Blank blanks) (bracket : Bracket) (first : Bool)
    (rest : Bytes) : next bracket first (blanks ++ bracket.close :: rest) = .ok (.closed rest) := by
  have visible : isBlank bracket.close = false := by cases bracket <;> rfl
  simp [next, skipBlanks_before blank visible]

/-- An entry is found after its comma, if it has one, and after blanks. -/
theorem next_entry {first : Bool} {before blanks : Bytes} (separates : Separates first before)
    (blank : Blank blanks) {b : UInt8} (starts : startsValue b) (bracket : Bracket)
    (tail : Bytes) :
    ∃ left, Blank left ∧ next bracket first (before ++ (blanks ++ b :: tail)) =
      .ok (.entry (left ++ b :: tail)) := by
  have visible := isBlank_of_startsValue starts
  cases separates with
  | start =>
      refine ⟨[], blank_nil, ?_⟩
      simp [next, skipBlanks_before blank visible, ne_close_of_startsValue starts]
  | @comma before ahead =>
      refine ⟨blanks, blank, ?_⟩
      have open' : (0x2c : UInt8) ≠ bracket.close := by cases bracket <;> decide
      rw [List.append_assoc, List.singleton_append]
      simp [next, skipBlanks_before ahead (show isBlank 0x2c = false from rfl), open']

theorem skipBlanks_of_next {bracket : Bracket} {first : Bool} {bytes left : Bytes}
    (found : next bracket first bytes = .ok (.entry left)) :
    ∃ b tail, skipBlanks bytes = b :: tail ∧ b ≠ bracket.close := by
  unfold next at found
  split at found
  · cases found
  · next b tail same =>
    split at found
    · cases found
    · exact ⟨b, tail, same, ‹_›⟩

theorem colon_append {blanks : Bytes} (blank : Blank blanks) (rest : Bytes) :
    colon (blanks ++ 0x3a :: rest) = .ok rest := by
  simp [colon, skipBlanks_before blank (show isBlank 0x3a = false from rfl)]

theorem openKey_append {blanks : Bytes} (blank : Blank blanks) (rest : Bytes) :
    openKey (blanks ++ 0x22 :: rest) = .ok rest := by
  simp [openKey, skipBlanks_before blank (show isBlank 0x22 = false from rfl)]

theorem key_append {blanks bytes : Bytes} (blank : Blank blanks) {name : String}
    (ok : text bytes = .ok (name, [])) (rest : Bytes) :
    key (blanks ++ 0x22 :: (bytes ++ rest)) = .ok (name, rest) := by
  rw [key, openKey_append blank]
  exact text_append ok rest

end Dataflow.Json

import Dataflow.Proofs.Describing
import Dataflow.Proofs.Json.RoundTrip

/-! # The JSON texts of a tree

A tree determines the pieces of its texts: punctuation, words, numbers and strings. A text is free
in the blanks around them and in the escapes within strings. Main statement: from each of these
texts a description is decoded exactly if the tree describes it.
-/

namespace Dataflow.Json

/-- The letters that stand for a character after a backslash, and its code point. -/
def shortEscapes : List (UInt8 × Nat) :=
  [(0x22, 0x22), (0x5c, 0x5c), (0x2f, 0x2f), (0x62, 0x08), (0x66, 0x0c), (0x6e, 0x0a), (0x72, 0x0d),
    (0x74, 0x09)]

/-- What may stand between quotes for the given characters. -/
inductive Escapes : List Char → Bytes → Prop where
  | nil : Escapes [] []
  /-- A character for itself: no quote, no backslash and no control character. -/
  | plain {char : Char} {chars : List Char} {bytes : Bytes} :
      char.toNat ≠ 0x22 → char.toNat ≠ 0x5c → 0x20 ≤ char.toNat → Escapes chars bytes →
      Escapes (char :: chars) (String.utf8EncodeChar char ++ bytes)
  | short {letter : UInt8} {char : Char} {chars : List Char} {bytes : Bytes} :
      (letter, char.toNat) ∈ shortEscapes → Escapes chars bytes →
      Escapes (char :: chars) (0x5c :: letter :: bytes)
  /-- Four hexadecimal digits after a backslash and the letter `u`. -/
  | unit {a b c d : UInt8} {char : Char} {chars : List Char} {bytes : Bytes} :
      hexValue? [d, c, b, a] = some char.toNat → Escapes chars bytes →
      Escapes (char :: chars) (0x5c :: 0x75 :: a :: b :: c :: d :: bytes)
  /-- Two such escapes, of a high and a low surrogate. -/
  | pair {a b c d a' b' c' d' : UInt8} {high low : Nat} {char : Char} {chars : List Char}
      {bytes : Bytes} :
      hexValue? [d, c, b, a] = some (0xd800 + high) → high < 0x400 →
      hexValue? [d', c', b', a'] = some (0xdc00 + low) → low < 0x400 →
      char.toNat = 0x10000 + high * 0x400 + low → Escapes chars bytes →
      Escapes (char :: chars)
        (0x5c :: 0x75 :: a :: b :: c :: d :: 0x5c :: 0x75 :: a' :: b' :: c' :: d' :: bytes)

/-- Bytes that are no quote, no backslash and no control character are read as they are. -/
theorem scanText_plain {content : Bytes}
    (plain : ∀ b ∈ content, b ≠ 0x22 ∧ b ≠ 0x5c ∧ 0x20 ≤ b) (done rest : Bytes) :
    scanText false .plain done (content ++ rest) =
      scanText false .plain (content.reverse ++ done) rest := by
  induction content generalizing done with
  | nil => rfl
  | cons b content ih =>
      obtain ⟨⟨quote, backslash, control⟩, later⟩ := List.forall_mem_cons.1 plain
      have step : TextState.plain.step false b = some (.plain, [b]) := by
        simp [TextState.step, backslash, UInt8.not_lt.2 control]
      rw [List.cons_append, scanText_of_step (fun same => quote same.2) _ _ step, ih later]
      simp

theorem utf8EncodeChar_of_toNat {char : Char} {b : UInt8} (ascii : b < 0x80)
    (same : char.toNat = b.toNat) : String.utf8EncodeChar char = [b] := by
  rw [← Bytes.utf8EncodeChar_of_ascii ascii, ← same, Char.ofNat_toNat]

/-- A character that stands for itself has only bytes that do. -/
theorem plain_utf8EncodeChar {char : Char} (quote : char.toNat ≠ 0x22)
    (backslash : char.toNat ≠ 0x5c) (control : 0x20 ≤ char.toNat) :
    ∀ b ∈ String.utf8EncodeChar char, b ≠ 0x22 ∧ b ≠ 0x5c ∧ 0x20 ≤ b := by
  intro b member
  simp only [ne_eq, ← UInt8.toNat_inj, UInt8.le_iff_toNat_le, UInt8.reduceToNat]
  obtain ⟨b', -, same, single⟩ | ⟨-, high⟩ := Bytes.utf8EncodeChar_cases char
  · rw [single, List.mem_singleton] at member
    subst member
    omega
  · have : 0x80 ≤ b.toNat := UInt8.le_iff_toNat_le.1 (high b member)
    omega

theorem escapedByte?_of_short {letter : UInt8} {char : Char}
    (known : (letter, char.toNat) ∈ shortEscapes) :
    ∃ b, escapedByte? letter = some b ∧ String.utf8EncodeChar char = [b] := by
  have all : ∀ entry ∈ shortEscapes, ∃ b : UInt8,
      escapedByte? entry.1 = some b ∧ b < 0x80 ∧ entry.2 = b.toNat := by
    simp [shortEscapes, escapedByte?]
  obtain ⟨b, read, ascii, same⟩ := all _ known
  exact ⟨b, read, utf8EncodeChar_of_toNat ascii same⟩

theorem codePointBytes_toNat (char : Char) :
    codePointBytes char.toNat = String.utf8EncodeChar char := by
  rw [codePointBytes, Char.ofNat_toNat]

theorem scanText_escapes {chars : List Char} {content : Bytes} (escapes : Escapes chars content)
    (done rest : Bytes) :
    scanText false .plain done (content ++ 0x22 :: rest) =
      .ok (done.reverse ++ chars.flatMap String.utf8EncodeChar, rest) := by
  induction escapes generalizing done with
  | nil => simp [scanText]
  | plain quote backslash control _ ih =>
      rw [List.append_assoc, scanText_plain (plain_utf8EncodeChar quote backslash control), ih]
      simp
  | @short letter char chars bytes known _ ih =>
      obtain ⟨b, read, encoded⟩ := escapedByte?_of_short known
      have other : letter ≠ 0x75 := by
        rintro rfl
        simp [escapedByte?] at read
      simp [scanText, TextState.step, other, read, ih, encoded]
  | @unit a b c d char chars bytes value _ ih =>
      have added : unicodeEscape none char.toNat = some (.plain, String.utf8EncodeChar char) := by
        have noSurrogate : char.toNat < 0xd800 ∨ 0xdfff < char.toNat :=
          char.valid.imp_right And.left
        rw [unicodeEscape, if_neg (by omega), if_neg (by omega), codePointBytes_toNat]
      simp [scanText, TextState.step, value, added, ih]
  | @pair a b c d a' b' c' d' high low char chars bytes value small value' small' same _ ih =>
      have waits : unicodeEscape none (0xd800 + high) = some (.pair (0xd800 + high), []) := by
        rw [unicodeEscape, if_pos (by omega)]
      have added : unicodeEscape (some (0xd800 + high)) (0xdc00 + low) =
          some (.plain, String.utf8EncodeChar char) := by
        rw [unicodeEscape, if_pos (by omega), Nat.add_sub_cancel_left, Nat.add_sub_cancel_left,
          ← same, codePointBytes_toNat]
      simp [scanText, TextState.step, value, waits, value', added, ih]

theorem text_of_escapes {s : String} {content : Bytes} (escapes : Escapes s.toList content) :
    text (content ++ [0x22]) = .ok (s, []) := by
  refine text_eq_ok_iff.2 ⟨_, scanText_escapes escapes [] [], ?_⟩
  rw [List.reverse_nil, List.nil_append, ← Bytes.ofString_eq_flatMap, Bytes.toString?_ofString]

/-- A byte is written as one of the escapes of its character, or as it is. -/
theorem escapeByte_cases (b : UInt8) :
    (∃ letter, (letter, b.toNat) ∈ shortEscapes ∧ escapeByte b = [0x5c, letter]) ∨
      (∃ high low, hexValue? [low, high, 0x30, 0x30] = some b.toNat ∧
        escapeByte b = [0x5c, 0x75, 0x30, 0x30, high, low]) ∨
      b.toNat ≠ 0x22 ∧ b.toNat ≠ 0x5c ∧ 0x20 ≤ b.toNat ∧ escapeByte b = [b] := by
  unfold escapeByte
  split_ifs with quote backslash backspace feed line ret tab control
  iterate 7
    · subst_vars
      exact .inl ⟨_, by simp [shortEscapes], rfl⟩
  · exact .inr (.inl ⟨_, _, (hexValue?_hexDigit control).1, rfl⟩)
  · simp only [← UInt8.toNat_inj, UInt8.lt_iff_toNat_lt, UInt8.reduceToNat] at quote backslash control
    exact .inr (.inr ⟨quote, backslash, by omega, rfl⟩)

/-- What is written for a string stands for its characters. -/
theorem escapes_flatMap (chars : List Char) :
    Escapes chars ((chars.flatMap String.utf8EncodeChar).flatMap escapeByte) := by
  induction chars with
  | nil => exact .nil
  | cons char chars ih =>
      rw [List.flatMap_cons, List.flatMap_append]
      obtain ⟨b, -, same, single⟩ | ⟨wide, high⟩ := Bytes.utf8EncodeChar_cases char
      · rw [single, List.flatMap_singleton]
        obtain ⟨letter, known, written⟩ | ⟨_, _, value, written⟩ |
          ⟨quote, backslash, control, written⟩ := escapeByte_cases b
        · rw [written]
          exact .short (same ▸ known) ih
        · rw [written]
          exact .unit (same ▸ value) ih
        · rw [written, ← single]
          exact .plain (same ▸ quote) (same ▸ backslash) (same ▸ control) ih
      · rw [List.flatMap_congr fun b member => escapeByte_of_not_ascii (high b member),
          List.flatMap_singleton']
        exact .plain (by omega) (by omega) (by omega) ih

/-- A piece of a text: bytes that can be written in one way only, or a string. -/
inductive Piece where
  | fixed (bytes : Bytes)
  | text (s : String)

namespace Piece

def comma (first : Bool) : List Piece := if first then [] else [fixed [0x2c]]

inductive Spells : Piece → Bytes → Prop where
  | fixed {bytes : Bytes} : Spells (fixed bytes) bytes
  | text {s : String} {content : Bytes} :
      Escapes s.toList content → Spells (text s) (0x22 :: (content ++ [0x22]))

end Piece

mutual

/-- The pieces of a value in their order. -/
def pieces : Value → List Piece
  | .null => [.fixed (Bytes.ofAscii ['n', 'u', 'l', 'l'])]
  | .bool true => [.fixed (Bytes.ofAscii ['t', 'r', 'u', 'e'])]
  | .bool false => [.fixed (Bytes.ofAscii ['f', 'a', 'l', 's', 'e'])]
  | .int n => [.fixed (Bytes.ofAscii (integerText n.val))]
  | .double d => [.fixed (Bytes.ofAscii (numberLayout.text d))]
  | .string s => [.text s]
  | .array items => .fixed [0x5b] :: (piecesItems true items ++ [.fixed [0x5d]])
  | .object members => .fixed [0x7b] :: (piecesMembers true members ++ [.fixed [0x7d]])

def piecesItems (first : Bool) : List Value → List Piece
  | [] => []
  | item :: rest => Piece.comma first ++ (pieces item ++ piecesItems false rest)

def piecesMembers (first : Bool) : List (String × Value) → List Piece
  | [] => []
  | (name, value) :: rest =>
    Piece.comma first ++ .text name :: .fixed [0x3a] :: (pieces value ++ piecesMembers false rest)

end

/-- The text of some pieces, with blanks before, between and after them. -/
inductive Spreads : List Piece → Bytes → Prop where
  | nil {blanks : Bytes} : Blank blanks → Spreads [] blanks
  | cons {blanks bytes text : Bytes} {piece : Piece} {rest : List Piece} :
      Blank blanks → piece.Spells bytes → Spreads rest text →
      Spreads (piece :: rest) (blanks ++ (bytes ++ text))

/-- The text is one of the tree, however its blanks and escapes are chosen. -/
def Writes (v : Value) (text : Bytes) : Prop := Spreads (pieces v) text

theorem Spreads.fixed {bytes text : Bytes} {rest : List Piece}
    (spread : Spreads (.fixed bytes :: rest) text) :
    ∃ blanks left, text = blanks ++ (bytes ++ left) ∧ Blank blanks ∧ Spreads rest left := by
  cases spread with
  | cons blank spelled spread =>
      cases spelled
      exact ⟨_, _, rfl, blank, spread⟩

theorem Spreads.string {s : String} {text : Bytes} {rest : List Piece}
    (spread : Spreads (.text s :: rest) text) :
    ∃ blanks content left, text = blanks ++ 0x22 :: (content ++ left) ∧ Blank blanks ∧
      Json.text content = .ok (s, []) ∧ Spreads rest left := by
  cases spread with
  | cons blank spelled spread =>
      cases spelled with
      | text escapes => exact ⟨_, _, _, rfl, blank, text_of_escapes escapes, spread⟩

theorem Spreads.comma {first : Bool} {text : Bytes} {rest : List Piece}
    (spread : Spreads (Piece.comma first ++ rest) text) :
    ∃ before left, text = before ++ left ∧ Separates first before ∧ Spreads rest left := by
  cases first with
  | true => exact ⟨[], text, rfl, .start, spread⟩
  | false =>
      obtain ⟨blanks, left, rfl, blank, spread⟩ := spread.fixed
      exact ⟨blanks ++ [0x2c], left, by simp, .comma blank, spread⟩

/-- Each text that starts with the pieces of the value starts with a text that spells it. -/
def Leads (v : Value) : Prop :=
  ∀ rest text, Spreads (pieces v ++ rest) text → ∃ blanks bytes left,
    text = blanks ++ (bytes ++ left) ∧ Blank blanks ∧ Spells v bytes ∧ Spreads rest left

theorem leads_fixed {v : Value} {bytes : Bytes} (single : pieces v = [.fixed bytes])
    (spelled : Spells v bytes) : Leads v := by
  intro rest text spread
  rw [single] at spread
  obtain ⟨blanks, left, rfl, blank, spread⟩ := spread.fixed
  exact ⟨blanks, bytes, left, rfl, blank, spelled, spread⟩

theorem Spreads.items {items : List Value} (each : ∀ item ∈ items, Leads item) {first : Bool}
    {rest : List Piece} {text : Bytes}
    (spread : Spreads (piecesItems first items ++ .fixed [0x5d] :: rest) text) :
    ∃ body left, text = body ++ left ∧ SpellsItems first items body ∧ Spreads rest left := by
  induction items generalizing first text with
  | nil =>
      obtain ⟨blanks, left, rfl, blank, spread⟩ := spread.fixed
      exact ⟨blanks ++ [0x5d], left, by simp, .nil blank, spread⟩
  | cons item items ih =>
      obtain ⟨here, there⟩ := List.forall_mem_cons.1 each
      rw [piecesItems, List.append_assoc, List.append_assoc] at spread
      obtain ⟨before, _, rfl, separates, spread⟩ := spread.comma
      obtain ⟨blanks, bytes, _, rfl, blank, spelled, spread⟩ := here _ _ spread
      obtain ⟨body, left, rfl, later, spread⟩ := ih there spread
      exact ⟨before ++ (blanks ++ (bytes ++ body)), left, by simp,
        .cons separates blank spelled later, spread⟩

theorem Spreads.members {members : List (String × Value)}
    (each : ∀ entry ∈ members, Leads entry.2) {first : Bool} {rest : List Piece} {text : Bytes}
    (spread : Spreads (piecesMembers first members ++ .fixed [0x7d] :: rest) text) :
    ∃ body left, text = body ++ left ∧ SpellsMembers first members body ∧ Spreads rest left := by
  induction members generalizing first text with
  | nil =>
      obtain ⟨blanks, left, rfl, blank, spread⟩ := spread.fixed
      exact ⟨blanks ++ [0x7d], left, by simp, .nil blank, spread⟩
  | cons entry members ih =>
      obtain ⟨name, v⟩ := entry
      obtain ⟨here, there⟩ := List.forall_mem_cons.1 each
      rw [piecesMembers, List.append_assoc, List.cons_append, List.cons_append,
        List.append_assoc] at spread
      obtain ⟨before, _, rfl, separates, spread⟩ := spread.comma
      obtain ⟨blanks, key, _, rfl, blank, named, spread⟩ := spread.string
      obtain ⟨ahead, _, rfl, blank', spread⟩ := spread.fixed
      obtain ⟨behind, bytes, _, rfl, blank'', spelled, spread⟩ := here _ _ spread
      obtain ⟨body, left, rfl, later, spread⟩ := ih there spread
      exact ⟨_, left, by simp, .cons separates blank named blank' blank'' spelled later, spread⟩

theorem leads (v : Value) (readsBack : ∀ d ∈ v.doubles, ReadsBack d) : Leads v := by
  induction v using Value.induction with
  | null => exact leads_fixed rfl .null
  | bool b => cases b <;> exact leads_fixed rfl (by constructor)
  | int n => exact leads_fixed rfl (.int (number_integerText n))
  | double d => exact leads_fixed rfl (.double (readsBack d (List.mem_singleton_self d)))
  | string s =>
      intro rest text spread
      obtain ⟨blanks, content, left, rfl, blank, read, spread⟩ := Spreads.string spread
      exact ⟨blanks, 0x22 :: content, left, rfl, blank, .string read, spread⟩
  | array items ih =>
      intro rest text spread
      rw [pieces, List.cons_append, List.append_assoc] at spread
      obtain ⟨blanks, _, rfl, blank, spread⟩ := spread.fixed
      have each := Value.forall_doublesItems_iff.1 readsBack
      obtain ⟨body, left, rfl, spelled, spread⟩ := spread.items fun item member =>
        ih item member (each item member)
      exact ⟨blanks, 0x5b :: body, left, rfl, blank, .array spelled, spread⟩
  | object members ih =>
      intro rest text spread
      rw [pieces, List.cons_append, List.append_assoc] at spread
      obtain ⟨blanks, _, rfl, blank, spread⟩ := spread.fixed
      have each := Value.forall_doublesMembers_iff.1 readsBack
      obtain ⟨body, left, rfl, spelled, spread⟩ := spread.members fun entry member =>
        ih entry member (each entry member)
      exact ⟨blanks, 0x7b :: body, left, rfl, blank, .object spelled, spread⟩

theorem spells_writeText (s : String) : Piece.Spells (.text s) (writeText s) := by
  refine .text ?_
  rw [Bytes.ofString_eq_flatMap]
  exact escapes_flatMap s.toList

theorem Spreads.after {rest : List Piece} {text : Bytes} (spread : Spreads rest text)
    {blanks : Bytes} (blank : Blank blanks) (bytes : Bytes) :
    Spreads (.fixed bytes :: rest) (blanks ++ (bytes ++ text)) :=
  .cons blank .fixed spread

theorem Spreads.afterComma {rest : List Piece} {text : Bytes} (spread : Spreads rest text)
    (first : Bool) :
    Spreads (Piece.comma first ++ rest) ((if first then [] else [0x2c]) ++ text) := by
  cases first with
  | true => exact spread
  | false => exact spread.after blank_nil [0x2c]

section

variable {style : Style} (blank : style.IsBlank)

include blank

mutual

/-- What is written of a value, after blanks and before other pieces, belongs to its texts. -/
theorem spreads_write (v : Value) (level : Nat) {blanks : Bytes} (before : Blank blanks)
    {rest : List Piece} {text : Bytes} (spread : Spreads rest text) :
    Spreads (pieces v ++ rest) (blanks ++ (write style level v ++ text)) := by
  cases v with
  | null | int | double => exact spread.after before _
  | bool b => cases b <;> exact spread.after before _
  | string s => exact .cons before (spells_writeText s) spread
  | array items =>
      cases items with
      | nil => exact (spread.after blank_nil [0x5d]).after before [0x5b]
      | cons item items =>
          have closed := spread.after (blank.lineBreak level) [0x5d]
          have all := spreads_writeItems (item :: items) (level + 1) true closed
          simpa [pieces, write] using all.after before [0x5b]
  | object members =>
      cases members with
      | nil => exact (spread.after blank_nil [0x7d]).after before [0x7b]
      | cons entry members =>
          have closed := spread.after (blank.lineBreak level) [0x7d]
          have all := spreads_writeMembers (entry :: members) (level + 1) true closed
          simpa [pieces, write] using all.after before [0x7b]

theorem spreads_writeItems (items : List Value) (level : Nat) (first : Bool)
    {rest : List Piece} {text : Bytes} (spread : Spreads rest text) :
    Spreads (piecesItems first items ++ rest) (writeItems style level first items ++ text) := by
  cases items with
  | nil => exact spread
  | cons item items =>
      have later := spreads_writeItems items level false spread
      have here := (spreads_write item level (blank.lineBreak level) later).afterComma first
      simpa only [piecesItems, writeItems, List.append_assoc] using here

theorem spreads_writeMembers (members : List (String × Value)) (level : Nat) (first : Bool)
    {rest : List Piece} {text : Bytes} (spread : Spreads rest text) :
    Spreads (piecesMembers first members ++ rest)
      (writeMembers style level first members ++ text) := by
  cases members with
  | nil => exact spread
  | cons entry members =>
      obtain ⟨name, v⟩ := entry
      have later := spreads_writeMembers members level false spread
      have value := spreads_write v level blank.afterColon later
      have named := Spreads.cons (blank.lineBreak level) (spells_writeText name)
        (value.after blank_nil [0x3a])
      have here := named.afterComma first
      simpa only [piecesMembers, writeMembers, List.append_assoc, List.cons_append,
        List.nil_append] using here

end

theorem writes_write (v : Value) : Writes v (write style 0 v) := by
  have spread := spreads_write blank v 0 blank_nil (.nil blank_nil)
  rwa [List.append_nil, List.append_nil, List.nil_append] at spread

end

/-- A text of a tree is read as a description just as the tree is. -/
theorem toOption_decode_of_writes {v : Value} (readsBack : ∀ d ∈ v.doubles, ReadsBack d)
    {text : Bytes} (writes : Writes v text) :
    (decode text : Except Error ModelDescription).toOption =
      (Document.reader : Reading convention ModelDescription).run maxLevels v := by
  obtain ⟨before, bytes, after, rfl, blank, spelled, spread⟩ :=
    leads v readsBack [] text (by rwa [List.append_nil])
  cases spread with
  | nil blank' => exact toOption_decode spelled blank blank'

/-- From a text of a tree that nests within the levels a description is decoded exactly if the tree
    describes it, where null is not taken for attributes. -/
theorem decode_eq_ok_iff_describes {v : Value} (shallow : v.nesting ≤ maxLevels)
    (readsBack : ∀ d ∈ v.doubles, ReadsBack d) {text : Bytes} (writes : Writes v text)
    (description : ModelDescription) :
    decode text = .ok description ↔ v.Describes false description := by
  rw [← Except.toOption_eq_some, toOption_decode_of_writes readsBack writes]
  exact Reading.follows_description maxLevels v shallow description

/-- One node as the list of its fields, and one with its fields out of order and one attribute given
    twice, beside a member that is no field. -/
theorem decode_eq_ok_iff_describes_mixed :
    let one : Integer := ⟨1, by decide, by decide⟩
    let seven : Integer := ⟨7, by decide, by decide⟩
    let v : Value := .object [("extra", .array [.null]),
      ("nodes", .array [.array [.int seven, .string "k"],
        .object [("attributes", .object [("a", .null), ("a", .bool true)]), ("kind", .string "x"),
          ("id", .int one)]])]
    let description : ModelDescription := ⟨[⟨⟨7⟩, "k", [], .empty⟩,
      ⟨⟨1⟩, "x", [], Attributes.empty.insert "a" (.bool true)⟩]⟩
    v.nesting ≤ maxLevels ∧ (∀ d ∈ v.doubles, ReadsBack d) ∧ Writes v (write .pretty 0 v) ∧
      decode (write .pretty 0 v) = .ok description := by
  intro one seven v description
  have shallow : v.nesting ≤ maxLevels := by decide
  have readsBack : ∀ d ∈ v.doubles, ReadsBack d := by decide
  have writes := writes_write Style.isBlank_pretty v
  have first : Value.GivesNode false (.array [.int seven, .string "k"]) ⟨⟨7⟩, "k", [], .empty⟩ :=
    ⟨_, _, none, none, .listed (by decide), ⟨seven, rfl, rfl⟩, rfl, .absent, .absent⟩
  have attributes : Value.GivesAttributes false (.object [("a", .null), ("a", .bool true)])
      (Attributes.empty.insert "a" (.bool true)) :=
    .object (Attributes.ofMembers_eq_iff.1 rfl)
  have second : Value.GivesNode false
      (.object [("attributes", .object [("a", .null), ("a", .bool true)]), ("kind", .string "x"),
        ("id", .int one)]) ⟨⟨1⟩, "x", [], Attributes.empty.insert "a" (.bool true)⟩ :=
    ⟨.int one, .string "x", none, some _, .of_lookup (by decide) rfl, ⟨one, rfl, rfl⟩, rfl, .absent,
      .given attributes⟩
  have describes : v.Describes false description :=
    ⟨_, .of_lookup (by decide) rfl, _, rfl, .cons first (.cons second .nil)⟩
  exact ⟨shallow, readsBack, writes,
    (decode_eq_ok_iff_describes shallow readsBack writes description).2 describes⟩

end Dataflow.Json

import Dataflow.Proofs.Extending
import Dataflow.Json.Reader

/-! # Tokens before other text

A token is read in the same way whatever stands after it, except that nothing may stand after a
number that could belong to it. Blanks before a token are of no account.
-/

namespace Dataflow.Json

def Blank (bytes : Bytes) : Prop := ∀ b ∈ bytes, isBlank b

theorem blank_nil : Blank [] := List.forall_mem_nil _

theorem skipBlanks_append {blanks : Bytes} (blank : Blank blanks) (bytes : Bytes) :
    skipBlanks (blanks ++ bytes) = skipBlanks bytes := by
  induction blanks with
  | nil => rfl
  | cons b blanks ih =>
      obtain ⟨first, later⟩ := List.forall_mem_cons.1 blank
      simpa [skipBlanks, first] using ih later

theorem skipBlanks_of_blank {blanks : Bytes} (blank : Blank blanks) : skipBlanks blanks = [] :=
  List.dropWhile_eq_nil_iff.2 blank

theorem skipBlanks_cons {b : UInt8} (visible : isBlank b = false) (bytes : Bytes) :
    skipBlanks (b :: bytes) = b :: bytes := by
  simp [skipBlanks, visible]

theorem skipBlanks_before {blanks : Bytes} (blank : Blank blanks) {b : UInt8}
    (visible : isBlank b = false) (bytes : Bytes) :
    skipBlanks (blanks ++ b :: bytes) = b :: bytes := by
  rw [skipBlanks_append blank, skipBlanks_cons visible]

/-- No part of a number starts with the byte. -/
def endsNumber (b : UInt8) : Bool :=
  !isDigit b && b != 0x2e && b != 0x65 && b != 0x45

/-- What may stand after a number. -/
def Delimited (bytes : Bytes) : Prop := ∀ b ∈ bytes.head?, endsNumber b

theorem delimited_nil : Delimited [] := by
  simp [Delimited]

theorem delimited_cons {b : UInt8} (ends : endsNumber b) (bytes : Bytes) :
    Delimited (b :: bytes) := by
  simpa [Delimited] using ends

theorem endsNumber_of_isBlank {b : UInt8} (blank : isBlank b) : endsNumber b := by
  revert b
  decide +kernel

theorem delimited_append {blanks bytes : Bytes} (blank : Blank blanks)
    (delimited : Delimited bytes) : Delimited (blanks ++ bytes) := by
  cases blanks with
  | nil => exact delimited
  | cons b blanks =>
      exact delimited_cons (endsNumber_of_isBlank (blank b List.mem_cons_self)) _

theorem Delimited.span_isDigit {rest : Bytes} (delimited : Delimited rest) (bytes : Bytes) :
    (bytes ++ rest).takeWhile isDigit = bytes.takeWhile isDigit ∧
      (bytes ++ rest).dropWhile isDigit = bytes.dropWhile isDigit ++ rest := by
  induction bytes with
  | nil =>
      cases rest with
      | nil => exact ⟨rfl, rfl⟩
      | cons b rest =>
          have ends : endsNumber b := delimited b rfl
          have : isDigit b = false := by
            simp only [endsNumber, Bool.and_eq_true, Bool.not_eq_true'] at ends
            exact ends.1.1.1
          simp [this]
  | cons b bytes ih =>
      simp only [List.cons_append, List.takeWhile_cons, List.dropWhile_cons, ih.1, ih.2]
      cases isDigit b <;> simp

theorem Delimited.append_eq_cons {rest : Bytes} (delimited : Delimited rest) {b : UInt8}
    (continues : endsNumber b = false) {bytes tail : Bytes} (same : bytes ++ rest = b :: tail) :
    ∃ tail, bytes = b :: tail := by
  cases bytes with
  | nil =>
      have ends := delimited b (by rw [← List.nil_append rest, same]; rfl)
      rw [continues] at ends
      cases ends
  | cons b bytes =>
      cases same
      exact ⟨bytes, rfl⟩

namespace Numeral

theorem digits_eq_ok_iff {bytes found left : Bytes} :
    digits bytes = .ok (found, left) ↔
      bytes.takeWhile isDigit = found ∧ bytes.dropWhile isDigit = left ∧ found ≠ [] := by
  unfold digits
  generalize bytes.takeWhile isDigit = taken, bytes.dropWhile isDigit = dropped
  cases taken <;> cases dropped <;> simp <;> rintro rfl <;> simp

theorem extends_digits : ExtendsBy Delimited digits := by
  intro bytes found left ok rest delimited
  rw [digits_eq_ok_iff] at ok ⊢
  rw [(delimited.span_isDigit bytes).1, (delimited.span_isDigit bytes).2, ok.2.1]
  exact ⟨ok.1, rfl, ok.2.2⟩

theorem wholeDigits_eq_ok_iff {bytes found left : Bytes} :
    wholeDigits bytes = .ok (found, left) ↔
      digits bytes = .ok (found, left) ∧ ∀ b rest, found ≠ 0x30 :: b :: rest := by
  rw [wholeDigits, Except.bind_eq_ok_iff]
  constructor
  · rintro ⟨⟨taken, rest⟩, read, same⟩
    dsimp only at same
    split at same
    · cases same
    · next other =>
      cases same
      exact ⟨read, fun b rest => other b rest⟩
  · rintro ⟨read, single⟩
    refine ⟨_, read, ?_⟩
    dsimp only
    split
    · exact (single _ _ rfl).elim
    · rfl

theorem extends_wholeDigits : ExtendsBy Delimited wholeDigits := by
  intro bytes found left ok rest delimited
  rw [wholeDigits_eq_ok_iff] at ok ⊢
  exact ⟨extends_digits _ _ _ ok.1 rest delimited, ok.2⟩

theorem extends_fractionDigits : ExtendsBy Delimited fractionDigits := by
  intro bytes found left ok rest delimited
  unfold fractionDigits at ok
  split at ok
  · exact extends_digits.bind (fun _ => .ok _) _ _ _ ok rest delimited
  · next other =>
    cases ok
    unfold fractionDigits
    split
    · next same =>
      obtain ⟨_, same⟩ := delimited.append_eq_cons (by decide) same
      exact (other _ same).elim
    · rfl

theorem extends_signedDigits : ExtendsBy Delimited signedDigits := by
  intro bytes found left ok rest delimited
  cases bytes with
  | nil => cases ok
  | cons b bytes =>
      unfold signedDigits at ok ⊢
      rw [List.cons_append]
      split at ok
      · next same =>
        cases same
        exact extends_digits.bind (fun _ => .ok _) _ _ _ ok rest delimited
      · next same =>
        cases same
        exact extends_digits.bind (fun _ => .ok _) _ _ _ ok rest delimited
      · next minus plus =>
        split
        · next same => simp_all
        · next same => simp_all
        · exact extends_digits.bind (fun _ => .ok _) _ _ _ ok rest delimited

theorem extends_exponentDigits : ExtendsBy Delimited exponentDigits := by
  intro bytes found left ok rest delimited
  unfold exponentDigits at ok
  split at ok
  · exact extends_signedDigits.bind (fun _ => .ok _) _ _ _ ok rest delimited
  · exact extends_signedDigits.bind (fun _ => .ok _) _ _ _ ok rest delimited
  · next lower upper =>
    cases ok
    unfold exponentDigits
    split
    · next same =>
      obtain ⟨_, same⟩ := delimited.append_eq_cons (by decide) same
      exact (lower _ same).elim
    · next same =>
      obtain ⟨_, same⟩ := delimited.append_eq_cons (by decide) same
      exact (upper _ same).elim
    · rfl

theorem extends_unsigned (negative : Bool) : ExtendsBy Delimited (unsigned negative) :=
  extends_wholeDigits.bind fun _ =>
    extends_fractionDigits.bind fun _ => extends_exponentDigits.bind fun _ => .ok _

theorem extends_scan : ExtendsBy Delimited scan := by
  intro bytes numeral left ok rest delimited
  cases bytes with
  | nil => cases ok
  | cons b bytes =>
      unfold scan at ok ⊢
      rw [List.cons_append]
      split at ok
      · next same =>
        cases same
        exact extends_unsigned true _ _ _ ok rest delimited
      · next minus =>
        split
        · next same => simp_all
        · exact extends_unsigned false _ _ _ ok rest delimited

end Numeral

theorem number_eq_ok_iff {bytes left : Bytes} {n : Number} :
    number bytes = .ok (n, left) ↔
      ∃ numeral, Numeral.scan bytes = .ok (numeral, left) ∧ numeral.value? = some n := by
  rw [number, Except.bind_eq_ok_iff]
  constructor
  · rintro ⟨⟨numeral, rest⟩, scanned, same⟩
    dsimp only at same
    split at same <;> cases same
    exact ⟨numeral, scanned, ‹_›⟩
  · rintro ⟨numeral, scanned, value⟩
    exact ⟨_, scanned, by simp only [value]⟩

theorem extends_number : ExtendsBy Delimited number := by
  intro bytes n left ok rest delimited
  obtain ⟨numeral, scanned, value⟩ := number_eq_ok_iff.1 ok
  exact number_eq_ok_iff.2
    ⟨numeral, Numeral.extends_scan _ _ _ scanned rest delimited, value⟩

/-- What reads as a number is passed over as one. -/
theorem skipNumber_of_number {bytes left : Bytes} {n : Number}
    (ok : number bytes = .ok (n, left)) : skipNumber bytes = .ok left := by
  obtain ⟨numeral, scanned, -⟩ := number_eq_ok_iff.1 ok
  simp only [skipNumber, scanned]

/-- The sign of a number, or a digit. -/
def startsNumber (b : UInt8) : Bool := b = 0x2d || isDigit b

theorem exists_of_number {bytes left : Bytes} {n : Number} (ok : number bytes = .ok (n, left)) :
    ∃ b tail, bytes = b :: tail ∧ startsNumber b := by
  cases bytes with
  | nil => cases ok
  | cons b tail =>
      refine ⟨b, tail, rfl, ?_⟩
      by_cases sign : b = 0x2d
      · simp [startsNumber, sign]
      by_cases digit : isDigit b
      · simp [startsNumber, digit]
      -- neither: the scan finds no digit before the point
      have none : Numeral.digits (b :: tail) = .error .malformed := by
        simp [Numeral.digits, digit]
      simp [number, Numeral.scan, sign, Numeral.unsigned, Numeral.wholeDigits, none, Bind.bind,
        Except.bind] at ok

section

variable {skipped : Bool} {state : TextState} {b : UInt8}
  (inside : ¬(state = .plain ∧ b = 0x22)) (done rest : Bytes)

include inside

theorem scanText_of_step {next : TextState} {added : Bytes}
    (step : state.step skipped b = some (next, added)) :
    scanText skipped state done (b :: rest) =
      scanText skipped next (added.reverse ++ done) rest := by
  cases state with
  | plain =>
      have other : b ≠ 0x22 := fun same => inside ⟨rfl, same⟩
      simp [scanText, other, step]
  | _ => simp only [scanText, step]

theorem scanText_of_none (step : state.step skipped b = none) :
    scanText skipped state done (b :: rest) = .error .malformed := by
  cases state with
  | plain =>
      have other : b ≠ 0x22 := fun same => inside ⟨rfl, same⟩
      simp [scanText, other, step]
  | _ => simp only [scanText, step]

end

theorem extends_scanText (skipped : Bool) (state : TextState) (done : Bytes) :
    Extends (scanText skipped state done) := by
  intro bytes content left ok rest _
  induction bytes generalizing state done with
  | nil => cases state <;> cases ok
  | cons b bytes ih =>
      by_cases closing : state = .plain ∧ b = 0x22
      · obtain ⟨rfl, rfl⟩ := closing
        cases ok
        rfl
      rw [List.cons_append]
      cases step : state.step skipped b with
      | none =>
          rw [scanText_of_none closing _ _ step] at ok
          cases ok
      | some next =>
          rw [scanText_of_step closing _ _ step] at ok ⊢
          exact ih _ _ ok

theorem text_eq_ok_iff {bytes left : Bytes} {s : String} :
    text bytes = .ok (s, left) ↔ ∃ content,
      scanText false .plain [] bytes = .ok (content, left) ∧ Bytes.toString? content = some s := by
  rw [text, Except.bind_eq_ok_iff]
  constructor
  · rintro ⟨⟨content, rest⟩, scanned, same⟩
    dsimp only at same
    split at same <;> cases same
    exact ⟨content, scanned, ‹_›⟩
  · rintro ⟨content, scanned, valid⟩
    exact ⟨_, scanned, by simp only [valid]⟩

theorem extends_text : Extends text := by
  intro bytes s left ok rest _
  obtain ⟨content, scanned, valid⟩ := text_eq_ok_iff.1 ok
  exact text_eq_ok_iff.2
    ⟨content, extends_scanText false .plain [] _ _ _ scanned rest trivial, valid⟩

/-- Where the reading of a string stands, but for surrogates that wait for a partner. -/
def TextState.unpaired : TextState → TextState
  | digits _ found => digits none found
  | pair _ => plain
  | pairEscape _ => escape
  | state => state

theorem unicodeEscape_unpaired {high : Option Nat} {unit : Nat} {next : TextState}
    {added : Bytes} (escaped : unicodeEscape high unit = some (next, added)) :
    next.unpaired = .plain := by
  cases high with
  | some high =>
      simp only [unicodeEscape] at escaped
      split at escaped <;> cases escaped
      rfl
  | none =>
      simp only [unicodeEscape] at escaped
      split at escaped
      · cases escaped
        rfl
      split at escaped <;> cases escaped
      rfl

/-- A byte that is allowed in a string is allowed where it is passed over. -/
theorem TextState.step_unpaired {state next : TextState} {b : UInt8} {added : Bytes}
    (step : state.step false b = some (next, added)) :
    ∃ added, state.unpaired.step true b = some (next.unpaired, added) := by
  cases state with
  | plain =>
      simp only [TextState.step] at step
      split at step
      · next backslash =>
        cases step
        exact ⟨_, if_pos backslash⟩
      split at step
      · cases step
      · next other control =>
        cases step
        exact ⟨_, (if_neg other).trans (if_neg control)⟩
  | escape =>
      simp only [TextState.step] at step
      split at step
      · next unicode =>
        cases step
        exact ⟨_, if_pos unicode⟩
      · next other =>
        cases letter : escapedByte? b with
        | none => simp [letter] at step
        | some byte =>
            simp only [letter, Option.map_some, Option.some.injEq, Prod.mk.injEq] at step
            obtain ⟨rfl, -⟩ := step
            exact ⟨[byte], by simp [unpaired, TextState.step, other, letter]⟩
  | digits high found =>
      match found with
      | [] | [_] | [_, _] | _ :: _ :: _ :: _ :: _ =>
          cases step
          exact ⟨_, rfl⟩
      | [_, _, _] =>
          simp only [TextState.step, Bool.false_eq_true, if_false, Option.bind_eq_bind,
            Option.bind_eq_some_iff] at step
          obtain ⟨unit, value, escaped⟩ := step
          rw [unicodeEscape_unpaired escaped]
          exact ⟨[], by simp [unpaired, TextState.step, value]⟩
  | pair high =>
      simp only [TextState.step] at step
      split at step
      · next backslash =>
        cases step
        exact ⟨_, if_pos backslash⟩
      · cases step
  | pairEscape high =>
      simp only [TextState.step] at step
      split at step
      · next unicode =>
        cases step
        exact ⟨_, if_pos unicode⟩
      · cases step

/-- A string that can be read can be passed over, and ends at the same quote. -/
theorem scanText_skipped {state : TextState} {done bytes content left : Bytes}
    (ok : scanText false state done bytes = .ok (content, left)) (done' : Bytes) :
    ∃ content, scanText true state.unpaired done' bytes = .ok (content, left) := by
  induction bytes generalizing state done done' with
  | nil => cases state <;> cases ok
  | cons b bytes ih =>
      by_cases closing : state = .plain ∧ b = 0x22
      · obtain ⟨rfl, rfl⟩ := closing
        cases ok
        exact ⟨_, rfl⟩
      cases step : state.step false b with
      | none =>
          rw [scanText_of_none closing _ _ step] at ok
          cases ok
      | some next =>
          have open' : ¬(state.unpaired = .plain ∧ b = 0x22) := by
            rintro ⟨plain, rfl⟩
            cases state <;> simp [TextState.unpaired] at plain
            · exact closing ⟨rfl, rfl⟩
            · simp [TextState.step] at step
          obtain ⟨added', step'⟩ := TextState.step_unpaired step
          rw [scanText_of_step closing _ _ step] at ok
          rw [scanText_of_step open' _ _ step']
          exact ih ok _

theorem skipText_of_text {bytes left : Bytes} {s : String} (ok : text bytes = .ok (s, left)) :
    skipText bytes = .ok left := by
  obtain ⟨content, scanned, -⟩ := text_eq_ok_iff.1 ok
  obtain ⟨skipped, passed⟩ := scanText_skipped scanned []
  exact Except.map_eq_ok_iff.2 ⟨_, passed, rfl⟩

end Dataflow.Json

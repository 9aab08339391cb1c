import Dataflow.Bytes
import Dataflow.Proofs.Outcomes

/-! # Parsers and the bytes that follow

A parser that takes its value off the front of some bytes does the same when more bytes follow.
-/

namespace Dataflow

section

variable {α β ε : Type}

/-- What comes of the first bytes does not depend on those that follow, where these are allowed. -/
def ExtendsBy (allowed : Bytes → Prop) (parse : Bytes → Except ε (α × Bytes)) : Prop :=
  ∀ bytes x left, parse bytes = .ok (x, left) →
    ∀ rest, allowed rest → parse (bytes ++ rest) = .ok (x, left ++ rest)

/-- What comes of the first bytes does not depend on those that follow. -/
abbrev Extends : (Bytes → Except ε (α × Bytes)) → Prop := ExtendsBy fun _ => True

namespace ExtendsBy

variable {allowed : Bytes → Prop}

theorem ok (x : α) :
    ExtendsBy allowed fun bytes => (.ok (x, bytes) : Except ε (α × Bytes)) := by
  rintro bytes _ _ ⟨⟩ rest _
  rfl

theorem bind {parse : Bytes → Except ε (α × Bytes)} {next : α → Bytes → Except ε (β × Bytes)}
    (first : ExtendsBy allowed parse) (second : ∀ x, ExtendsBy allowed (next x)) :
    ExtendsBy allowed fun bytes => parse bytes >>= fun (x, rest) => next x rest := by
  intro bytes y left done rest follows
  obtain ⟨⟨x, between⟩, parsed, after⟩ := Except.bind_eq_ok_iff.1 done
  have extended := first bytes x between parsed rest follows
  exact Except.bind_eq_ok_iff.2 ⟨_, extended, second x between y left after rest follows⟩

end ExtendsBy

end

namespace Bytes

theorem toNat_toUInt8 {n : Nat} (small : n < 0x100) : n.toUInt8.toNat = n :=
  UInt8.toNat_ofNat_of_lt' small

theorem ofString_inj {s t : String} : ofString s = ofString t ↔ s = t := by
  constructor
  · intro same
    have := congrArg toString? same
    rwa [toString?_ofString, toString?_ofString, Option.some.injEq] at this
  · rintro rfl
    rfl

end Bytes

end Dataflow

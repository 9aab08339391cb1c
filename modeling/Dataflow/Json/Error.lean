import Dataflow.Schema.Violation

/-! # Why a JSON text cannot be read -/

namespace Dataflow.Json

/-- Why a JSON text cannot be read. -/
inductive Error where
  /-- The text ends where more of it is due. -/
  | endOfText
  /-- The text breaks the grammar or a limit of the reader. -/
  | malformed
  /-- The text is well formed so far, but not of the required shape. -/
  | mismatch (violation : Violation)
  deriving DecidableEq, Repr

/-- Doubles have the fewest digits that identify them, of two equally near choices the even one, in
    place if the first digit stands for 10^-5 to 10^15, otherwise with an exponent. -/
def numberLayout : NumberLayout where
  tie := .toEven
  inPlace exponent := -5 ≤ exponent && exponent ≤ 15

/-- Messages about JSON call nothing by its name and show doubles as JSON writes them. -/
def wording : Wording where
  nothing := "null"
  float
    | .finite d => String.ofList (numberLayout.text d)
    | .infinity _ | .nan => "null"

namespace Error

def message : Error → String
  | endOfText => "unexpected end of text"
  | malformed => "malformed text"
  | mismatch violation => violation.message wording

end Error

end Dataflow.Json

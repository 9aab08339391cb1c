import Dataflow.Json.Number
import Dataflow.Json.Text

/-! # Tokens of a JSON text

The pieces a text is read in: a scalar as a whole, or an opening bracket, and the punctuation
between the entries of a list or object.
-/

namespace Dataflow.Json

/-- Whether a byte may stand between tokens: space, line feed, carriage return or tab. -/
def isBlank (b : UInt8) : Bool := b == 0x20 || b == 0x0a || b == 0x0d || b == 0x09

/-- The text from its first byte that is not blank. -/
def skipBlanks (bytes : Bytes) : Bytes := bytes.dropWhile isBlank

inductive Bracket where
  | list
  | object
  deriving DecidableEq, Repr

def Bracket.close : Bracket → UInt8
  | list => 0x5d
  | object => 0x7d

/-- A scalar, or the opening of a list or object. -/
inductive Token where
  | null
  | bool (b : Bool)
  | number (n : Number)
  | text (s : String)
  | opening (bracket : Bracket)

namespace Token

/-- What a token is called where something else was asked for. -/
def found : Token → Found
  | null => .nothing
  | bool b => .bool b
  | number (.int n) => .integer n.val
  | number (.double d) => .float (.finite d)
  | text s => .text s
  | opening .list => .sequence
  | opening .object => .map

end Token

/-- The rest of a word whose first letter has been read. -/
def word : (letters : List Char) → Bytes → Except Error Bytes
  | [], bytes => .ok bytes
  | _ :: _, [] => .error .endOfText
  | letter :: letters, b :: rest =>
    if b.toNat = letter.toNat then word letters rest else .error .malformed

def token (bytes : Bytes) : Except Error (Token × Bytes) :=
  match skipBlanks bytes with
  | [] => .error .endOfText
  | b :: rest =>
    if b = 0x22 then (text rest).map fun (s, rest) => (.text s, rest)
    else if b = 0x5b then .ok (.opening .list, rest)
    else if b = 0x7b then .ok (.opening .object, rest)
    else if b = 0x6e then (word ['u', 'l', 'l'] rest).map fun rest => (.null, rest)
    else if b = 0x74 then (word ['r', 'u', 'e'] rest).map fun rest => (.bool true, rest)
    else if b = 0x66 then (word ['a', 'l', 's', 'e'] rest).map fun rest => (.bool false, rest)
    else if b = 0x2d || isDigit b then
      (number (b :: rest)).map fun (n, rest) => (.number n, rest)
    else .error .malformed

/-- How a list or object goes on. -/
inductive Next where
  | closed (rest : Bytes)
  | entry (bytes : Bytes)

/-- The way to the next entry of a list or object, or its closing bracket. All entries but the first
    follow a comma. -/
def next (bracket : Bracket) (first : Bool) (bytes : Bytes) : Except Error Next :=
  match skipBlanks bytes with
  | [] => .error .endOfText
  | b :: rest =>
    if b = bracket.close then .ok (.closed rest)
    else if first then .ok (.entry (b :: rest))
    else if b = 0x2c then .ok (.entry rest)
    else .error .malformed

def openKey (bytes : Bytes) : Except Error Bytes :=
  match skipBlanks bytes with
  | [] => .error .endOfText
  | b :: rest => if b = 0x22 then .ok rest else .error .malformed

/-- The colon between a key and its value. -/
def colon (bytes : Bytes) : Except Error Bytes :=
  match skipBlanks bytes with
  | [] => .error .endOfText
  | b :: rest => if b = 0x3a then .ok rest else .error .malformed

def key (bytes : Bytes) : Except Error (String × Bytes) := do text (← openKey bytes)

end Dataflow.Json

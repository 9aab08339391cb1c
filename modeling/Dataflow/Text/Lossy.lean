import Dataflow.Bytes

/-! # Text from bytes that may not be UTF-8

Messages may have to show a name whose bytes are not UTF-8. Each longest run of bytes that starts a
character but does not complete it, and each byte that starts none, shows as one replacement
character.
-/

namespace Dataflow

/-- The length of the longest start of the bytes that begins a well-formed character, and whether it
    completes one. The second byte decides between well-formed and overlong, surrogate or too large
    code points. -/
def characterStart : Bytes → Nat × Bool
  | [] => (0, false)
  | lead :: rest =>
    let continued (low high : UInt8) (more : Nat) : Nat × Bool :=
      match rest with
      | [] => (1, false)
      | second :: rest =>
        if low ≤ second && second ≤ high then
          let tail := (rest.take more).takeWhile fun b => 0x80 ≤ b && b ≤ 0xbf
          (2 + tail.length, tail.length == more)
        else (1, false)
    if lead < 0x80 then (1, true)
    else if lead < 0xc2 then (1, false)
    else if lead < 0xe0 then continued 0x80 0xbf 0
    else if lead = 0xe0 then continued 0xa0 0xbf 1
    else if lead = 0xed then continued 0x80 0x9f 1
    else if lead < 0xf0 then continued 0x80 0xbf 1
    else if lead = 0xf0 then continued 0x90 0xbf 2
    else if lead < 0xf4 then continued 0x80 0xbf 2
    else if lead = 0xf4 then continued 0x80 0x8f 2
    else (1, false)

/-- The text of the bytes, from pieces no more in number than `count`. -/
def lossyPieces : (count : Nat) → Bytes → String
  | 0, _ => ""
  | _, [] => ""
  | count + 1, bytes =>
    let (length, complete) := characterStart bytes
    let piece := if complete then Bytes.toString? (bytes.take length) else none
    piece.getD "\ufffd" ++ lossyPieces count (bytes.drop length)

/-- The text of the bytes with replacement characters where they are not UTF-8. -/
def lossyText (bytes : Bytes) : String := lossyPieces bytes.length bytes

end Dataflow

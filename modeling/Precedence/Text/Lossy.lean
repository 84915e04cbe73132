import Precedence.Bytes
/-!
Reading bytes as UTF-8 text when they need not be: every longest run of bytes that begins a
character without completing it, and every other byte that is out of place, becomes the replacement
character.

A project never reads a file in this way: it refuses one that is not text. This is for showing what
such a file holds.
-/
namespace Precedence.Bytes

def isBetween (lo hi : UInt8) (b : Option UInt8) : Bool := b.any fun x => lo ≤ x && x ≤ hi

def secondBounds (b : UInt8) : UInt8 × UInt8 :=
  if b = 0xE0 then (0xA0, 0xBF)
  else if b = 0xED then (0x80, 0x9F)
  else if b = 0xF0 then (0x90, 0xBF)
  else if b = 0xF4 then (0x80, 0x8F)
  else (0x80, 0xBF)

/-- The number of bytes in a character, by its first byte; none for a byte that begins no
character. -/
def size? (b : UInt8) : Option Nat :=
  if b < 0x80 then some 1
  else if 0xC2 ≤ b && b ≤ 0xDF then some 2
  else if 0xE0 ≤ b && b ≤ 0xEF then some 3
  else if 0xF0 ≤ b && b ≤ 0xF4 then some 4
  else none

/-- How many bytes behind the first one go on with its character, up to a number. -/
def continued (first : UInt8) (bs : Bytes) : Nat → Nat
  | 0 => 0
  | n + 1 =>
    let (lo, hi) := if n = 0 then secondBounds first else (0x80, 0xBF)
    let before := continued first bs n
    if before = n && isBetween lo hi bs[n]? then n + 1 else before

def pieces : Nat → Bytes → List String
  | 0, _ => []
  | _, [] => []
  | fuel + 1, b :: bs =>
    match size? b with
    | none => "\ufffd" :: pieces fuel bs
    | some size =>
      let n := continued b bs (size - 1)
      let piece := if n + 1 = size then (text? (b :: bs.take n)).getD "\ufffd" else "\ufffd"
      piece :: pieces fuel (bs.drop n)

/-- The text of bytes, with what is malformed replaced. -/
def lossyText (b : Bytes) : String := (text? b).getD (String.join (pieces b.length b))

end Precedence.Bytes

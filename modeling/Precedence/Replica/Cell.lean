import Precedence.Binary
import Precedence.Word
/-! Cells of a table: a column of texts takes a number as its numeral, and a column of integers
takes a text that is a numeral as the number. A column of integers keeps any other text as it is. -/
namespace Precedence

/-- A cell that is not empty. -/
inductive Cell where
  | integer (n : Int)
  /-- A number that is no integer of 64 bits, as written. -/
  | real (literal : String)
  | text (s : String)
  deriving DecidableEq, Repr

namespace Cell

open Text

def isGap (c : Char) : Bool := c == ' ' || (0x09 ≤ c.toNat && c.toNat ≤ 0x0D)

def trimGaps (cs : List Char) : List Char :=
  ((cs.dropWhile isGap).reverse.dropWhile isGap).reverse

def splitSign : List Char → Bool × List Char
  | '-' :: cs => (true, cs)
  | '+' :: cs => (false, cs)
  | cs => (false, cs)

/-- The number that the digits of an exponent stand for; one of more than five digits counts as
10000. -/
def exponentValue (ds : List Char) : Nat :=
  ds.foldl (fun n d => if n < 10000 then 10 * n + digitValue d else 10000) 0

/-- The exponent that a text stands for; an empty text stands for none. -/
def exponent? : List Char → Option (Option Int)
  | [] => some none
  | c :: cs =>
    if c = 'e' ∨ c = 'E' then
      let (minus, ds) := splitSign cs
      if ds.isEmpty || !ds.all isDigit then none
      else some (some (if minus then -(exponentValue ds : Int) else exponentValue ds))
    else none

def splitFraction : List Char → Option (List Char) × List Char
  | '.' :: cs => (some (cs.takeWhile isDigit), cs.dropWhile isDigit)
  | cs => (none, cs)

/-- What a column of integers holds after a text is put into it. A numeral without a point and an
exponent is taken exactly, any other one as a double. -/
def ofNumeral (s : String) : Cell :=
  let (minus, cs) := splitSign (trimGaps s.toList)
  let signed (n : Nat) : Int := if minus then -(n : Int) else n
  let whole := cs.takeWhile isDigit
  let (fraction, rest) := splitFraction (cs.dropWhile isDigit)
  let digits := whole ++ fraction.getD []
  if digits.isEmpty then .text s
  else match exponent? rest with
    | none => .text s
    | some exponent =>
      if fraction.isNone && exponent.isNone then
        let n := signed (value digits)
        if Word.IsSigned n then .integer n else .real s
      else match Binary.ofDigits? digits whole.length (exponent.getD 0) with
        | some n => if n < Word.half then .integer (signed n) else .real s
        | none => .real s

def asInteger : Cell → Cell
  | .text s => ofNumeral s
  | cell => cell

def asText : Cell → String
  | .integer n => integerText n
  | .real literal => literal
  | .text s => s

def kind : Cell → String
  | .integer _ => "Integer"
  | .real _ => "Real"
  | .text _ => "Text"

def integer? : Cell → Option Int
  | .integer n => some n
  | _ => none

end Cell
end Precedence

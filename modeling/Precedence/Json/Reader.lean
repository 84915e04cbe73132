import Precedence.Json.Quoted
import Precedence.Text.Decimal
/-!
The leaves of reading JSON: blanks, words, numerals and strings, each from the front of the
characters that remain. `skip?` steps over a whole value without building it.
-/
namespace Precedence.Json

open Text (isDigit value)

/-- Characters that may stand between the parts of a JSON text. -/
def isGap (c : Char) : Bool := c = ' ' || c = '\n' || c = '\t' || c = '\r'

def dropGap (cs : List Char) : List Char := cs.dropWhile isGap

def word? : List Char → List Char → Option (List Char)
  | [], cs => some cs
  | w :: ws, c :: cs => if w = c then word? ws cs else none
  | _ :: _, [] => none

/-- The parts of a number: its digits before the point, and whether a point or an exponent follows.
A numeral of more than one digit does not begin with zero. -/
def wholePart? (cs : List Char) : Option (List Char × List Char) :=
  match cs.span isDigit with
  | ([], _) => none
  | ('0' :: _ :: _, _) => none
  | (ds, rest) => some (ds, rest)

def someDigits? (cs : List Char) : Option (List Char × List Char) :=
  match cs.span isDigit with
  | ([], _) => none
  | (ds, rest) => some (ds, rest)

def fractionPart? : List Char → Option (List Char × List Char)
  | '.' :: cs => (someDigits? cs).map fun (ds, rest) => ('.' :: ds, rest)
  | cs => some ([], cs)

def exponentPart? : List Char → Option (List Char × List Char)
  | e :: cs =>
    if e = 'e' ∨ e = 'E' then
      match cs with
      | s :: ds =>
        if s = '+' ∨ s = '-' then
          (someDigits? ds).map fun (ds, rest) => (e :: s :: ds, rest)
        else (someDigits? cs).map fun (ds, rest) => (e :: ds, rest)
      | [] => none
    else some ([], e :: cs)
  | [] => some ([], [])

def number? (cs : List Char) : Option ((List Char × List Char) × List Char) := do
  let (sign, cs) := match cs with
    | '-' :: cs => (['-'], cs)
    | cs => ([], cs)
  let (whole, cs) ← wholePart? cs
  let (fraction, cs) ← fractionPart? cs
  let (exponent, cs) ← exponentPart? cs
  some ((sign ++ whole, fraction ++ exponent), cs)

/-- A numeral without sign, point or exponent, below a limit. -/
def natural? (limit : Nat) (cs : List Char) : Option (Nat × List Char) := do
  let (whole, cs) ← wholePart? cs
  match cs with
  | '.' :: _ | 'e' :: _ | 'E' :: _ => none
  | _ => if value whole < limit then some (value whole, cs) else none

/-- Steps over a string from after its opening mark. Escapes need not form characters. -/
def skipBody? : List Char → Option (List Char)
  | [] => none
  | '"' :: cs => some cs
  | '\\' :: 'u' :: a :: b :: c :: d :: cs =>
    if (hexUnit? a b c d).isSome then skipBody? cs else none
  | '\\' :: c :: cs => if (shortEscape? c).isSome then skipBody? cs else none
  | c :: cs => if c = '\\' ∨ c.toNat < 32 then none else skipBody? cs

mutual
/-- Steps over one value; the first argument bounds the depth of the recursion. -/
def skipValue? : Nat → List Char → Option (List Char)
  | 0, _ => none
  | fuel + 1, cs =>
    match dropGap cs with
    | '"' :: cs => skipBody? cs
    | 'n' :: cs => word? ['u', 'l', 'l'] cs
    | 't' :: cs => word? ['r', 'u', 'e'] cs
    | 'f' :: cs => word? ['a', 'l', 's', 'e'] cs
    | '[' :: cs =>
      match dropGap cs with
      | ']' :: cs => some cs
      | cs => skipItems? fuel cs
    | '\x7b' :: cs =>
      match dropGap cs with
      | '\x7d' :: cs => some cs
      | cs => skipFields? fuel cs
    | cs => (number? cs).map (·.2)

def skipItems? : Nat → List Char → Option (List Char)
  | 0, _ => none
  | fuel + 1, cs => do
    match dropGap (← skipValue? fuel cs) with
    | ',' :: cs => skipItems? fuel cs
    | ']' :: cs => some cs
    | _ => none

def skipFields? : Nat → List Char → Option (List Char)
  | 0, _ => none
  | fuel + 1, cs =>
    match dropGap cs with
    | '"' :: cs => do
      match dropGap (← skipBody? cs) with
      | ':' :: cs =>
        match dropGap (← skipValue? fuel cs) with
        | ',' :: cs => skipFields? fuel cs
        | '\x7d' :: cs => some cs
        | _ => none
      | _ => none
    | _ => none
end

/-- Steps over one value. Each step of the recursion takes a character, so their number bounds
it. -/
def skip? (cs : List Char) : Option (List Char) := skipValue? (2 * cs.length + 2) cs

end Precedence.Json

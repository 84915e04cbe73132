import Precedence.Document
import Precedence.Json.Quoted
import Precedence.Time.Date
import Precedence.Word
/-! The scalars of TOML: strings in four forms, numbers, and dates and times, each from the front of
the characters that remain. -/
namespace Precedence.Toml

open Text (isDigit digitValue)

def isSpace (c : Char) : Bool := c = ' ' || c = '\t'

def dropSpace (cs : List Char) : List Char := cs.dropWhile isSpace

def newline? : List Char → Option (List Char)
  | '\n' :: cs => some cs
  | '\r' :: '\n' :: cs => some cs
  | _ => none

/-- Characters that stand for themselves: the tab, and all that are neither controls nor deleted. -/
def isPlain (c : Char) : Bool := c = '\t' || (32 ≤ c.toNat && c.toNat ≠ 127)

def dropComment : List Char → List Char
  | '#' :: cs => cs.dropWhile isPlain
  | cs => cs

/-! Strings -/

/-- The character with a number, unless the number belongs to a surrogate or to no character. -/
def scalar? (digits : List Char) : Option Char := do
  let n ← digits.foldlM (fun n c => (Json.hexValue? c).map (16 * n + ·)) 0
  if n.isValidChar then some (Char.ofNat n) else none

def escape? : Char → Option Char
  | 'b' => some '\x08'
  | 't' => some '\t'
  | 'n' => some '\n'
  | 'f' => some '\x0c'
  | 'r' => some '\r'
  | '"' => some '"'
  | '\\' => some '\\'
  | _ => none

def basic? : List Char → Option (List Char × List Char)
  | [] => none
  | '"' :: cs => some ([], cs)
  | '\\' :: 'u' :: a :: b :: c :: d :: cs => do
    Json.push (← scalar? [a, b, c, d]) (basic? cs)
  | '\\' :: 'U' :: a :: b :: c :: d :: e :: f :: g :: h :: cs => do
    Json.push (← scalar? [a, b, c, d, e, f, g, h]) (basic? cs)
  | '\\' :: c :: cs => do Json.push (← escape? c) (basic? cs)
  | c :: cs => if c = '\\' ∨ !isPlain c then none else Json.push c (basic? cs)

def literal? : List Char → Option (List Char × List Char)
  | [] => none
  | c :: cs =>
    if c = '\'' then some ([], cs) else if isPlain c then Json.push c (literal? cs) else none

/-- A string over several lines, from after its opening marks. Up to two marks may stand before the
three that close it. In one with escapes a backslash at the end of a line folds what comes next:
blanks and line ends are dropped up to the next character of another kind. -/
def several? (mark : Char) (escapes : Bool) : Bool → List Char → Option (List Char × List Char)
  | _, [] => none
  | folded, '\n' :: cs => breakLine folded (several? mark escapes folded cs)
  | folded, '\r' :: '\n' :: cs => breakLine folded (several? mark escapes folded cs)
  | folded, c :: cs =>
    if c = mark then
      let marks := ((c :: cs).take 5).takeWhile (· = mark)
      if marks.length < 3 then Json.push c (several? mark escapes false cs)
      else some (marks.drop 3, (c :: cs).drop marks.length)
    else if c = '\\' ∧ escapes then
      if (newline? (dropSpace cs)).isSome then several? mark escapes true cs
      else match cs with
        | 'u' :: a :: b :: c :: d :: cs => do
          Json.push (← scalar? [a, b, c, d]) (several? mark escapes false cs)
        | 'U' :: a :: b :: c :: d :: e :: f :: g :: h :: cs => do
          Json.push (← scalar? [a, b, c, d, e, f, g, h]) (several? mark escapes false cs)
        | c :: cs => do Json.push (← escape? c) (several? mark escapes false cs)
        | [] => none
    else if folded ∧ isSpace c then several? mark escapes true cs
    else if isPlain c then Json.push c (several? mark escapes false cs)
    else none
where
  /-- A line end in front of what was read after it, unless it is folded. -/
  breakLine (folded : Bool) (read : Option (List Char × List Char)) :
      Option (List Char × List Char) :=
    if folded then read else Json.push '\n' read

def dropNewline (cs : List Char) : List Char := (newline? cs).getD cs

def lineString? : List Char → Option (String × List Char)
  | '"' :: cs => (basic? cs).map fun (s, cs) => (String.ofList s, cs)
  | '\'' :: cs => (literal? cs).map fun (s, cs) => (String.ofList s, cs)
  | _ => none

def string? : List Char → Option (String × List Char)
  | '"' :: '"' :: '"' :: cs =>
    (several? '"' true false (dropNewline cs)).map fun (s, cs) => (String.ofList s, cs)
  | '\'' :: '\'' :: '\'' :: cs =>
    (several? '\'' false false (dropNewline cs)).map fun (s, cs) => (String.ofList s, cs)
  | cs => lineString? cs

/-! Numbers -/

/-- More digits, each of which may have an underscore in front. -/
def moreDigits (isDigit : Char → Bool) : List Char → List Char × List Char
  | '_' :: c :: cs =>
    if isDigit c then ((moreDigits isDigit cs).map (c :: ·) id) else ([], '_' :: c :: cs)
  | c :: cs => if isDigit c then ((moreDigits isDigit cs).map (c :: ·) id) else ([], c :: cs)
  | [] => ([], [])

def digits? (isDigit : Char → Bool) : List Char → Option (List Char × List Char)
  | c :: cs => if isDigit c then some ((moreDigits isDigit cs).map (c :: ·) id) else none
  | [] => none

def sign : List Char → Bool × List Char
  | '+' :: cs => (false, cs)
  | '-' :: cs => (true, cs)
  | cs => (false, cs)

def whole? : List Char → Option (List Char × List Char)
  | '0' :: cs => some (['0'], cs)
  | cs => digits? isDigit cs

def number (base : Nat) (ds : List Char) : Nat :=
  ds.foldl (fun n c => base * n + (Json.hexValue? c).getD 0) 0

def word? (n : Int) : Option Document :=
  if Word.IsSigned n then some (.integer n) else none

def integer? : List Char → Option (Document × List Char)
  | '0' :: 'x' :: cs => do
    let (ds, cs) ← digits? (fun c => (Json.hexValue? c).isSome) cs
    (word? (number 16 ds)).map fun d => (d, cs)
  | '0' :: 'o' :: cs => do
    let (ds, cs) ← digits? (fun c => '0' ≤ c && c ≤ '7') cs
    (word? (number 8 ds)).map fun d => (d, cs)
  | '0' :: 'b' :: cs => do
    let (ds, cs) ← digits? (fun c => c = '0' || c = '1') cs
    (word? (number 2 ds)).map fun d => (d, cs)
  | cs => do
    let (negative, cs) := sign cs
    let (ds, cs) ← whole? cs
    let n : Int := number 10 ds
    (word? (if negative then -n else n)).map fun d => (d, cs)

/-- Whether a decimal number is too large for a double: it would be rounded to infinity. The
exponent counts from behind the digits. -/
def overflows (ds : List Char) (exponent : Int) : Bool :=
  let ds := ds.dropWhile (· = '0')
  let magnitude : Int := ds.length + exponent
  if ds = [] ∨ magnitude < 309 then false
  else if 309 < magnitude then true
  else
    let limit := 1 <<< 1024 - 1 <<< 970
    if 0 ≤ exponent then limit ≤ number 10 ds * Text.tenTo exponent.toNat
    else limit * Text.tenTo (-exponent).toNat ≤ number 10 ds

def fraction? : List Char → Option (List Char × List Char)
  | '.' :: cs => digits? isDigit cs
  | _ => none

def exponent? : List Char → Option (Int × List Char)
  | e :: cs => do
    if e ≠ 'e' ∧ e ≠ 'E' then none
    let (negative, cs) := sign cs
    let (ds, cs) ← digits? isDigit cs
    let n : Int := number 10 ds
    some (if negative then -n else n, cs)
  | [] => none

/-- A number with a point, an exponent or both, or one of the names of numbers that are not
finite. -/
def float? (cs : List Char) : Option (Document × List Char) := do
  let (negative, after) := sign cs
  match after with
  | 'i' :: 'n' :: 'f' :: cs => some (.decimal "inf", cs)
  | 'n' :: 'a' :: 'n' :: cs => some (.decimal "nan", cs)
  | _ =>
    let (ds, cs) ← whole? after
    let (fs, cs) ← match fraction? cs with
      | some part => some part
      | none => if (exponent? cs).isSome then some ([], cs) else none
    let (e, cs) ← match exponent? cs with
      | some part => some part
      | none => if cs.head? = some 'e' ∨ cs.head? = some 'E' then none else some (0, cs)
    if !negative && overflows (ds ++ fs) (e - fs.length) then none
    else some (.decimal (String.ofList (ds ++ '.' :: fs)), cs)

/-! Dates and times -/

def ranged? (places low high : Nat) (cs : List Char) : Option (Nat × List Char) :=
  let ds := cs.take places
  if ds.length = places ∧ ds.all isDigit then
    let n := number 10 ds
    if low ≤ n ∧ n ≤ high then some (n, cs.drop places) else none
  else none

def mark? (c : Char) : List Char → Option (List Char)
  | d :: cs => if d = c then some cs else none
  | [] => none

def date? (cs : List Char) : Option (List Char) := do
  let (year, cs) ← ranged? 4 0 9999 cs
  let (month, cs) ← ranged? 2 1 12 (← mark? '-' cs)
  let (day, cs) ← ranged? 2 1 31 (← mark? '-' cs)
  if day ≤ Date.monthLength year month then some cs else none

def time? (cs : List Char) : Option (List Char) := do
  let (_, cs) ← ranged? 2 0 23 cs
  let (_, cs) ← ranged? 2 0 59 (← mark? ':' cs)
  let (_, cs) ← ranged? 2 0 60 (← mark? ':' cs)
  match cs with
  | '.' :: d :: cs => if isDigit d then some (cs.dropWhile isDigit) else none
  | '.' :: [] => none
  | cs => some cs

/-- An offset from universal time; none is an offset too. -/
def offset? : List Char → Option (List Char)
  | c :: cs => do
    if c = 'Z' ∨ c = 'z' then some cs
    else if c = '+' ∨ c = '-' then
      let (_, cs) ← ranged? 2 0 23 cs
      let (_, cs) ← ranged? 2 0 59 (← mark? ':' cs)
      some cs
    else some (c :: cs)
  | [] => some []

def timeAfter? : List Char → Option (List Char)
  | c :: cs => if c = 'T' ∨ c = 't' ∨ c = ' ' then (time? cs).bind offset? else none
  | [] => none

def moment? (cs : List Char) : Option (Document × List Char) :=
  let rest := match date? cs with
    | some rest => some ((timeAfter? rest).getD rest)
    | none => time? cs
  rest.map fun rest => (.moment (String.ofList (cs.take (cs.length - rest.length))), rest)

def numeric? (cs : List Char) : Option (Document × List Char) :=
  (moment? cs).or ((float? cs).or (integer? cs))

end Precedence.Toml

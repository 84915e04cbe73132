import Precedence.Document
import Precedence.Json.Reader
/-! Reading a JSON text as a document. -/
namespace Precedence.Json

open Text (value)

/-- The value of a number. Minus zero is no integer. -/
def numberValue (whole after : List Char) : Document :=
  if after = [] ∧ whole ≠ ['-', '0'] then
    match whole with
    | '-' :: ds => .integer (-(value ds : Int))
    | ds => .integer (value ds)
  else .decimal (String.ofList (whole ++ after))

mutual
/-- Reads one value; the first argument bounds the depth of the recursion. -/
def readValue? : Nat → List Char → Option (Document × List Char)
  | 0, _ => none
  | fuel + 1, cs =>
    match dropGap cs with
    | '"' :: cs => (readBody cs).map fun (s, cs) => (.text (String.ofList s), cs)
    | 'n' :: cs => (word? ['u', 'l', 'l'] cs).map fun cs => (.null, cs)
    | 't' :: cs => (word? ['r', 'u', 'e'] cs).map fun cs => (.boolean true, cs)
    | 'f' :: cs => (word? ['a', 'l', 's', 'e'] cs).map fun cs => (.boolean false, cs)
    | '[' :: cs =>
      match dropGap cs with
      | ']' :: cs => some (.list [], cs)
      | cs => (readItems? fuel cs).map fun (items, cs) => (.list items, cs)
    | '\x7b' :: cs =>
      match dropGap cs with
      | '\x7d' :: cs => some (.table [], cs)
      | cs => (readFields? fuel cs).map fun (fields, cs) => (.table fields, cs)
    | cs => (number? cs).map fun ((whole, after), cs) => (numberValue whole after, cs)

def readItems? : Nat → List Char → Option (List Document × List Char)
  | 0, _ => none
  | fuel + 1, cs => do
    let (d, cs) ← readValue? fuel cs
    match dropGap cs with
    | ',' :: cs => (readItems? fuel cs).map fun (items, cs) => (d :: items, cs)
    | ']' :: cs => some ([d], cs)
    | _ => none

def readFields? : Nat → List Char → Option (List (String × Document) × List Char)
  | 0, _ => none
  | fuel + 1, cs => do
    let (key, cs) ← readQuoted? (dropGap cs)
    match dropGap cs with
    | ':' :: cs =>
      let (d, cs) ← readValue? fuel cs
      match dropGap cs with
      | ',' :: cs => (readFields? fuel cs).map fun (fields, cs) => ((key, d) :: fields, cs)
      | '\x7d' :: cs => some ([(key, d)], cs)
      | _ => none
    | _ => none
end

def parse? (s : String) : Option Document :=
  match readValue? (2 * s.length + 2) s.toList with
  | some (d, rest) => if dropGap rest = [] then some d else none
  | none => none

end Precedence.Json

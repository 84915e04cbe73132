import Precedence.Json.Reader
import Precedence.Toml.Scalar
import Precedence.Toml.Table
/-! Reading a TOML text as a document. Lists and braces nest less than eighty deep, and a dotted key
has fewer than eighty parts. -/
namespace Precedence.Toml

/-- How deep lists and braces may nest, and how many parts a key may have. -/
def depthLimit : Nat := 79

def isBareKeyChar (c : Char) : Bool := c.isAlphanum || c = '_' || c = '-'

def keyPart? (cs : List Char) : Option (String × List Char) :=
  match cs.head? with
  | some '"' | some '\'' => lineString? cs
  | _ =>
    match cs.takeWhile isBareKeyChar with
    | [] => none
    | key => some (String.ofList key, cs.dropWhile isBareKeyChar)

def key? : Nat → List Char → Option (List String × List Char)
  | 0, _ => none
  | fuel + 1, cs => do
    let (part, cs) ← keyPart? (dropSpace cs)
    match dropSpace cs with
    | '.' :: cs =>
      let (parts, cs) ← key? fuel cs
      some (part :: parts, cs)
    | cs => some ([part], cs)

/-- Drops blanks, comments and line ends; the first argument tells whether a comment has begun. -/
def dropLines : Bool → List Char → List Char
  | _, [] => []
  | _, '\n' :: cs => dropLines false cs
  | _, '\r' :: '\n' :: cs => dropLines false cs
  | true, c :: cs => if isPlain c then dropLines true cs else c :: cs
  | false, c :: cs =>
    if c = '#' then dropLines true cs
    else if isSpace c then dropLines false cs
    else c :: cs

def dropBetween (cs : List Char) : List Char := dropLines false cs

mutual
/-- Reads a value. The first argument bounds the number of steps, the second the nesting. -/
def value? : Nat → Nat → List Char → Option (Document × List Char)
  | 0, _, _ => none
  | _, _, [] => none
  | fuel + 1, depth, c :: cs =>
    if c = '"' ∨ c = '\'' then (string? (c :: cs)).map fun (s, cs) => (.text s, cs)
    else if c = '[' then
      match depth with
      | 0 => none
      | depth + 1 => (items? fuel depth (dropBetween cs)).map fun (ds, cs) => (.list ds, cs)
    else if c = '\x7b' then
      match depth with
      | 0 => none
      | depth + 1 => do
        let (fields, cs) ← match dropSpace cs with
          | '\x7d' :: cs => some ([], cs)
          | cs => pairs? fuel depth [] cs
        some (.table (fieldDocuments fields), cs)
    else if c = 't' then (Json.word? ['r', 'u', 'e'] cs).map fun cs => (.boolean true, cs)
    else if c = 'f' then (Json.word? ['a', 'l', 's', 'e'] cs).map fun cs => (.boolean false, cs)
    else numeric? (c :: cs)

def items? : Nat → Nat → List Char → Option (List Document × List Char)
  | 0, _, _ => none
  | fuel + 1, depth, cs =>
    match cs with
    | ']' :: cs => some ([], cs)
    | cs => do
      let (d, cs) ← value? fuel depth cs
      match dropBetween cs with
      | ',' :: cs => (items? fuel depth (dropBetween cs)).map fun (ds, cs) => (d :: ds, cs)
      | ']' :: cs => some ([d], cs)
      | _ => none

def pairs? : Nat → Nat → Fields → List Char → Option (Fields × List Char)
  | 0, _, _, _ => none
  | fuel + 1, depth, fields, cs => do
    let (path, cs) ← key? depthLimit cs
    let cs ← mark? '=' cs
    let (d, cs) ← value? fuel depth (dropSpace cs)
    let fields ← fields.add path.dropLast (path.getLast?.getD "") d
    match dropSpace cs with
    | ',' :: cs => pairs? fuel depth fields cs
    | '\x7d' :: cs => some (fields, cs)
    | _ => none
end

def lineEnd? (cs : List Char) : Option (List Char) :=
  match dropComment (dropSpace cs) with
  | [] => some []
  | cs => newline? cs

def line? (fuel : Nat) (p : Progress) (cs : List Char) : Option (Progress × List Char) :=
  match cs with
  | '[' :: '[' :: cs => do
    let (path, cs) ← key? depthLimit cs
    let cs ← Json.word? [']', ']'] cs
    some (← p.openRepeated path, cs)
  | '[' :: cs => do
    let (path, cs) ← key? depthLimit cs
    let cs ← mark? ']' cs
    some (← p.openTable path, cs)
  | cs => do
    let (path, cs) ← key? depthLimit cs
    let cs ← mark? '=' cs
    let (d, cs) ← value? fuel depthLimit (dropSpace cs)
    some (← p.add path.dropLast (path.getLast?.getD "") d, cs)

def lines? : Nat → Progress → List Char → Option Progress
  | 0, _, _ => none
  | fuel + 1, p, cs =>
    match dropSpace cs with
    | [] => some p
    | '#' :: cs => (lineEnd? ('#' :: cs)).bind (lines? fuel p)
    | '\n' :: cs => lines? fuel p cs
    | '\r' :: '\n' :: cs => lines? fuel p cs
    | cs => do
      let (p, cs) ← line? fuel p cs
      lines? fuel p (← lineEnd? cs)

/-- The document that a text stands for. A byte order mark may stand in front. A line takes at least
one character and a step inside a value at least half of one, so their number bounds the steps. -/
def parse? (s : String) : Option Document :=
  let cs := match s.toList with
    | '\uFEFF' :: cs => cs
    | cs => cs
  (lines? (2 * cs.length + 2) {} cs).bind Progress.document?

end Precedence.Toml

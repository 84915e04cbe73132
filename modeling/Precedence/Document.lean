import Precedence.Text.Decimal
/-! Documents: the tree of values that a JSON or a TOML text stands for. -/
namespace Precedence

inductive Document where
  | null
  | boolean (b : Bool)
  | integer (n : Int)
  /-- A number with a point or an exponent, as written. -/
  | decimal (literal : String)
  /-- A date or a time, as written. -/
  | moment (literal : String)
  | text (s : String)
  | list (items : List Document)
  | table (fields : List (String × Document))
  deriving Repr

namespace Document

def natural (n : Nat) : Document := .integer n

def insertField (f : String × Document) : List (String × Document) → List (String × Document)
  | [] => [f]
  | g :: rest => if f.1 < g.1 then f :: g :: rest else g :: insertField f rest

mutual
/-- The same value with the fields of every table sorted by key. -/
def sortKeys : Document → Document
  | .list items => .list (sortItems items)
  | .table fields => .table (sortFields fields)
  | d => d

def sortItems : List Document → List Document
  | [] => []
  | d :: rest => sortKeys d :: sortItems rest

def sortFields : List (String × Document) → List (String × Document)
  | [] => []
  | (k, d) :: rest => insertField (k, sortKeys d) (sortFields rest)
end

def field? (key : String) : Document → Option Document
  | .table fields => fields.lookup key
  | _ => none

end Document
end Precedence

import Precedence.Document
/-!
The tables of a TOML text as they grow: by key and value, by dotted keys, and by headers. A table
may be defined once; tables that only lie on the way to others are implicit and may still be
defined.
-/
namespace Precedence.Toml

/-- A part of a table that is still growing. -/
inductive Node where
  | value (d : Document)
  /-- A table; `implicit` if no header and no braces define it, `dotted` if dotted keys do. -/
  | table (implicit dotted : Bool) (fields : List (String × Node))
  | tables (items : List (List (String × Node)))

abbrev Fields := List (String × Node)

namespace Fields

def put (fields : Fields) (key : String) (n : Node) : Fields :=
  if fields.any (·.1 == key) then fields.map fun f => if f.1 == key then (key, n) else f
  else fields ++ [(key, n)]

/-- Changes the table at the end of a path, with the implicit tables on the way. The change is told
whether dotted keys define that table. A path through a value leads nowhere, and a dotted path may
not pass a table that is defined otherwise. -/
def change {α : Type} (dotted : Bool) (f : Bool → Fields → Option (Fields × α)) :
    List String → Bool → Fields → Option (Fields × α)
  | [], here, fields => f here fields
  | key :: path, _, fields =>
    match fields.lookup key with
    | none => do
      let (sub, a) ← change dotted f path dotted []
      some (put fields key (.table true dotted sub), a)
    | some (.value _) => none
    | some (.table implicit here sub) =>
      if dotted && !implicit then none
      else do
        let (sub, a) ← change dotted f path here sub
        some (put fields key (.table implicit here sub), a)
    | some (.tables items) =>
      match items.getLast? with
      | none => none
      | some sub => do
        let (sub, a) ← change dotted f path false sub
        some (put fields key (.tables (items.dropLast ++ [sub])), a)

def add (fields : Fields) (path : List String) (key : String) (d : Document) : Option Fields :=
  let insert (here : Bool) (fields : Fields) : Option (Fields × Unit) :=
    if here == path.isEmpty || fields.any (·.1 == key) then none
    else some (fields ++ [(key, .value d)], ())
  (change true insert path false fields).map (·.1)

end Fields

mutual
def Node.document : Node → Document
  | .value d => d
  | .table _ _ fields => .table (fieldDocuments fields)
  | .tables items => .list (itemDocuments items)

def fieldDocuments : List (String × Node) → List (String × Document)
  | [] => []
  | (k, n) :: rest => (k, n.document) :: fieldDocuments rest

def itemDocuments : List (List (String × Node)) → List Document
  | [] => []
  | fields :: rest => .table (fieldDocuments fields) :: itemDocuments rest
end

/-- A text read up to some line: the finished tables, and the one that the last header opened. -/
structure Progress where
  root : Fields := []
  current : Fields := []
  path : List String := []
  repeated : Bool := false

namespace Progress

def close (p : Progress) : Option Progress :=
  match p.path.getLast? with
  | none => some { root := p.current }
  | some key =>
    let insert (_ : Bool) (fields : Fields) : Option (Fields × Unit) :=
      match fields.lookup key, p.repeated with
      | none, true => some (fields.put key (.tables [p.current]), ())
      | some (.tables items), true => some (fields.put key (.tables (items ++ [p.current])), ())
      | none, false => some (fields.put key (.table false false p.current), ())
      | some (.table true _ _), false => some (fields.put key (.table false false p.current), ())
      | _, _ => none
    (Fields.change false insert p.path.dropLast false p.root).map fun (root, _) => { root }

def openTable (p : Progress) (path : List String) : Option Progress := do
  let p ← p.close
  let key ← path.getLast?
  let take (_ : Bool) (fields : Fields) : Option (Fields × Fields) :=
    match fields.lookup key with
    | none => some (fields, [])
    | some (.table true false sub) => some (fields.filter (·.1 != key), sub)
    | some _ => none
  let (root, current) ← Fields.change false take path.dropLast false p.root
  some { root, current, path }

def openRepeated (p : Progress) (path : List String) : Option Progress := do
  let p ← p.close
  let key ← path.getLast?
  let reserve (_ : Bool) (fields : Fields) : Option (Fields × Unit) :=
    match fields.lookup key with
    | none => some (fields.put key (.tables []), ())
    | some (.tables _) => some (fields, ())
    | some _ => none
  let (root, _) ← Fields.change false reserve path.dropLast false p.root
  some { root, path, repeated := true }

def add (p : Progress) (path : List String) (key : String) (d : Document) : Option Progress :=
  (p.current.add path key d).map fun current => { p with current }

def document? (p : Progress) : Option Document :=
  p.close.map fun p => .table (fieldDocuments p.root)

end Progress
end Precedence.Toml

import Precedence.Replica.Basic
/-!
Edits of the rows of a replica by hand, cell by cell, under the rules of its tables: identifiers and
places are unique, most columns may not be empty, and each column takes a value in its own kind.

No command of a project edits rows in this way, and nothing that a project does depends on it. The
edits are kept because they are how a replica comes to hold rows that were never filled in from
tasks: each way to refuse a row (`BadCell`, `RowFault`) can be brought about with one of them, and
most of these ways with nothing else.
-/
namespace Precedence.Replica

inductive Column where
  | place
  | id
  | description
  | status
  | priority
  | estimatedDuration
  | parent
  | depth
  | origin
  | createdAt
  | updatedAt
  | completedAt
  deriving DecidableEq, Repr

namespace Column

def all : List Column :=
  [place, id, description, status, priority, estimatedDuration, parent, depth, origin, createdAt,
    updatedAt, completedAt]

def placeNames : List String := ["rowid", "oid", "_rowid_"]

def name : Column → String
  | place => "seq"
  | id => "id"
  | description => "description"
  | status => "status"
  | priority => "priority"
  | estimatedDuration => "estimated_duration"
  | parent => "parent"
  | depth => "depth"
  | origin => "origin"
  | createdAt => "created_at"
  | updatedAt => "updated_at"
  | completedAt => "completed_at"

def ofName? (s : String) : Option Column :=
  if placeNames.contains s.toLower then some place
  else all.find? fun c => c.name == s.toLower

/-- A row with another value in a column, nothing meaning an empty cell. -/
def set? (row : TaskRow Cell) (value : Option Cell) : Column → Option (TaskRow Cell)
  | place => do
    let n ← (← value).asInteger.integer?
    return { row with place := n }
  | id => do return { row with id := (← value).asText }
  | description => do return { row with description := (← value).asText }
  | status => do return { row with status := (← value).asText }
  | priority => do return { row with priority := (← value).asInteger }
  | estimatedDuration => some { row with estimatedDuration := value.map Cell.asInteger }
  | parent => some { row with parent := value.map Cell.asText }
  | depth => do return { row with depth := (← value).asInteger }
  | origin => do return { row with origin := (← value).asText }
  | createdAt => do return { row with createdAt := (← value).asText }
  | updatedAt => do return { row with updatedAt := (← value).asText }
  | completedAt => some { row with completedAt := value.map Cell.asText }

end Column

/-- Sets a cell of the task with an identifier; the number is that of rows changed. -/
def setCell? (r : Replica) (id : String) (column : Column) (value : Option Cell) :
    Option (Replica × Nat) :=
  match r.tasks.find? (·.id = id) with
  | none => some (r, 0)
  | some row => do
    let changed ← column.set? row value
    let others := r.tasks.filter (·.id ≠ id)
    if others.any fun o => o.id = changed.id ∨ o.place = changed.place then none
    else
      let rows := others.filter (·.place < changed.place) ++
        changed :: others.filter (changed.place < ·.place)
      some ({ r with tasks := rows }, 1)

def setPrerequisite? (r : Replica) (dependent prerequisite : String) (value : Option Cell) :
    Option (Replica × Nat) :=
  let here (e : EdgeRow) : Bool := e.dependent = dependent ∧ e.prerequisite = prerequisite
  if !r.edges.any here then some (r, 0)
  else do
    let text := (← value).asText
    if text ≠ prerequisite ∧
        r.edges.any fun e => e.dependent = dependent ∧ e.prerequisite = text then
      none
    else
      let rows := r.edges.map fun e => if here e then { e with prerequisite := text } else e
      some ({ r with edges := rows }, 1)

end Precedence.Replica

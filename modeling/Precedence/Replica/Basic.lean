import Precedence.Replica.Row
import Precedence.Snapshot
/-!
The replica of a list of tasks in tables, stamped with the revision that it was filled from. It can
be filled, emptied, counted and read back as tasks and edges.
-/
namespace Precedence

structure Replica where
  tasks : List (TaskRow Cell) := []
  /-- The rows of edges, in the order in which they were put in. -/
  edges : List EdgeRow := []
  revision : Option String := none
  deriving DecidableEq, Repr

namespace Replica

inductive Table where
  | tasks
  | edges
  /-- The table with the revision. -/
  | stamp
  deriving DecidableEq, Repr

def Table.name : Table → String
  | tasks => "tasks"
  | edges => "dependencies"
  | stamp => "cache_meta"

inductive FileFault where
  /-- The file holds something else. -/
  | foreign
  | unreadable
  | undeletable
  | unavailable
  /-- Changes have no index to be noted in. -/
  | readOnly
  /-- A log has no index to be read by. -/
  | unsettled
  deriving DecidableEq, Repr

def FileFault.message : FileFault → String
  | .foreign => "file is not a database"
  | .unreadable | .undeletable => "disk I/O error"
  | .unavailable => "unable to open database file"
  | .readOnly => "attempt to write a readonly database"
  | .unsettled => "locking protocol"

def FileFault.code : FileFault → Nat × String
  | .foreign => (26, "File opened that is not a database file")
  | .unreadable => (266, "Error reading from disk")
  | .undeletable => (2570, "I/O error within xDelete of a VFS object")
  | .unavailable => (14, "Unable to open the database file")
  | .readOnly => (8, "Attempt to write a readonly database")
  | .unsettled => (15, "Database lock protocol error")

inductive Fault where
  | unopened (path : String)
  | file (fault : FileFault)
  | noTable (t : Table)
  | cell (bad : BadCell)
  | id (fault : TaskId.Fault)
  | row (raw : String) (fault : RowFault)
  | status (raw : String)
  deriving DecidableEq, Repr

def Fault.message : Fault → String
  | .unopened path => "Failed to open cache database: " ++ path
  | .file fault => fault.message
  | .noTable t => "no such table: " ++ t.name
  | .cell bad => bad.message
  | .id fault => fault.message
  | .row raw fault => "Corrupt cache row for task " ++ raw ++ ": " ++ fault.message
  | .status raw => Status.unknown raw

def Fault.code? : Fault → Option (Nat × String)
  | .unopened _ => some FileFault.unavailable.code
  | .file fault => some fault.code
  | .noTable _ => some (1, "SQL error or missing database")
  | _ => none

def Fault.causes (f : Fault) : List String :=
  let code := f.code?.toList.map fun (n, name) =>
    "Error code " ++ Text.decimalText n ++ ": " ++ name
  match f with
  | .unopened path => (FileFault.unavailable.message ++ ": " ++ path) :: code
  | _ => code

/-- Puts a row of a task behind the others; it replaces a row with the same identifier. -/
def insertTask (rows : List (TaskRow Cell)) (row : TaskRow Cell) : List (TaskRow Cell) :=
  rows.filter (·.id ≠ row.id) ++ [row]

/-- Puts a row of an edge behind the others, unless the edge has a row. -/
def insertEdge (rows : List EdgeRow) (row : EdgeRow) : List EdgeRow :=
  if rows.any fun e => e.dependent = row.dependent ∧ e.prerequisite = row.prerequisite then rows
  else rows ++ [row]

def taskRows (tasks : List Task) : List (TaskRow Cell) :=
  (tasks.zipIdx.map fun (t, place) => TaskRow.ofTask place t).foldl insertTask []

def edgeRows (tasks : List Task) : List EdgeRow :=
  (tasks.flatMap EdgeRow.ofTask).foldl insertEdge []

def ofTasks (tasks : List Task) (revision : String) : Replica where
  tasks := taskRows tasks
  edges := edgeRows tasks
  revision := some revision

def isStale (r : Replica) (current : String) : Bool := r.revision != some current

def edgeCount (r : Replica) : Nat := r.edges.length

def edgesOf (r : Replica) (row : TaskRow Cell) : List EdgeRow :=
  (r.edges.filter (·.dependent = row.id)).mergeSort fun a b => a.position ≤ b.position

def loadEdges (r : Replica) : Except Fault (List Edge) :=
  ((r.tasks.flatMap r.edgesOf).mapM EdgeRow.edge).mapError .id

def isOwn (row : TaskRow Int) (e : Edge) : Bool :=
  match TaskId.parse row.id with
  | .ok id => e.dependent == id
  | .error _ => false

/-- The tasks of rows. Each takes the edges of which it is the dependent, and a later row for the
same identifier finds none left. -/
def assemble : List (TaskRow Int) → List Edge → Except Fault (List Task)
  | [], _ => .ok []
  | row :: rows, edges => do
    let (own, others) := edges.partition (isOwn row)
    let t ← (row.task (own.map Edge.prerequisite)).mapError (.row row.id)
    let ts ← assemble rows others
    return t :: ts

def loadTasks (r : Replica) : Except Fault (List Task) := do
  let rows ← (r.tasks.mapM TaskRow.integers).mapError .cell
  assemble rows (← r.loadEdges)

def source (r : Replica) : Source Fault := ⟨r.loadTasks, r.loadEdges, .ok r.revision⟩

/-- Notes the size of a group of tasks; of two groups with one status the later counts. -/
def countGroup (counts : List (Status × Nat)) (raw : String × Nat) :
    Except Fault (List (Status × Nat)) :=
  match Status.parse? raw.1 with
  | some x => .ok (counts.filter (·.1 ≠ x) ++ [(x, raw.2)])
  | none => .error (.status raw.1)

/-- The number of tasks of each status, from groups of rows with one text for it, taken in the order
of these texts. -/
def counts (r : Replica) : Except Fault (List (Status × Nat)) :=
  let raws := r.tasks.map TaskRow.status
  let groups := raws.eraseDups.mergeSort.map fun raw => (raw, raws.count raw)
  groups.foldlM countGroup []

end Replica
end Precedence

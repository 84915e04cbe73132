import Precedence.Failure
import Precedence.Snapshot
/-!
The store of tasks: a file of records, one to a line. Of several records for one task the last one
counts, in the place of the first one. Blank lines count for nothing.
-/
namespace Precedence

structure Store where
  directory : Path
  deriving DecidableEq, Repr

namespace Store

def ofRoot (root : Path) : Store := ⟨root.join ".dagplan"⟩

def path (s : Store) : Path := s.directory.join "tasks.jsonl"

/-- Where a new file is written before it takes the place of the old one. -/
def draft (s : Store) : Path := s.directory.join "tasks.jsonl.tmp"

/-- What has been read of a file. -/
structure Reading where
  tasks : List Task := []
  positions : List (TaskId × Nat) := []

/-- Takes a record in: it goes to the position of its task, or to the end. -/
def Reading.take (r : Reading) (t : Task) : Reading :=
  match r.positions.lookup t.id with
  | some n => { r with tasks := r.tasks.set n t }
  | none => ⟨r.tasks ++ [t], (t.id, r.tasks.length) :: r.positions⟩

def decodeFrom (r : Reading) (n : Nat) : List Bytes → Except Failure Reading
  | [] => .ok r
  | line :: rest =>
    match Bytes.text? line with
    | none => .error (.disk (.readLine n) .notText)
    | some s =>
      if Text.isBlankLine s then decodeFrom r (n + 1) rest
      else match Task.ofRecord s with
        | .error fault => .error (.record n fault)
        | .ok t => decodeFrom (r.take t) (n + 1) rest

def decode (content : Bytes) : Except Failure (List Task) :=
  (decodeFrom {} 1 content.lines).map (·.tasks)

def line (t : Task) : Bytes := Bytes.ofText (t.record ++ "\n")

def encode (tasks : List Task) : Bytes := tasks.flatMap line

/-- The tasks in the store; there are none before there is a file. -/
def load (s : Store) (d : Disk) : Except Failure (List Task) :=
  if d.exists? s.path then
    match d.read s.path with
    | .ok content => decode content
    | .error fault => .error (.disk (.readLine 1) fault)
  else .ok []

/-- Length and digest of a file. -/
def revisionOf (content : Bytes) : String :=
  Text.decimalText content.length ++ ":" ++ hex (digest content)

def revision (s : Store) (d : Disk) : Except Failure String :=
  if d.exists? s.path then
    match d.read s.path with
    | .ok content => .ok (revisionOf content)
    | .error fault => .error (.disk (.readStore s.path) fault)
  else .ok "absent"

def source (s : Store) (d : Disk) : Source Failure where
  tasks := s.load d
  edges := (s.load d).map fun tasks => tasks.flatMap Task.edges
  revision := (s.revision d).map some

/-- All tasks, each in its last version and its first place. -/
def readAll (s : Store) : Action (List Task) := .ask s.load

def get? (s : Store) (id : TaskId) : Action (Option Task) := do
  return (← s.readAll).find? (·.id = id)

def writeAll (s : Store) (tasks : List Task) : Action Unit := do
  Action.makeDirectories (.makeDirectory s.directory) s.directory
  Action.change (.createDraft s.draft) (·.write s.draft (encode tasks))
  Action.change (.replaceStore s.draft s.path) (·.rename s.draft s.path)

def append (s : Store) (t : Task) : Action Unit := do
  Action.makeDirectories (.makeDirectory s.directory) s.directory
  Action.change (.openStore s.path) (·.append s.path (line t))

/-- Puts a task in the place of the one with its identifier, or at the end. -/
def put (t : Task) : List Task → List Task
  | [] => [t]
  | u :: us => if u.id = t.id then t :: us else u :: put t us

def updateMany (s : Store) (tasks : List Task) : Action Unit := do
  let stored ← s.readAll
  s.writeAll (tasks.foldl (fun ts t => put t ts) stored)

def update (s : Store) (t : Task) : Action Unit := s.updateMany [t]

def remove (s : Store) (id : TaskId) : Action Bool := do
  let stored ← s.readAll
  let kept := stored.filter (·.id ≠ id)
  if kept.length = stored.length then return false
  s.writeAll kept
  return true

/-- Writes each task once, in its last version, and counts them. -/
def compact (s : Store) : Action Nat := do
  let stored ← s.readAll
  s.writeAll stored
  return stored.length

end Store
end Precedence

import Precedence.Replica.Sidecar
import Precedence.Store
/-!
The replica of a project's store on disk: opened, filled from the store, and emptied. It is fresh as
long as its stamp is the revision of the store.
-/
namespace Precedence

structure ReplicaFile where
  root : Path
  deriving DecidableEq, Repr

namespace ReplicaFile

def directory (f : ReplicaFile) : Path := (f.root.join ".dagplan").join ".cache"

def path (f : ReplicaFile) : Path := f.directory.join "dagplan.db"

def store (f : ReplicaFile) : Store := .ofRoot f.root

/-- The greatest number of bytes in the path of a place where a replica can be opened. -/
def pathLimit : Nat := 504

def unopened (f : ReplicaFile) : Failure := .replica (.unopened f.path.text)

/-- What is found in the file. One that is not there counts as empty, and so does a single byte. -/
def content (f : ReplicaFile) (d : Disk) : Except Failure Replica.Content :=
  if pathLimit < (Path.ofLocation f.path.location).text.utf8ByteSize then .error f.unopened
  else match d.look f.path with
  | .ok none => .ok .empty
  | .ok (some (.replica image)) => .ok (.image image)
  | .ok (some (.file (_ :: _ :: _))) => .ok .foreign
  | .ok (some (.file _)) => .ok .empty
  | .ok (some .directory) | .error _ => .error f.unopened

def image (f : ReplicaFile) (d : Disk) : Except Failure Replica.Image := do
  (← f.content d).toImage.mapError .replica

def load (f : ReplicaFile) (t : Replica.Table) (d : Disk) : Except Failure Replica := do
  ((← f.image d).reach t).mapError .replica

def read (f : ReplicaFile) (t : Replica.Table) : Action Replica := .ask (f.load t)

def write (f : ReplicaFile) (image : Replica.Image) : Action Unit := fun d =>
  match d.writeReplica f.path image with
  | .ok d => (.ok (), d)
  | .error _ => (.error f.unopened, d)

/-- What the file holds, for somebody new to use it. What is beside it is put in order first. -/
def connect (f : ReplicaFile) : Action Replica.Image := do
  let content ← Action.ask f.content
  if let some fault := Sidecar.obstacle? f.path content (← get) then
    throw (.replica (.file fault))
  modify (Sidecar.sweep f.path content)
  Action.ask fun _ => content.toImage.mapError .replica

def isReadOnly (f : ReplicaFile) (d : Disk) : Bool := Sidecar.index.isObstructed f.path d

def ensureWritable (f : ReplicaFile) : Action Unit := do
  if f.isReadOnly (← get) then throw (.replica (.file .readOnly))

/-- Without an index the log is not taken away in the end. -/
def leaveLog (f : ReplicaFile) : Action Unit := do
  if f.isReadOnly (← get) then modify (Sidecar.log.leave f.path)

/-- Opens the replica of a project, making it if need be; one in another layout is emptied. From
then on its changes go through a log. -/
def «open» (root : Path) : Action ReplicaFile := do
  let f : ReplicaFile := ⟨root⟩
  Action.makeDirectories (.makeReplica f.directory) f.directory
  let i := { ← f.connect with logs := true }
  f.write i
  f.leaveLog
  if i.version ≠ Replica.Image.layout then
    f.ensureWritable
    f.write i.opened
  return f

/-- The image of a replica for somebody who is about to edit its rows by hand. A project itself only
ever replaces all rows. -/
def amendable (f : ReplicaFile) : Action Replica.Image := do
  let i ← f.connect
  if i.logs then
    f.leaveLog
    f.ensureWritable
  return i

/-- Whether a path leads to a file that is beside the replica as long as somebody has it open. For
those who make other files in the same directory; a project makes none. -/
def occupies (f : ReplicaFile) (p : Path) : Bool :=
  [Sidecar.log, .index].any fun s => (s.path f.path).location = p.location

def currentRevision (f : ReplicaFile) : Action String := .ask f.store.revision

/-- Whether the replica may differ from the store. Without a stamp the store is not looked at. -/
def isStale (f : ReplicaFile) : Action Bool := do
  let r ← f.read .stamp
  if r.revision = none then return true
  return r.isStale (← f.currentRevision)

def replace (f : ReplicaFile) (r : Replica) : Action Unit := do
  let _ ← f.read .edges
  f.ensureWritable
  f.write { (← Action.ask f.image) with tables := some r }

def fill (f : ReplicaFile) (tasks : List Task) (revision : String) : Action Unit :=
  f.replace (.ofTasks tasks revision)

/-- Fills the replica from the store. The revision is taken before the tasks are read. -/
def refill (f : ReplicaFile) : Action Unit := do
  let revision ← f.currentRevision
  let tasks ← f.store.readAll
  f.fill tasks revision

def clear (f : ReplicaFile) : Action Unit := f.replace {}

def source (f : ReplicaFile) (d : Disk) : Source Failure where
  tasks := do (← f.load .tasks d).loadTasks.mapError .replica
  edges := do (← f.load .edges d).loadEdges.mapError .replica
  revision := do return (← f.load .stamp d).revision

end ReplicaFile
end Precedence

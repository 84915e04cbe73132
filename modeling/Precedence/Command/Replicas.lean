import Precedence.Command.Answer
import Precedence.Command.Basic
import Precedence.Project
import Precedence.Time.Elapsed
/-! Commands on the replica of a project's store. -/
namespace Precedence.Command

open Answer (count byStatus)

def countsOf (r : Replica) : Action (List (Status × Nat)) :=
  match r.counts with
  | .ok counts => pure counts
  | .error fault => throw (.replica fault)

def total (counts : List (Status × Nat)) : Nat := counts.foldl (fun n c => n + c.2) 0

def runRebuild (env : Environment) (elapsed : Nat) : Action Answer := do
  let project ← Project.openHere env
  let f ← project.refilledReplica
  let r ← f.read .tasks
  let tasks := total (← countsOf r)
  return {
    lines := ["Cache rebuilt in " ++ Elapsed.text elapsed ++ " (" ++ count tasks ++ " tasks, " ++
      count r.edgeCount ++ " dependencies)"]
    value := .table
      [("dependencies", .natural r.edgeCount),
        ("duration_ms", .natural (Elapsed.milliseconds elapsed)), ("rebuilt", .boolean true),
        ("tasks", .natural tasks)] }

def contents (f : ReplicaFile) (isStale : Bool) (counts : List (Status × Nat)) (edges : Nat) :
    Answer :=
  let sized (x : Status) : Nat := (counts.lookup x).getD 0
  let statusLines := (Status.all.filter fun x => sized x ≠ 0).map fun x =>
    "    " ++ Text.padLeft 10 x.name ++ " " ++ count (sized x)
  { value := .table
      [("dependencies", .natural edges), ("path", .text f.path.text),
        ("stale", .boolean isStale),
        ("tasks", .table [("by_status", byStatus sized), ("total", .natural (total counts))])]
    lines :=
      ["Cache Status", Text.rule 40 '=', "Path: " ++ f.path.text,
        "Status: " ++ if isStale then "STALE (needs rebuild)" else "fresh", "", "Cached Data:",
        "  Tasks: " ++ count (total counts)] ++
      statusLines ++ ["  Dependencies: " ++ count edges] ++
      if isStale then ["", "Run 'dagplan cache rebuild' to update the cache."] else [] }

def runContents (env : Environment) : Action Answer := do
  let project ← Project.openHere env
  let f ← ReplicaFile.open project.root
  let isStale ← f.isStale
  let r ← f.read .tasks
  return contents f isStale (← countsOf r) r.edgeCount

def runClear (env : Environment) : Action Answer := do
  let project ← Project.openHere env
  let f ← ReplicaFile.open project.root
  f.clear
  return .sentence "Cache cleared"

def runReplica (env : Environment) (elapsed : Nat) : ReplicaCommand → Action Answer
  | .rebuild => runRebuild env elapsed
  | .status => runContents env
  | .clear => runClear env

end Precedence.Command

import Precedence.Command.Queries
/-!
Commands on tasks. Everything that can be refused is refused before the store is changed, and
commands that change edges bring the recorded depths up to date afterwards.
-/
namespace Precedence.Command

open Answer (count ids joined idCell)

def typedPriority (level : Nat) : Action Priority := settle (Priority.ofParameter level)

def stored (tasks : List Task) (id : TaskId) : Action Task :=
  match tasks.find? (·.id = id) with
  | some t => pure t
  | none => throw (.graph (.unknownTask id))

def isStored (tasks : List Task) (id : TaskId) : Bool := tasks.any (·.id = id)

/-- Depth counts no further than its word. -/
def deeper (depth : UInt32) : UInt32 :=
  if depth = .ofNat (UInt32.size - 1) then depth else depth + 1

/-- The depth of a task whose prerequisites are stored with theirs. -/
def depthAbove (tasks : List Task) (t : Task) : UInt32 :=
  ((tasks.filter fun u => t.dependsOn.contains u.id).map fun u => deeper u.depth).foldl max 0

/-- A new task with one more prerequisite, which has to be another task that is stored. -/
def withPrerequisite (tasks : List Task) (now : Instant) (t : Task) (raw : String) :
    Action Task := do
  let p ← typedId raw
  Action.refuseIf (p = t.id) (.graph (.selfDependency p))
  Action.refuseIf (!isStored tasks p) (.graph (.brokenReference p ⟨t.id, p⟩))
  return (t.addDependency? p now).getD t

def newId (now : Instant) (n : NewTask) : Action TaskId :=
  match n.id with
  | some raw => typedId raw
  | none => pure (.generate n.description now)

def typedParent (tasks : List Task) (raw : String) : Action TaskId := do
  let parent ← typedId raw
  Action.refuseIf (!isStored tasks parent) (.parentMissing parent)
  return parent

def newTask (tasks : List Task) (now : Instant) (n : NewTask) : Action Task := do
  let id ← newId now n
  Action.refuseIf (isStored tasks id) (.taskExists id)
  let priority ← n.priority.mapM typedPriority
  let parent ← n.parent.mapM (typedParent tasks)
  let bare : Task :=
    { Task.create id n.description now with
      priority := priority.getD .default
      estimatedDuration := n.duration.map UInt64.ofNat
      origin := n.origin.getD .agent
      parent }
  let t ← n.after.foldlM (withPrerequisite tasks now) bare
  return { t with depth := depthAbove tasks t }

def add (p : Project) (now : Instant) (n : NewTask) : Action Task := do
  let t ← newTask (← p.store.readAll) now n
  p.store.append t
  return t

def runAdd (env : Environment) (now : Instant) (n : NewTask) : Action Answer := do
  let t ← add (← Project.openHere env) now n
  return { lines := ["Created task: " ++ t.id.text ++ " - " ++ t.description], value := t.document }

def listed (status : Option Status) (tasks : List Task) : Answer :=
  let line (t : Task) : String :=
    idCell t.id ++ " " ++ Text.padLeft 10 t.status.name ++ " " ++
      Text.padLeft 4 (count t.priority.level) ++ " " ++ Text.padLeft 6 (count t.depth.toNat) ++
      " " ++ t.description
  let nothing := match status with
    | some x => "No " ++ x.name ++ " tasks"
    | none => "No tasks"
  { value := .list (tasks.map Task.document)
    lines :=
      if tasks.isEmpty then [nothing]
      else ["ID                   STATUS     PRI  DEPTH  DESCRIPTION", Text.rule 70 '-'] ++
        tasks.map line }

def runList (env : Environment) (status : Option Status) : Action Answer := do
  let project ← Project.openHere env
  let tasks ← project.store.readAll
  return listed status (tasks.filter fun t => status.all (t.status = ·))

def statusOf (tasks : List Task) (id : TaskId) : Option Status :=
  (tasks.find? (·.id = id)).map (·.status)

/-- Whether a task can be worked on, judged from the stored tasks. -/
def isReadyAmong (tasks : List Task) (t : Task) : Bool :=
  !t.status.isTerminal && t.dependsOn.all fun p => (statusOf tasks p).any Status.isComplete

def details (tasks : List Task) (t : Task) : Answer :=
  let dependents := (tasks.filter fun u => u.dependsOn.contains t.id).map Task.id
  let isReady := isReadyAmong tasks t
  let titled (title : String) (l : List String) : List String :=
    if l.isEmpty then [] else ["", title] ++ l.map ("  " ++ ·)
  let prerequisite (p : TaskId) : String :=
    p.text ++ " (" ++ ((statusOf tasks p).map Status.name).getD "missing" ++ ")"
  { value := .table [("dependents", ids dependents), ("is_ready", .boolean isReady),
      ("task", t.document.sortKeys)]
    lines :=
      ["Task: " ++ t.id.text, "Description: " ++ t.description, "Status: " ++ t.status.name,
        "Priority: " ++ count t.priority.level] ++
      (t.estimatedDuration.map fun d => "Estimated duration: " ++ count d.toNat ++ "s").toList ++
      ["Depth: " ++ count t.depth.toNat, "Origin: " ++ t.origin.name] ++
      (t.parent.map fun p => "Parent: " ++ p.text).toList ++
      ["Created: " ++ t.createdAt.shortText, "Updated: " ++ t.updatedAt.shortText] ++
      (t.completedAt.map fun c => "Completed: " ++ c.shortText).toList ++
      titled "Depends on:" (t.dependsOn.map prerequisite) ++
      titled "Required by:" (dependents.map TaskId.text) ++
      if isReady then ["", "READY (all prerequisites complete)"] else [] }

def runDescribe (env : Environment) (raw : String) : Action Answer := do
  let project ← Project.openHere env
  let id ← typedId raw
  let tasks ← project.store.readAll
  return details tasks (← stored tasks id)

def amend (p : Project) (id : TaskId) (change : Task → Task) : Action Task := do
  let t := change (← stored (← p.store.readAll) id)
  p.store.update t
  return t

def runMove (env : Environment) (now : Instant) (x : Transition) (raw : String) :
    Action Answer := do
  let project ← Project.openHere env
  let id ← typedId raw
  let t ← amend project id (x.apply · now)
  return {
    lines := [x.past ++ " task: " ++ t.id.text]
    value := .table
      [("completed_at", (t.completedAt.map fun c => .text c.recordText).getD .null),
        ("id", .text t.id.text), ("status", .text t.status.name)] }

def changed (t : Task) (priority : Option Priority) (duration : Option Nat)
    (description : Option String) (now : Instant) : Task :=
  let t := match priority with
    | some p => t.setPriority p now
    | none => t
  let t := match duration with
    | some d => t.setDuration (some (UInt64.ofNat d)) now
    | none => t
  match description with
  | some s => t.setDescription s now
  | none => t

def runSet (env : Environment) (now : Instant) (raw : String) (c : TaskChange) : Action Answer := do
  let project ← Project.openHere env
  let id ← typedId raw
  let priority ← c.priority.mapM typedPriority
  let t ← amend project id (changed · priority c.duration c.description now)
  return { lines := ["Updated task: " ++ t.id.text], value := t.document }

/-- Writes a task with other prerequisites, and brings depths up to date. -/
def rewire (p : Project) (t : Task) : Action Unit := do
  p.store.update t
  let _ ← p.refreshDepths

/-- Makes a stored task depend on another one, unless that would close a cycle. What is wrong
elsewhere in the graph does not matter. -/
def depend (project : Project) (now : Instant) (t p : TaskId) : Action Unit := do
  let tasks ← project.store.readAll
  let (graph, _) := Graph.buildLenient tasks (tasks.flatMap Task.edges)
  match ← settle (graph.cycleIfAdded t p) with
  | some cycle => throw (.graph (.circularDependency cycle))
  | none =>
    match (← stored tasks t).addDependency? p now with
    | some u => rewire project u
    | none => pure ()

def runDepend (env : Environment) (now : Instant) (dependent prerequisite : String) :
    Action Answer := do
  let project ← Project.openHere env
  let t ← typedId dependent
  let p ← typedId prerequisite
  depend project now t p
  return {
    lines := [t.text ++ " now depends on " ++ p.text]
    value := .table [("depends_on", .text p.text), ("task", .text t.text)] }

def undepend (project : Project) (now : Instant) (t p : TaskId) : Action Unit := do
  match (← stored (← project.store.readAll) t).removeDependency? p now with
  | some u => rewire project u
  | none => throw (.notDependent t p)

def runUndepend (env : Environment) (now : Instant) (dependent prerequisite : String) :
    Action Answer := do
  let project ← Project.openHere env
  let t ← typedId dependent
  let p ← typedId prerequisite
  undepend project now t p
  return {
    lines := ["Removed dependency: " ++ t.text ++ " no longer depends on " ++ p.text]
    value := .table [("removed_dependency", .text p.text), ("task", .text t.text)] }

def runTask (env : Environment) (now : Instant) : TaskCommand → Action Answer
  | .add n => runAdd env now n
  | .list x => runList env x
  | .describe raw => runDescribe env raw
  | .move x raw => runMove env now x raw
  | .set raw c => runSet env now raw c
  | .depend t p => runDepend env now t p
  | .undepend t p => runUndepend env now t p

end Precedence.Command

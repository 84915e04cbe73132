import Precedence.Analyzer.Cache
import Precedence.Configuration
import Precedence.Replica.File
import Precedence.Text.Column
/-!
Projects: a directory with settings, a store and a replica of it, and the analyzers of what these
hold. One analyzer is shared as long as the revision of the store stays the same.
-/
namespace Precedence

structure Project where
  root : Path
  settings : ProjectSettings
  shared : AnalyzerCache

namespace Project

def defaultSettings : String := Text.block
  ["# dagplan configuration",
    "",
    "# Where analysis commands read tasks from: \"jsonl\" or \"sqlite\"",
    "store = \"jsonl\"",
    "",
    "[analysis]",
    "# Depth used by ancestors/descendants when --max-depth is not given",
    "default_max_depth = 100",
    "# Largest --max-depth accepted",
    "max_depth_limit = 10000",
    "# Ordering among equal priorities: \"created_at\" or \"id\"",
    "tie_break = \"created_at\"",
    "",
    "[analysis.orphans]",
    "# \"no_prerequisites\" or \"isolated\"",
    "rule = \"no_prerequisites\"",
    "# Origins never reported as orphans",
    "exclude_origins = [\"human\"]"]

def ignores : String := Text.block
  ["# Ignore SQLite cache (regenerated from tasks.jsonl)", ".cache/"]

def dataDirectory (p : Project) : Path := Configuration.dataDirectory p.root

def store (p : Project) : Store := .ofRoot p.root

def «open» (env : Environment) (root : Path) : Action Project := do
  let settings ← Action.ask fun d =>
    if Configuration.isRoot d root then (Configuration.ofProject env root d).map (·.project)
    else .error .notInProject
  return { root, settings, shared := { options := settings.analysis } }

def openHere (env : Environment) : Action Project := do
  let root ← Action.ask fun d =>
    match Configuration.findRoot? env.here d with
    | some root => .ok root
    | none => .error .notInProject
  Project.open env root

/-- Writes a file, unless something is there. -/
def provide (p : Path) (deed : Deed) (s : String) : Action Unit := do
  if !(← get).exists? p then
    Action.change deed (·.write p (Bytes.ofText s))

def init (env : Environment) (root : Path) : Action Project := do
  let directory := Configuration.dataDirectory root
  let settings := Configuration.projectFile root
  let ignore := directory.join ".gitignore"
  Action.makeDirectories (.makeProject directory) directory
  provide settings (.writeSettings settings) defaultSettings
  provide ignore (.writeIgnores ignore) ignores
  Project.open env root

def create (env : Environment) (root : Path) : Action Project := do
  if Configuration.isRoot (← get) root then throw (.alreadyExists root)
  init env root

def refilledReplica (p : Project) : Action ReplicaFile := do
  let f ← ReplicaFile.open p.root
  f.refill
  return f

def freshReplica (p : Project) : Action ReplicaFile := do
  let f ← ReplicaFile.open p.root
  if ← f.isStale then f.refill
  return f

/-- The analyzer for what a source holds, shared while its revision stays the same. -/
def share (p : Project) (source : Disk → Source Failure) : Action (Issue × Project) := do
  let (issue, shared) := p.shared.get (source (← get))
  let issue ← Action.ask fun _ => issue
  return (issue, { p with shared })

def analyzer (p : Project) (backend : Option Backend) : Action (Issue × Project) :=
  match backend.getD p.settings.store with
  | .jsonl => p.share p.store.source
  | .sqlite => do
    let f ← p.freshReplica
    p.share f.source

/-- A task at a depth, as far as its word counts, and whether that is news. -/
def deepen (depths : List (TaskId × Nat)) (t : Task) : Task × Bool :=
  let depth := UInt32.ofNat (min (UInt32.size - 1) ((depths.lookup t.id).getD 0))
  ({ t with depth }, t.depth != depth)

/-- Brings the recorded depths of all tasks up to date and counts those that change. Edges to
missing tasks do not count; where there is a cycle everything stays as it is. -/
def refreshDepths (p : Project) : Action (Nat × Project) := do
  let tasks ← p.store.readAll
  let (graph, _) := Graph.buildLenient tasks (tasks.flatMap Task.edges)
  match graph.depths (.ofGraph graph p.settings.analysis.tieBreak.compare) with
  | .error _ => return (0, p)
  | .ok depths =>
    let deepened := tasks.map (deepen depths)
    let changed := deepened.countP (·.2)
    if changed = 0 then return (0, p)
    p.store.writeAll (deepened.map (·.1))
    return (changed, { p with shared := p.shared.invalidate })

end Project
end Precedence

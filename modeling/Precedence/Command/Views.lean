import Precedence.Analyzer.Basic
import Precedence.Command.Answer
/-! Answers to questions about a graph, as they are shown. -/
namespace Precedence.Answer

def description (a : Analyzer) (id : TaskId) : String := ((a.task? id).map (·.description)).getD ""

def listing (a : Analyzer) (l : List TaskId) : List String :=
  ["ID                   DESCRIPTION", Text.rule 60 '-'] ++
    l.map fun id => idCell id ++ " " ++ description a id

def ready (a : Analyzer) : Answer :=
  let tasks := a.ready.filterMap a.task?
  let value (t : Task) : Document :=
    .table [("description", .text t.description), ("id", .text t.id.text),
      ("priority", .natural t.priority.level), ("status", .text t.status.name)]
  let line (t : Task) : String :=
    idCell t.id ++ " " ++ Text.padLeft 4 (count t.priority.level) ++ " " ++ t.description
  { value := .list (tasks.map value)
    lines :=
      if a.ready.isEmpty then ["No tasks ready to work on."]
      else ["Ready tasks (" ++ count a.ready.length ++ "):",
        "ID                   PRI  DESCRIPTION", Text.rule 60 '-'] ++ tasks.map line }

def blocked (a : Analyzer) : Answer :=
  let value (id : TaskId) : Document :=
    .table [("blocked_by", ids (a.graph.blockers id)),
      ("description", ((a.task? id).map fun t => .text t.description).getD .null),
      ("id", .text id.text)]
  let line (id : TaskId) : String :=
    idCell id ++ " " ++ Text.padLeft 30 (description a id) ++ " " ++ joined (a.graph.blockers id)
  { value := .list (a.blocked.map value)
    lines :=
      if a.blocked.isEmpty then ["No blocked tasks."]
      else ["Blocked tasks (" ++ count a.blocked.length ++ "):",
        Text.padLeft 20 "ID" ++ " " ++ Text.padLeft 30 "DESCRIPTION" ++ " BLOCKED BY",
        Text.rule 80 '-'] ++ a.blocked.map line }

def status (a : Analyzer) : Answer :=
  let tasks := a.graph.tasks
  let edges := a.graph.links.length
  let sized (x : Status) : Nat := tasks.countP (·.status = x)
  let report := a.validate none
  let problems := report.faults.length
  let critical := if report.isValid then (a.criticalPath none none).toOption else none
  let statusLines := (Status.all.filter fun x => sized x ≠ 0).map fun x =>
    "  " ++ Text.padLeft 12 (x.name ++ ":") ++ " " ++ count (sized x)
  let pathLines := match critical.filter (!·.path.isEmpty) with
    | some c =>
      ["Critical path: " ++ count c.path.length ++ " tasks, " ++ count c.totalDuration ++ "s"]
    | none => []
  { value := .table
      [("critical_path", (critical.map fun c => c.document.sortKeys).getD .null),
        ("dependencies", .natural edges),
        ("problems", .natural problems),
        ("tasks", .table
          [("blocked", .natural a.blocked.length), ("by_status", byStatus sized),
            ("ready", .natural a.ready.length), ("total", .natural tasks.length)]),
        ("valid", .boolean report.isValid)]
    lines :=
      ["Project Status", Text.rule 40 '=', "", "Tasks: " ++ count tasks.length ++ " total"] ++
      statusLines ++
      ["", "  Ready to work:   " ++ count a.ready.length,
        "  Blocked:         " ++ count a.blocked.length, "",
        "Dependencies: " ++ count edges,
        if report.isValid then "Graph: valid"
        else "Graph: INVALID (" ++ count problems ++ " problems, run 'dagplan validate')"] ++
      pathLines }

def order (a : Analyzer) (l : List TaskId) : Answer :=
  let line : TaskId × Nat → String := fun (id, n) =>
    Text.padRight 4 (count (n + 1)) ++ ". " ++ idCell id ++ " " ++ description a id
  { value := .table [("order", ids l)]
    lines :=
      if l.isEmpty then ["No tasks."]
      else ("Execution order (" ++ count l.length ++ "):") :: l.zipIdx.map line }

def levels (l : List (List TaskId)) : Answer :=
  let line : List TaskId × Nat → String := fun (level, n) =>
    "Level " ++ count n ++ ": " ++ joined level
  { value := .table [("levels", .list (l.map ids))]
    lines := if l.isEmpty then ["No tasks."] else l.zipIdx.map line }

def directionName : Direction → String × String
  | .up => ("Ancestors", "ancestors")
  | .down => ("Descendants", "descendants")

def relatives (a : Analyzer) (direction : Direction) (r : Relatives) : Answer :=
  let (capital, small) := directionName direction
  let line (x : Relative) : String :=
    Text.padLeft 6 (count x.depth) ++ " " ++ idCell x.id ++ " " ++ description a x.id
  let listed :=
    if r.tasks.isEmpty then ["No " ++ small ++ " of " ++ r.seed.text ++ "."]
    else [capital ++ " of " ++ r.seed.text ++ " (max depth " ++ count r.maxDepth ++ "):",
      "DEPTH  ID                   DESCRIPTION", Text.rule 60 '-'] ++ r.tasks.map line
  let more :=
    if r.beyondLimit = 0 then []
    else ["(" ++ count r.beyondLimit ++ " more beyond depth " ++ count r.maxDepth ++ ")"]
  { value := r.document, lines := listed ++ more }

def orphans (a : Analyzer) (l : List TaskId) : Answer where
  value := .table [("orphans", ids l)]
  lines :=
    if l.isEmpty then ["No orphaned tasks."]
    else ("Orphaned tasks (" ++ count l.length ++ "):") :: listing a l

def leaves (a : Analyzer) (l : List TaskId) : Answer where
  value := .table [("leaves", ids l)]
  lines :=
    if l.isEmpty then ["No leaf tasks."]
    else ("Leaf tasks (" ++ count l.length ++ "):") :: listing a l

def criticalPath (a : Analyzer) (c : CriticalPath) : Answer :=
  let duration (id : TaskId) : Nat := ((a.task? id).map fun t => t.duration.toNat).getD 0
  let line (id : TaskId) : String :=
    "  " ++ idCell id ++ " " ++ Text.padRight 8 (count (duration id)) ++ "s  " ++ description a id
  { value := c.document
    lines :=
      if c.path.isEmpty then ["No tasks."]
      else ("Critical path (total duration: " ++ count c.totalDuration ++ "s):") ::
        c.path.map line }

/-- The result of an integrity check, which fails where something was found. -/
def validity (a : Analyzer) (r : Report) : Answer :=
  let problems := r.faults.length
  if r.isValid then
    let s := "Graph is valid (" ++ count a.graph.tasks.length ++ " tasks, " ++
      count a.graph.links.length ++ " dependencies)"
    { lines := [s], value := r.document }
  else
    { lines := ("Graph is invalid (" ++ count problems ++ " problems):") ::
        r.faults.map fun f => "  [" ++ f.kind ++ "] " ++ f.message
      value := r.document
      failure := some (.invalid problems) }

end Precedence.Answer

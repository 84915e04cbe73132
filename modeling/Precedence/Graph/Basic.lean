import Precedence.Graph.Fault
/-!
The dependency graph: loaded tasks under distinct identifiers, the links between them, and the edges
whose prerequisite is not loaded. Tasks keep the order in which their identifiers first appear, and
neighbours are listed in that order.
-/
namespace Precedence

structure Graph where
  tasks : List Task := []
  /-- Edges between two loaded tasks, each once. -/
  links : List Edge := []
  /-- Edges from a loaded task to a prerequisite that is not loaded, each once. -/
  unresolved : List Edge := []

namespace Graph

def ids (g : Graph) : List TaskId := g.tasks.map Task.id

def contains (g : Graph) (id : TaskId) : Bool := g.tasks.any (·.id == id)

def task? (g : Graph) (id : TaskId) : Option Task := g.tasks.find? (·.id == id)

def edgeCount (g : Graph) : Nat := g.links.length

def index? (g : Graph) (id : TaskId) : Option Nat := g.tasks.findIdx? (·.id == id)

def require (g : Graph) (id : TaskId) : Except GraphFault Unit :=
  if g.contains id then .ok () else .error (.unknownTask id)

def prerequisites (g : Graph) (id : TaskId) : List TaskId :=
  let named := (g.links.filter (·.dependent == id)).map Edge.prerequisite
  g.ids.filter named.contains

def dependents (g : Graph) (id : TaskId) : List TaskId :=
  let named := (g.links.filter (·.prerequisite == id)).map Edge.dependent
  g.ids.filter named.contains

/-- Prerequisites of a task that are not loaded, in the order in which they were met. -/
def missing (g : Graph) (id : TaskId) : List TaskId :=
  (g.unresolved.filter (·.dependent == id)).map Edge.prerequisite

def isComplete (g : Graph) (id : TaskId) : Bool := (g.task? id).any (·.status.isComplete)

/-- Not finished, and every prerequisite is loaded and completed. -/
def isReady (g : Graph) (t : Task) : Bool :=
  !t.status.isTerminal && (g.missing t.id).isEmpty && (g.prerequisites t.id).all g.isComplete

/-- Not finished, and some prerequisite is missing or not completed. -/
def isBlocked (g : Graph) (t : Task) : Bool :=
  !t.status.isTerminal &&
    (!(g.missing t.id).isEmpty || (g.prerequisites t.id).any fun p => !g.isComplete p)

def ready (g : Graph) : List TaskId := (g.tasks.filter g.isReady).map Task.id

def blocked (g : Graph) : List TaskId := (g.tasks.filter g.isBlocked).map Task.id

/-- What a task waits for: its prerequisites that are not completed, then its missing ones. -/
def blockers (g : Graph) (id : TaskId) : List TaskId :=
  (g.prerequisites id).filter (fun p => !g.isComplete p) ++ g.missing id

/-- Loads a task; a later record of a task replaces the earlier one in its place. -/
def addTask (g : Graph) (t : Task) : Graph :=
  if g.contains t.id then { g with tasks := g.tasks.map fun u => if u.id = t.id then t else u }
  else { g with tasks := g.tasks ++ [t] }

def insertEdge (e : Edge) (es : List Edge) : List Edge := if e ∈ es then es else es ++ [e]

/-- Adds an edge between two loaded tasks, or notes why it cannot be added: it points from a task to
itself, its dependent is not loaded, or its prerequisite is not loaded. -/
def addEdge (g : Graph) (e : Edge) : Graph × Option GraphFault :=
  if e.isSelf then (g, some (.selfDependency e.dependent))
  else if !g.contains e.dependent then (g, some (.brokenReference e.dependent e))
  else if !g.contains e.prerequisite then
    ({ g with unresolved := insertEdge e g.unresolved }, some (.brokenReference e.prerequisite e))
  else ({ g with links := insertEdge e g.links }, none)

/-- Adds edges in turn, leaving out those that cannot be added, and collects what is wrong with
them. -/
def addEdges (g : Graph) : List Edge → Graph × List GraphFault
  | [] => (g, [])
  | e :: es =>
    let (g, problem?) := g.addEdge e
    let (g, problems) := g.addEdges es
    (g, problem?.toList ++ problems)

/-- The graph of all tasks and of all edges that are sound, and what is wrong with the others. -/
def buildLenient (tasks : List Task) (edges : List Edge) : Graph × List GraphFault :=
  (tasks.foldl addTask {}).addEdges edges

/-- The graph of all tasks and edges, or the first thing wrong with the edges. -/
def build (tasks : List Task) (edges : List Edge) : Except GraphFault Graph :=
  match buildLenient tasks edges with
  | (g, []) => .ok g
  | (_, problem :: _) => .error problem

def ofTasks (tasks : List Task) : Except GraphFault Graph := build tasks (tasks.flatMap Task.edges)

/-- The graph on the tasks that a set keeps, with the links inside it, in load order. -/
def induced (g : Graph) (keep : TaskId → Bool) : Graph where
  tasks := g.tasks.filter fun t => keep t.id
  links := g.links.filter fun e => keep e.dependent && keep e.prerequisite
  unresolved := g.unresolved.filter fun e => keep e.dependent

/-- The graph on some of the tasks, all of which have to be loaded. -/
def subgraph (g : Graph) (ids : List TaskId) : Except GraphFault Graph := do
  ids.forM g.require
  return g.induced ids.contains

end Graph
end Precedence

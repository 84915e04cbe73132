import Precedence.Graph.Ranking
/-!
Walks through a graph: the tasks at each distance from a seed, along prerequisites or along
dependents, and shortest paths.
-/
namespace Precedence

inductive Direction where
  /-- To prerequisites. -/
  | up
  /-- To dependents. -/
  | down
  deriving DecidableEq, Repr

namespace Graph

def neighbours (g : Graph) : Direction → TaskId → List TaskId
  | .up => g.prerequisites
  | .down => g.dependents

/-- The tasks first met one step after a frontier, in the order in which they are met. -/
def frontierAfter (next : TaskId → List TaskId) (seen frontier : List TaskId) : List TaskId :=
  ((frontier.flatMap next).filter fun id => !seen.contains id).eraseDups

/-- The tasks met after each number of steps from a frontier, until there are no more. The first
argument bounds the number of steps. -/
def layersFrom (next : TaskId → List TaskId) :
    Nat → List TaskId → List TaskId → List (List TaskId)
  | 0, _, _ => []
  | fuel + 1, seen, frontier =>
    match frontierAfter next seen frontier with
    | [] => []
    | layer => layer :: layersFrom next fuel (seen ++ layer) layer

def layers (g : Graph) (direction : Direction) (seed : TaskId) : List (List TaskId) :=
  layersFrom (g.neighbours direction) g.tasks.length [seed] [seed]

def closure (g : Graph) (direction : Direction) (seed : TaskId) : List TaskId :=
  seed :: (g.layers direction seed).flatten

end Graph

/-- A search along dependents: where each task was met from, the latest first, and the tasks whose
dependents are still to be met. -/
structure Trail where
  origins : List (TaskId × TaskId) := []
  queue : List TaskId

namespace Trail

def hasMet (start : TaskId) (t : Trail) (v : TaskId) : Bool :=
  v == start || (t.origins.lookup v).isSome

/-- Meets a task from another one, unless it was met before. -/
def meet (start v : TaskId) (t : Trail) (w : TaskId) : Trail :=
  if t.hasMet start w then t else ⟨(w, v) :: t.origins, t.queue ++ [w]⟩

/-- Goes on with the task that was met first, until that is the goal. The first argument bounds the
number of steps. -/
def run (next : TaskId → List TaskId) (start goal : TaskId) : Nat → Trail → Trail
  | 0, t => t
  | fuel + 1, t =>
    match t.queue with
    | [] => t
    | v :: queue =>
      if v = goal then t
      else run next start goal fuel ((next v).foldl (meet start v) { t with queue })

/-- The way that led to a task, put before a path. The first argument bounds its length. -/
def wayTo (t : Trail) : Nat → TaskId → List TaskId → List TaskId
  | 0, v, path => v :: path
  | fuel + 1, v, path =>
    match t.origins.lookup v with
    | some u => t.wayTo fuel u (v :: path)
    | none => v :: path

end Trail

namespace Graph

/-- Whether a new edge would close a cycle: then its prerequisite can be reached from its dependent.
The tasks have to be loaded and to differ. -/
def wouldCreateCycle (g : Graph) (dependent prerequisite : TaskId) : Except GraphFault Bool := do
  if dependent = prerequisite then throw (.selfDependency dependent)
  g.require dependent
  g.require prerequisite
  return (g.closure .down dependent).contains prerequisite

/-- A shortest path to a task that can be reached. -/
def shortestPath (g : Graph) (start goal : TaskId) : List TaskId :=
  let t := Trail.run g.dependents start goal (g.tasks.length + 1) ⟨[], [start]⟩
  t.wayTo t.origins.length goal []

/-- The cycle that a new edge would close: a shortest path from the dependent to the prerequisite,
which the edge leads back. -/
def cycleIfAdded (g : Graph) (dependent prerequisite : TaskId) :
    Except GraphFault (Option (List TaskId)) := do
  if ← g.wouldCreateCycle dependent prerequisite then
    return some (g.shortestPath dependent prerequisite)
  else return none

end Graph

structure Relative where
  id : TaskId
  depth : Nat
  deriving DecidableEq, Repr

structure Relatives where
  seed : TaskId
  maxDepth : Nat
  /-- By distance, then by rank. -/
  tasks : List Relative
  /-- How many tasks lie one step past the limit. -/
  beyondLimit : Nat
  deriving DecidableEq, Repr

namespace Relatives

def ids (r : Relatives) : List TaskId := r.tasks.map Relative.id

def document (r : Relatives) : Document :=
  .table
    [("seed", .text r.seed.text), ("max_depth", .natural r.maxDepth),
      ("tasks", .list (r.tasks.map fun x =>
        .table [("id", .text x.id.text), ("depth", .natural x.depth)])),
      ("beyond_limit", .natural r.beyondLimit)]

end Relatives

namespace Graph

def walk (g : Graph) (r : Ranking) (direction : Direction) (seed : TaskId) (maxDepth : Nat) :
    Except GraphFault Relatives := do
  g.require seed
  let layers := g.layers direction seed
  let tasks := (layers.take maxDepth).mapIdx fun i layer =>
    (r.sort layer).map fun id => ⟨id, i + 1⟩
  let beyond := layers[maxDepth]?.getD []
  return { seed, maxDepth, tasks := tasks.flatten, beyondLimit := beyond.length }

end Graph

inductive OrphanRule where
  /-- No parent and no prerequisites. -/
  | noPrerequisites
  /-- No parent and no links at all. -/
  | isolated
  deriving DecidableEq, Repr

namespace OrphanRule

def name : OrphanRule → String
  | noPrerequisites => "no_prerequisites"
  | isolated => "isolated"

def ofName? (s : String) : Option OrphanRule :=
  [noPrerequisites, isolated].find? fun x => x.name == s

end OrphanRule

structure OrphanPolicy where
  rule : OrphanRule := .noPrerequisites
  /-- Tasks of these origins are never orphans. -/
  excludeOrigins : List Origin := [.human]
  deriving DecidableEq, Repr

namespace Graph

def isOrphan (g : Graph) (policy : OrphanPolicy) (t : Task) : Bool :=
  t.parent.isNone && !policy.excludeOrigins.contains t.origin &&
    (g.prerequisites t.id).isEmpty &&
    match policy.rule with
    | .noPrerequisites => true
    | .isolated => (g.dependents t.id).isEmpty

def orphans (g : Graph) (r : Ranking) (policy : OrphanPolicy) : List TaskId :=
  r.order.filter fun id => (g.task? id).any (g.isOrphan policy)

def leaves (g : Graph) (r : Ranking) (status : Option Status) : List TaskId :=
  r.order.filter fun id =>
    (g.dependents id).isEmpty && (g.task? id).any fun t => status.all (· == t.status)

end Graph
end Precedence

import Precedence.Graph.CriticalPath
import Precedence.Snapshot
/-!
Analyzers: the questions that can be asked of one snapshot. Parameters are checked first; then, for
all questions that need an acyclic graph, the snapshot itself.
-/
namespace Precedence

structure AnalysisOptions where
  defaultMaxDepth : Nat := 100
  maxDepthLimit : Nat := 10000
  tieBreak : TieBreak := .createdAt
  orphans : OrphanPolicy := {}
  deriving DecidableEq, Repr

/-- One snapshot, ready for questions. -/
structure Analyzer where
  graph : Graph
  problems : List GraphFault
  compare : Comparison
  options : AnalysisOptions

namespace Analyzer

def withOrder (s : Snapshot) (options : AnalysisOptions) (compare : Comparison) : Analyzer :=
  let (graph, problems) := Graph.buildLenient s.tasks s.edges
  { graph, problems, compare, options }

def ofSnapshot (s : Snapshot) (options : AnalysisOptions) : Analyzer :=
  withOrder s options options.tieBreak.compare

def load {ε : Type} (source : Source ε) (options : AnalysisOptions) : Except ε Analyzer := do
  return ofSnapshot (← source.snapshot) options

def ranking (a : Analyzer) : Ranking := .ofGraph a.graph a.compare

def task? (a : Analyzer) (id : TaskId) : Option Task := a.graph.task? id

/-- Refuses a snapshot with an unsound edge or a cycle; the first unsound edge is named. -/
def ensureValid (a : Analyzer) : Except GraphFault Unit :=
  match a.problems with
  | problem :: _ => .error problem
  | [] => a.graph.checkAcyclic a.ranking

def resolveDepth (a : Analyzer) : Option Int → Except GraphFault Nat
  | none => .ok a.options.defaultMaxDepth
  | some depth =>
    if depth < 0 then .error (.invalidParameter (.negativeDepth depth))
    else if a.options.maxDepthLimit < depth.toNat then
      .error (.invalidParameter (.depthAboveLimit depth.toNat a.options.maxDepthLimit))
    else .ok depth.toNat

def executionOrder (a : Analyzer) (ids : Option (List TaskId)) :
    Except GraphFault (List TaskId) := do
  let graph ← match ids with
    | none => pure a.graph
    | some ids => a.graph.subgraph ids
  a.ensureValid
  graph.executionOrder (.ofGraph graph a.compare)

/-- The tasks that can run side by side, level by level. -/
def levels (a : Analyzer) : Except GraphFault (List (List TaskId)) := do
  a.ensureValid
  a.graph.levels a.ranking

def walk (a : Analyzer) (direction : Direction) (seed : TaskId) (maxDepth : Option Int) :
    Except GraphFault Relatives := do
  let maxDepth ← a.resolveDepth maxDepth
  a.ensureValid
  a.graph.walk a.ranking direction seed maxDepth

def ancestors (a : Analyzer) : TaskId → Option Int → Except GraphFault Relatives := a.walk .up

def descendants (a : Analyzer) : TaskId → Option Int → Except GraphFault Relatives := a.walk .down

def orphans (a : Analyzer) (policy : OrphanPolicy) : Except GraphFault (List TaskId) := do
  a.ensureValid
  return a.graph.orphans a.ranking policy

def leaves (a : Analyzer) (status : Option Status) : Except GraphFault (List TaskId) := do
  a.ensureValid
  return a.graph.leaves a.ranking status

def criticalPath (a : Analyzer) (start finish : Option TaskId) :
    Except GraphFault CriticalPath := do
  a.ensureValid
  a.graph.criticalPath a.ranking start finish

def depths (a : Analyzer) : Except GraphFault (List (TaskId × Nat)) := do
  a.ensureValid
  a.graph.depths a.ranking

def ready (a : Analyzer) : List TaskId := a.ranking.sort a.graph.ready

def blocked (a : Analyzer) : List TaskId := a.ranking.sort a.graph.blocked

/-- Whether a fault of an edge concerns some of the tasks. -/
def concerns (ids : List TaskId) : GraphFault → Bool
  | .brokenReference _ edge => ids.contains edge.dependent
  | .selfDependency id => ids.contains id
  | _ => true

/-- Checks the snapshot, or the part of it that concerns some tasks: those that are not loaded, the
unsound edges of the others, and the cycles among them. -/
def validate (a : Analyzer) : Option (List TaskId) → Report
  | none => a.graph.validate a.ranking a.problems
  | some ids =>
    let unknown := (ids.filter fun id => !a.graph.contains id).map .unknownTask
    let part := a.graph.induced ids.contains
    part.validate (.ofGraph part a.compare) (unknown ++ a.problems.filter (concerns ids))

end Analyzer
end Precedence

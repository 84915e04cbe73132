import Precedence.Graph.Schedule
/-!
The critical path: a chain of tasks, each a prerequisite of the next, whose durations have the
greatest sum. Sums stop at the greatest 64-bit word.
-/
namespace Precedence

structure CriticalPath where
  path : List TaskId
  totalDuration : Nat
  deriving DecidableEq, Repr

namespace CriticalPath

def greatest : Nat := UInt64.size - 1

def add (a b : Nat) : Nat := min greatest (a + b)

def document (c : CriticalPath) : Document :=
  .table [("path", .list (c.path.map fun id => .text id.text)),
    ("total_duration", .natural c.totalDuration)]

/-- The heaviest chain that ends in a task, held backwards, and its sum. -/
structure Chain where
  last : TaskId
  before : List TaskId
  finish : Nat

namespace Chain

/-- The chain to go on from: the one with the greater sum, then the better rank of its last task. -/
def better (r : Ranking) (a b : Chain) : Chain :=
  if b.finish < a.finish ∨ (a.finish = b.finish ∧ r.rank a.last < r.rank b.last) then a else b

def best? (r : Ranking) : List Chain → Option Chain
  | [] => none
  | c :: cs => some (cs.foldl (better r) c)

/-- Goes on with a task after the best chain that it can follow. -/
def extend (last : TaskId) (duration : Nat) : Option Chain → Chain
  | none => ⟨last, [], add 0 duration⟩
  | some c => ⟨last, c.last :: c.before, add c.finish duration⟩

def path (c : Chain) : CriticalPath := ⟨(c.last :: c.before).reverse, c.finish⟩

end Chain
end CriticalPath

namespace Graph

open CriticalPath (Chain)

/-- The chains that end in the tasks of an order, given those of the tasks ahead of it. -/
def chainsFrom (g : Graph) (r : Ranking) : List Chain → List TaskId → List Chain
  | known, [] => known
  | known, v :: rest =>
    let ahead := (g.prerequisites v).filterMap fun p => known.find? (·.last == p)
    let duration := ((g.task? v).map fun t => t.duration.toNat).getD 0
    g.chainsFrom r (Chain.extend v duration (Chain.best? r ahead) :: known) rest

/-- Which of two ends to keep, the earlier unless the later has a greater sum, or the same sum and
alone no task after it. -/
def laterEnd (isLast : TaskId → Bool) (a b : Chain) : Chain :=
  if b.finish < a.finish ∨ (a.finish = b.finish ∧ (isLast a.last ∨ !isLast b.last)) then a else b

/-- The tasks that a path may visit between given ends, in load order. -/
def between (g : Graph) (start finish : Option TaskId) : List TaskId :=
  let below := start.map (g.closure .down)
  let above := finish.map (g.closure .up)
  g.ids.filter fun id => below.all (·.contains id) && above.all (·.contains id)

def criticalPath (g : Graph) (r : Ranking) (start finish : Option TaskId) :
    Except GraphFault CriticalPath := do
  start.forM g.require
  finish.forM g.require
  let order ← g.executionOrder r
  let within := g.between start finish
  match start, finish with
  | some s, some f => if !within.contains f then throw (.noPathExists s f)
  | _, _ => pure ()
  let chains := g.chainsFrom r [] (order.filter within.contains)
  let isLast id := !(g.dependents id).any within.contains
  let ends := match finish with
    | some f => chains.filter (·.last = f)
    | none => r.order.filterMap fun id => chains.find? (·.last == id)
  match ends with
  | [] => return ⟨[], 0⟩
  | c :: cs => return (cs.foldl (laterEnd isLast) c).path

end Graph
end Precedence

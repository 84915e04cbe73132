import Precedence.Graph.Cycle
/-!
Schedules: every task after its prerequisites, the most preferred first where there is a choice.
From the schedule come the depth of each task and the levels that can run side by side.
-/
namespace Precedence

structure Countdown where
  /-- How many of the prerequisites of each task are not scheduled. -/
  counters : List (TaskId × Int)
  /-- The ranks of the tasks that can be scheduled, the best one first. -/
  free : List Nat
  order : List TaskId

namespace Countdown

def counter (c : Countdown) (v : TaskId) : Int := (c.counters.lookup v).getD 0

def enqueue (rank : Nat) : List Nat → List Nat
  | [] => [rank]
  | k :: ks => if rank ≤ k then rank :: k :: ks else k :: enqueue rank ks

/-- Counts one prerequisite less for a task, which is free when none is left. -/
def relax (r : Ranking) (c : Countdown) (w : TaskId) : Countdown :=
  let remaining := c.counter w - 1
  { c with
    counters := c.counters.map fun x => if x.1 = w then (w, remaining) else x
    free := if remaining = 0 then enqueue (r.rank w) c.free else c.free }

def start (g : Graph) (r : Ranking) : Countdown :=
  let counters := g.ids.map fun v => (v, ((g.prerequisites v).length : Int))
  { counters
    free := (counters.filter (·.2 = 0)).foldl (fun ks x => enqueue (r.rank x.1) ks) []
    order := [] }

def take (v : TaskId) (free : List Nat) (c : Countdown) : Countdown :=
  { c with free, order := c.order ++ [v] }

def step (g : Graph) (r : Ranking) (c : Countdown) : Option Countdown :=
  match c.free with
  | [] => none
  | k :: free => (r.task? k).map fun v => (g.dependents v).foldl (relax r) (c.take v free)

/-- Schedules tasks until none is free. The first argument bounds their number. -/
def run (g : Graph) (r : Ranking) : Nat → Countdown → Countdown
  | 0, c => c
  | fuel + 1, c =>
    match c.step g r with
    | some c => run g r fuel c
    | none => c

end Countdown

namespace Graph

/-- The tasks in the order of execution. A graph with a cycle has none; the tasks that were not
scheduled stand for the cycle if none is found. -/
def executionOrder (g : Graph) (r : Ranking) : Except GraphFault (List TaskId) :=
  let c := Countdown.run g r g.tasks.length (.start g r)
  if c.order.length < g.tasks.length then
    .error (.circularDependency ((g.findCycle r).getD (g.ids.filter fun v => 0 < c.counter v)))
  else .ok c.order

/-- The depth of each task of an order, given the depths of the tasks ahead of it. -/
def depthsFrom (g : Graph) : List (TaskId × Nat) → List TaskId → List (TaskId × Nat)
  | known, [] => known
  | known, v :: rest =>
    let depth := (g.prerequisites v).foldl (fun d p => max d ((known.lookup p).getD 0 + 1)) 0
    g.depthsFrom ((v, depth) :: known) rest

/-- The depth of each task in load order: zero without prerequisites, else one more than that of its
deepest prerequisite. -/
def depths (g : Graph) (r : Ranking) : Except GraphFault (List (TaskId × Nat)) := do
  let known := g.depthsFrom [] (← g.executionOrder r)
  return g.ids.map fun id => (id, (known.lookup id).getD 0)

/-- Puts a task at the end of its level. Where there are too few levels, empty ones are added. -/
def enlist (depth : TaskId → Nat) (levels : List (List TaskId)) (id : TaskId) :
    List (List TaskId) :=
  (levels ++ List.replicate (depth id + 1 - levels.length) []).modify (depth id) (· ++ [id])

def levels (g : Graph) (r : Ranking) : Except GraphFault (List (List TaskId)) := do
  let known := g.depthsFrom [] (← g.executionOrder r)
  return r.order.foldl (enlist fun id => (known.lookup id).getD 0) []

end Graph
end Precedence

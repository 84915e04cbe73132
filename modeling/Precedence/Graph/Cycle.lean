import Precedence.Graph.Walk
/-!
Cycles: a depth-first search that finds one, and one witness for each knot, a set of several tasks
that all depend on each other.
-/
namespace Precedence

/-- How far a search has come with a task that it has met. -/
inductive Mark where
  | inProgress
  | done
  deriving DecidableEq, Repr

structure Search where
  /-- The marks of the tasks that were met; the first one of a task is the latest. -/
  marks : List (TaskId × Mark) := []
  /-- The path from a root, held backwards, each task with its successors that were not looked
  at. -/
  stack : List (TaskId × List TaskId) := []

namespace Search

def mark? (s : Search) (v : TaskId) : Option Mark := s.marks.lookup v

def path (s : Search) : List TaskId := (s.stack.map (·.1)).reverse

def enter (next : TaskId → List TaskId) (s : Search) (v : TaskId) : Search :=
  ⟨(v, .inProgress) :: s.marks, (v, next v) :: s.stack⟩

def pathFrom? (s : Search) (v : TaskId) : Option (List TaskId) :=
  (s.path.findIdx? (· == v)).map s.path.drop

/-- Looks at the next successor of the last task on the path, or is done with the task. A successor
that is in progress ends the search. -/
def step (next : TaskId → List TaskId) (s : Search) : Except (Option (List TaskId)) Search :=
  match s.stack with
  | [] => .ok s
  | (v, []) :: below => .ok ⟨(v, .done) :: s.marks, below⟩
  | (v, w :: ws) :: below =>
    let s := { s with stack := (v, ws) :: below }
    match s.mark? w with
    | none => .ok (s.enter next w)
    | some .inProgress => .error (s.pathFrom? w)
    | some .done => .ok s

/-- Takes steps until nothing is left on the path. The first argument bounds their number. -/
def finish (next : TaskId → List TaskId) : Nat → Search → Except (Option (List TaskId)) Search
  | 0, s => .ok s
  | fuel + 1, s => if s.stack.isEmpty then .ok s else s.step next >>= finish next fuel

def visit (next : TaskId → List TaskId) (fuel : Nat) (s : Search) (root : TaskId) :
    Except (Option (List TaskId)) Search :=
  if (s.mark? root).isSome then .ok s else finish next fuel (s.enter next root)

end Search

namespace Graph

def successors (g : Graph) (r : Ranking) (member : TaskId → Bool) (v : TaskId) : List TaskId :=
  r.sort ((g.dependents v).filter member)

/-- A bound for the steps of a search: each task is entered once, and looks at each task once. -/
def searchBound (g : Graph) : Nat := (g.tasks.length + 1) * (g.tasks.length + 2)

def search (g : Graph) (r : Ranking) (member : TaskId → Bool) (roots : List TaskId) :
    Option (List TaskId) :=
  match roots.foldlM (Search.visit (g.successors r member) g.searchBound) {} with
  | .ok _ => none
  | .error found => found

def findCycle (g : Graph) (r : Ranking) : Option (List TaskId) := g.search r (fun _ => true) r.order

def checkAcyclic (g : Graph) (r : Ranking) : Except GraphFault Unit :=
  match g.findCycle r with
  | some cycle => .error (.circularDependency cycle)
  | none => .ok ()

/-- The tasks that a task reaches and that reach it, in the order of their ranks. -/
def component (g : Graph) (r : Ranking) (v : TaskId) : List TaskId :=
  let below := g.closure .down v
  let above := g.closure .up v
  r.sort (below.filter above.contains)

/-- The components of more than one task, in the order of their best ranks. -/
def knotsAmong (g : Graph) (r : Ranking) : List TaskId → List TaskId → List (List TaskId)
  | _, [] => []
  | seen, v :: rest =>
    if v ∈ seen then g.knotsAmong r seen rest
    else
      match g.component r v with
      | a :: b :: others => (a :: b :: others) :: g.knotsAmong r (seen ++ a :: b :: others) rest
      | _ => g.knotsAmong r seen rest

def knots (g : Graph) (r : Ranking) : List (List TaskId) := g.knotsAmong r [] r.order

/-- A cycle in each knot, found from its best-ranked task. Where there is no cycle there is no
knot. -/
def cycles (g : Graph) (r : Ranking) : List (List TaskId) :=
  if (g.findCycle r).isNone then []
  else (g.knots r).filterMap fun knot => g.search r knot.contains (knot.take 1)

end Graph

structure Report where
  faults : List GraphFault
  deriving DecidableEq, Repr

namespace Report

def isValid (r : Report) : Bool := r.faults.isEmpty

def document (r : Report) : Document :=
  .table [("valid", .boolean r.isValid), ("errors", .list (r.faults.map GraphFault.document))]

end Report

/-- Checks a graph: what was wrong with its edges, then a witness for each knot. -/
def Graph.validate (g : Graph) (r : Ranking) (problems : List GraphFault) : Report :=
  ⟨problems ++ (g.cycles r).map .circularDependency⟩

end Precedence

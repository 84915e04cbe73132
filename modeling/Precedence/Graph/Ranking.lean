import Precedence.Graph.Basic
/-!
Rankings: the order of preference among the tasks of a graph. Every choice between tasks is made by
rank, so one comparison of tasks decides all of them.
-/
namespace Precedence

inductive TieBreak where
  /-- Earlier creation first, then the lower identifier. -/
  | createdAt
  | id
  deriving DecidableEq, Repr

namespace TieBreak

def name : TieBreak → String
  | createdAt => "created_at"
  | id => "id"

def ofName? (s : String) : Option TieBreak := [createdAt, id].find? fun x => x.name == s

end TieBreak

abbrev Comparison := Task → Task → Ordering

/-- Higher priority first, then the tie-break, then the lower identifier. -/
def TieBreak.compare (tieBreak : TieBreak) : Comparison := fun a b =>
  (Ord.compare b.priority.level a.priority.level).then
    ((match tieBreak with
      | .createdAt => a.createdAt.compare b.createdAt
      | .id => .eq).then (a.id.compare b.id))

/-- The tasks of a graph from the most to the least preferred. -/
structure Ranking where
  order : List TaskId

namespace Ranking

/-- Sorts the tasks of a graph; tasks that compare as equal stay in load order. -/
def ofGraph (g : Graph) (compare : Comparison) : Ranking :=
  ⟨(g.tasks.mergeSort fun a b => compare a b != .gt).map Task.id⟩

/-- The rank of a task: how many are preferred to it. -/
def rank (r : Ranking) (id : TaskId) : Nat := r.order.idxOf id

def task? (r : Ranking) (rank : Nat) : Option TaskId := r.order[rank]?

/-- Notes a rank in the place where a task was loaded. -/
def note (g : Graph) (ranks : List Nat) (id : TaskId) (rank : Nat) : List Nat :=
  ((g.index? id).map (ranks.set · rank)).getD ranks

/-- The ranks of all tasks of a graph in load order, noted in one pass over the ranking. -/
def ranks (r : Ranking) (g : Graph) : List Nat :=
  r.order.zipIdx.foldl (fun ranks (id, rank) => note g ranks id rank)
    (List.replicate g.tasks.length 0)

def sort (r : Ranking) (ids : List TaskId) : List TaskId :=
  ids.mergeSort fun a b => r.rank a ≤ r.rank b

end Ranking
end Precedence

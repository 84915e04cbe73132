import Precedence.Task.Basic
/-! Snapshots: the tasks and edges that an analysis works on, and the sources they are loaded
from. -/
namespace Precedence

structure Snapshot where
  tasks : List Task := []
  edges : List Edge := []

/-- Where tasks and edges come from, with a revision that changes whenever they do; without a
revision nothing may be kept. Each part may fail to load. -/
structure Source (ε : Type) where
  tasks : Except ε (List Task)
  edges : Except ε (List Edge)
  revision : Except ε (Option String)

namespace Snapshot

def ofTasks (tasks : List Task) : Snapshot := ⟨tasks, tasks.flatMap Task.edges⟩

def source (s : Snapshot) {ε : Type} : Source ε := ⟨.ok s.tasks, .ok s.edges, .ok none⟩

end Snapshot

namespace Source

variable {ε : Type}

def loadTasks (s : Source ε) (ids : Option (List TaskId)) : Except ε (List Task) :=
  s.tasks.map fun tasks => tasks.filter fun t => ids.all (·.contains t.id)

def loadEdges (s : Source ε) (ids : Option (List TaskId)) : Except ε (List Edge) :=
  s.edges.map fun edges => edges.filter fun e => ids.all (·.contains e.dependent)

def snapshot (s : Source ε) : Except ε Snapshot := do
  let tasks ← s.tasks
  let edges ← s.edges
  return ⟨tasks, edges⟩

end Source
end Precedence

import Precedence.Json.Parser
import Precedence.Json.Printer
import Precedence.Replica.Image
/-! The text that keeps a replica between runs: its tables as one JSON value. -/
namespace Precedence

namespace Cell

/-- A cell as a value; a number that is no integer stands in a list. -/
def document : Cell → Document
  | .integer n => .integer n
  | .real literal => .list [.text literal]
  | .text s => .text s

def ofDocument? : Document → Option Cell
  | .integer n => some (.integer n)
  | .list [.text literal] => some (.real literal)
  | .text s => some (.text s)
  | _ => none

@[simp] theorem ofDocument?_document (c : Cell) : ofDocument? c.document = some c := by
  cases c <;> rfl

end Cell

namespace Replica

def optional {α : Type} (f : α → Document) : Option α → Document
  | none => .null
  | some a => f a

def optional? {α : Type} (f : Document → Option α) : Document → Option (Option α)
  | .null => some none
  | d => (f d).map some

def text? : Document → Option String
  | .text s => some s
  | _ => none

end Replica

namespace TaskRow

def document (r : TaskRow Cell) : Document :=
  .list [.integer r.place, .text r.id, .text r.description, .text r.status, r.priority.document,
    Replica.optional Cell.document r.estimatedDuration, Replica.optional .text r.parent,
    r.depth.document, .text r.origin, .text r.createdAt, .text r.updatedAt,
    Replica.optional .text r.completedAt]

def ofDocument? : Document → Option (TaskRow Cell)
  | .list [.integer place, .text id, .text description, .text status, priority, duration, parent,
      depth, .text origin, .text createdAt, .text updatedAt, completedAt] => do
    return {
      place, id, description, status, origin, createdAt, updatedAt
      priority := ← Cell.ofDocument? priority
      estimatedDuration := ← Replica.optional? Cell.ofDocument? duration
      parent := ← Replica.optional? Replica.text? parent
      depth := ← Cell.ofDocument? depth
      completedAt := ← Replica.optional? Replica.text? completedAt }
  | _ => none

end TaskRow

namespace EdgeRow

def document (r : EdgeRow) : Document :=
  .list [.text r.dependent, .text r.prerequisite, .natural r.position]

def ofDocument? : Document → Option EdgeRow
  | .list [.text dependent, .text prerequisite, .integer position] =>
    some ⟨dependent, prerequisite, position.toNat⟩
  | _ => none

@[simp] theorem ofDocument?_document (r : EdgeRow) : ofDocument? r.document = some r := rfl

end EdgeRow

namespace Replica

def document (r : Replica) : Document :=
  .table [("tasks", .list (r.tasks.map TaskRow.document)),
    ("edges", .list (r.edges.map EdgeRow.document)), ("revision", optional .text r.revision)]

def ofDocument? : Document → Option Replica
  | .table [("tasks", .list tasks), ("edges", .list edges), ("revision", revision)] => do
    return {
      tasks := ← tasks.mapM TaskRow.ofDocument?
      edges := ← edges.mapM EdgeRow.ofDocument?
      revision := ← optional? text? revision }
  | _ => none

namespace Image

def document (i : Image) : Document :=
  .table [("layout", .integer i.version), ("tables", optional Replica.document i.tables),
    ("logs", .boolean i.logs)]

def ofDocument? : Document → Option Image
  | .table [("layout", .integer version), ("tables", tables), ("logs", .boolean logs)] => do
    return { version, tables := ← optional? Replica.ofDocument? tables, logs }
  | _ => none

def content (i : Image) : Bytes := Bytes.ofText (Json.print i.document ++ "\n")

def ofContent? (content : Bytes) : Option Image :=
  ((Bytes.text? content).bind Json.parse?).bind ofDocument?

end Image
end Replica
end Precedence

import Precedence.Json.Printer
import Precedence.Task.Basic
/-! The record of a task: the fields in which it is written, in their order, as a JSON object. -/
namespace Precedence

inductive Field where
  | id
  | description
  | status
  | priority
  | estimatedDuration
  | parent
  | depth
  | origin
  | dependsOn
  | createdAt
  | updatedAt
  | completedAt
  deriving DecidableEq, Repr

namespace Field

def all : List Field :=
  [id, description, status, priority, estimatedDuration, parent, depth, origin, dependsOn,
    createdAt, updatedAt, completedAt]

def key : Field → String
  | id => "id"
  | description => "description"
  | status => "status"
  | priority => "priority"
  | estimatedDuration => "estimated_duration"
  | parent => "parent"
  | depth => "depth"
  | origin => "origin"
  | dependsOn => "depends_on"
  | createdAt => "created_at"
  | updatedAt => "updated_at"
  | completedAt => "completed_at"

def ofKey? (s : String) : Option Field := all.find? fun f => f.key == s

@[simp] theorem ofKey?_key (f : Field) : ofKey? f.key = some f := by cases f <;> decide

/-- What a record holds in a field; nothing where the field is left out. -/
def value? (t : Task) : Field → Option Document
  | id => some (.text t.id.text)
  | description => some (.text t.description)
  | status => some (.text t.status.name)
  | priority => some (.natural t.priority.level)
  | estimatedDuration => t.estimatedDuration.map fun d => .natural d.toNat
  | parent => t.parent.map fun p => .text p.text
  | depth => some (.natural t.depth.toNat)
  | origin => some (.text t.origin.name)
  | dependsOn =>
    if t.dependsOn = [] then none else some (.list (t.dependsOn.map fun p => .text p.text))
  | createdAt => some (.text t.createdAt.recordText)
  | updatedAt => some (.text t.updatedAt.recordText)
  | completedAt => t.completedAt.map fun c => .text c.recordText

end Field

namespace Task

def document (t : Task) : Document :=
  .table (Field.all.filterMap fun f => (f.value? t).map fun d => (f.key, d))

def record (t : Task) : String := Json.print t.document

end Task
end Precedence

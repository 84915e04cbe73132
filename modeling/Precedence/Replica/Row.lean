import Precedence.Replica.Cell
import Precedence.Task.Basic
import Precedence.Time.Reader
/-!
Rows of the replica: a task in one row, without its prerequisites, and each prerequisite in a row of
its own. Durations take all of an unsigned word, and columns hold signed words, so a duration is
stored as the signed word with the same bits.
-/
namespace Precedence

structure TaskRow (ν : Type) where
  /-- The place among the rows. -/
  place : Int
  id : String
  description : String
  status : String
  priority : ν
  estimatedDuration : Option ν
  parent : Option String
  depth : ν
  origin : String
  createdAt : String
  updatedAt : String
  completedAt : Option String
  deriving DecidableEq, Repr

structure EdgeRow where
  dependent : String
  prerequisite : String
  /-- The place among the prerequisites of the dependent. -/
  position : Nat
  deriving DecidableEq, Repr

/-- A cell in a column of integers that holds something else. -/
structure BadCell where
  index : Nat
  column : String
  kind : String
  deriving DecidableEq, Repr

def BadCell.message (b : BadCell) : String :=
  "Invalid column type " ++ b.kind ++ " at index: " ++ Text.decimalText b.index ++ ", name: " ++
    b.column

def Cell.inColumn (index : Nat) (column : String) (cell : Cell) : Except BadCell Int :=
  match cell.integer? with
  | some n => .ok n
  | none => .error ⟨index, column, cell.kind⟩

inductive RowFault where
  | id (fault : TaskId.Fault)
  | status (raw : String)
  | origin (raw : String)
  | priority (n : Int)
  | time (raw : String) (fault : Instant.Fault)
  deriving DecidableEq, Repr

def RowFault.message : RowFault → String
  | .id fault => fault.message
  | .status raw => Status.unknown raw
  | .origin raw => Origin.unknown raw
  | .priority n => "priority " ++ Text.integerText n ++ " out of range"
  | .time raw fault => "bad timestamp '" ++ raw ++ "': " ++ fault.message

namespace TaskRow

/-- The signed word with the bits of a duration. -/
def signedDuration (d : UInt64) : Int := Int.bmod d.toNat UInt64.size

def unsignedDuration (n : Int) : UInt64 := UInt64.ofNat (n % UInt64.size).toNat

@[simp] theorem unsignedDuration_signedDuration (d : UInt64) :
    unsignedDuration (signedDuration d) = d := by
  have h : d.toNat < UInt64.size := d.toNat_lt
  unfold unsignedDuration signedDuration
  generalize UInt64.size = size at *
  rw [Int.bmod_emod, Int.emod_eq_of_lt (Int.natCast_nonneg _) (Int.ofNat_lt.2 h),
    Int.toNat_natCast, UInt64.ofNat_toNat]

def ofTask (place : Nat) (t : Task) : TaskRow Cell where
  place
  id := t.id.text
  description := t.description
  status := t.status.name
  priority := .integer t.priority.level
  estimatedDuration := t.estimatedDuration.map fun d => .integer (signedDuration d)
  parent := t.parent.map TaskId.text
  depth := .integer t.depth.toNat
  origin := t.origin.name
  createdAt := t.createdAt.rowText
  updatedAt := t.updatedAt.rowText
  completedAt := t.completedAt.map Instant.rowText

/-- The row with the integers in its cells; of several that hold something else the first counts. -/
def integers (r : TaskRow Cell) : Except BadCell (TaskRow Int) := do
  let priority ← r.priority.inColumn 3 "priority"
  let estimatedDuration ← match r.estimatedDuration with
    | none => pure none
    | some cell => some <$> cell.inColumn 4 "estimated_duration"
  let depth ← r.depth.inColumn 6 "depth"
  return { r with priority, estimatedDuration, depth }

def optionM {α β : Type} (f : α → Except RowFault β) :
    Option α → Except RowFault (Option β)
  | none => .ok none
  | some a => (f a).map some

def id? (raw : String) : Except RowFault TaskId :=
  match TaskId.parse raw with
  | .ok id => .ok id
  | .error fault => .error (.id fault)

def time? (raw : String) : Except RowFault Instant :=
  (Instant.ofRowText raw).mapError (.time raw)

/-- The task of a row with the given prerequisites; of several faults the first one counts. A depth
below zero counts as zero, and one beyond a word of 32 bits loses its high bits. -/
def task (r : TaskRow Int) (dependsOn : List TaskId) : Except RowFault Task := do
  let id ← id? r.id
  let status ← match Status.parse? r.status with
    | some x => pure x
    | none => throw (.status r.status)
  let origin ← match Origin.parse? r.origin with
    | some x => pure x
    | none => throw (.origin r.origin)
  let priority ← match (if 0 ≤ r.priority then Priority.ofLevel? r.priority.toNat else none) with
    | some p => pure p
    | none => throw (.priority r.priority)
  let parent ← optionM id? r.parent
  let createdAt ← time? r.createdAt
  let updatedAt ← time? r.updatedAt
  let completedAt ← optionM time? r.completedAt
  return {
    id, description := r.description, status, priority
    estimatedDuration := r.estimatedDuration.map unsignedDuration
    parent, depth := UInt32.ofNat r.depth.toNat, origin, dependsOn
    createdAt, updatedAt, completedAt }

end TaskRow

namespace EdgeRow

def ofTask (t : Task) : List EdgeRow :=
  t.dependsOn.zipIdx.map fun (p, position) => ⟨t.id.text, p.text, position⟩

def edge (r : EdgeRow) : Except TaskId.Fault Edge := do
  let dependent ← TaskId.parse r.dependent
  let prerequisite ← TaskId.parse r.prerequisite
  return ⟨dependent, prerequisite⟩

end EdgeRow
end Precedence

import Precedence.Task.Id
import Precedence.Task.Status
/-! Tasks and their prerequisite edges, and the changes that a task can go through. Each change
takes the moment at which it is made. -/
namespace Precedence

/-- How urgent a task is, from zero to ten; higher goes first. -/
structure Priority where
  level : Nat
  level_le : level ≤ 10
  deriving DecidableEq, Repr

namespace Priority

def ofLevel? (n : Nat) : Option Priority := if h : n ≤ 10 then some ⟨n, h⟩ else none

@[simp] theorem ofLevel?_level (p : Priority) : ofLevel? p.level = some p := by
  simp [ofLevel?, p.level_le]

def default : Priority := ⟨5, by decide⟩

def outOfRange (n : Nat) : String :=
  "Priority " ++ Text.decimalText n ++ " is out of range (0-10)"

end Priority

/-- A prerequisite edge: the dependent cannot start before the prerequisite is completed. -/
structure Edge where
  dependent : TaskId
  prerequisite : TaskId
  deriving DecidableEq, Repr

namespace Edge

def isSelf (e : Edge) : Bool := e.dependent == e.prerequisite

def text (e : Edge) : String := e.dependent.text ++ " depends on " ++ e.prerequisite.text

end Edge

structure Task where
  id : TaskId
  description : String
  status : Status := .pending
  priority : Priority := .default
  /-- Seconds; absent counts as zero. -/
  estimatedDuration : Option UInt64 := none
  /-- Grouping only, not a dependency. -/
  parent : Option TaskId := none
  /-- The longest distance from a task without prerequisites, as last recorded. -/
  depth : UInt32 := 0
  origin : Origin := .agent
  dependsOn : List TaskId := []
  createdAt : Instant
  updatedAt : Instant
  completedAt : Option Instant := none
  deriving DecidableEq

namespace Task

def create (id : TaskId) (description : String) (now : Instant) : Task :=
  { id, description, createdAt := now, updatedAt := now }

def duration (t : Task) : UInt64 := t.estimatedDuration.getD 0

def edges (t : Task) : List Edge := t.dependsOn.map fun p => ⟨t.id, p⟩

def setStatus (t : Task) (x : Status) (now : Instant) : Task :=
  { t with status := x, updatedAt := now }

def start (t : Task) (now : Instant) : Task := t.setStatus .running now

def complete (t : Task) (now : Instant) : Task :=
  { t.setStatus .completed now with completedAt := some now }

def fail (t : Task) (now : Instant) : Task := t.setStatus .failed now

def cancel (t : Task) (now : Instant) : Task := t.setStatus .cancelled now

def block (t : Task) (now : Instant) : Task := t.setStatus .blocked now

def markReady (t : Task) (now : Instant) : Task := t.setStatus .ready now

def reopen (t : Task) (now : Instant) : Task :=
  { t.setStatus .pending now with completedAt := none }

/-- Adds a prerequisite at the end, unless the task names it already. -/
def addDependency? (t : Task) (p : TaskId) (now : Instant) : Option Task :=
  if p ∈ t.dependsOn then none
  else some { t with dependsOn := t.dependsOn ++ [p], updatedAt := now }

/-- Removes every mention of a prerequisite, if there is one. -/
def removeDependency? (t : Task) (p : TaskId) (now : Instant) : Option Task :=
  if p ∈ t.dependsOn then
    some { t with dependsOn := t.dependsOn.filter (· ≠ p), updatedAt := now }
  else none

def setPriority (t : Task) (p : Priority) (now : Instant) : Task :=
  { t with priority := p, updatedAt := now }

def setDuration (t : Task) (seconds : Option UInt64) (now : Instant) : Task :=
  { t with estimatedDuration := seconds, updatedAt := now }

def setDescription (t : Task) (description : String) (now : Instant) : Task :=
  { t with description, updatedAt := now }

end Task
end Precedence

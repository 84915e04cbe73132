import Precedence.Text.Blank
/-! The stages of a task's life and who created it: closed sets of names. -/
namespace Precedence

inductive Status where
  | pending
  | blocked
  | ready
  | running
  | completed
  | failed
  | cancelled
  deriving DecidableEq, Repr

namespace Status

def all : List Status := [pending, blocked, ready, running, completed, failed, cancelled]

def name : Status → String
  | pending => "pending"
  | blocked => "blocked"
  | ready => "ready"
  | running => "running"
  | completed => "completed"
  | failed => "failed"
  | cancelled => "cancelled"

def ofName? (s : String) : Option Status := all.find? fun x => x.name == s

@[simp] theorem ofName?_name (x : Status) : ofName? x.name = some x := by cases x <;> decide

def isComplete (x : Status) : Bool := x == completed

/-- Not to run again. -/
def isTerminal (x : Status) : Bool := x == completed || x == failed || x == cancelled

def isActive (x : Status) : Bool := x == running

def parse? (raw : String) : Option Status := ofName? (Text.trim raw)

/-- What is said of a text that names no stage: it is shown as given. -/
def unknown (raw : String) : String := "Unknown task status: " ++ raw

end Status

inductive Origin where
  | human
  | agent
  | system
  deriving DecidableEq, Repr

namespace Origin

def all : List Origin := [human, agent, system]

def name : Origin → String
  | human => "human"
  | agent => "agent"
  | system => "system"

def ofName? (s : String) : Option Origin := all.find? fun x => x.name == s

@[simp] theorem ofName?_name (x : Origin) : ofName? x.name = some x := by cases x <;> decide

def parse? (raw : String) : Option Origin := ofName? (Text.trim raw)

/-- What is said of a text that names no origin: it is shown without the blanks around it. -/
def unknown (raw : String) : String := "Unknown task origin: " ++ Text.trim raw

end Origin
end Precedence

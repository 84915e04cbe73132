import Precedence.Settings
/-! Commands: what can be asked for at the command line, with identifiers still as typed. -/
namespace Precedence

/-- A change of status that has a command of its own. -/
inductive Transition where
  | start
  | done
  | fail
  | cancel
  | block
  | reopen
  deriving DecidableEq, Repr

namespace Transition

def all : List Transition := [start, done, fail, cancel, block, reopen]

def name : Transition → String
  | start => "start"
  | done => "done"
  | fail => "fail"
  | cancel => "cancel"
  | block => "block"
  | reopen => "reopen"

def past : Transition → String
  | start => "Started"
  | done => "Completed"
  | fail => "Failed"
  | cancel => "Cancelled"
  | block => "Blocked"
  | reopen => "Reopened"

def apply : Transition → Task → Instant → Task
  | start => Task.start
  | done => Task.complete
  | fail => Task.fail
  | cancel => Task.cancel
  | block => Task.block
  | reopen => Task.reopen

end Transition

structure NewTask where
  description : String
  id : Option String := none
  priority : Option Nat := none
  duration : Option Nat := none
  parent : Option String := none
  origin : Option Origin := none
  after : List String := []
  deriving DecidableEq, Repr

structure TaskChange where
  priority : Option Nat := none
  duration : Option Nat := none
  description : Option String := none
  deriving DecidableEq, Repr

inductive TaskCommand where
  | add (new : NewTask)
  | list (status : Option Status)
  | describe (id : String)
  | move (transition : Transition) (id : String)
  | set (id : String) (change : TaskChange)
  | depend (dependent prerequisite : String)
  | undepend (dependent prerequisite : String)
  deriving DecidableEq, Repr

inductive ReplicaCommand where
  | rebuild
  | status
  | clear
  deriving DecidableEq, Repr

inductive Command where
  | init (path : String)
  | task (c : TaskCommand)
  | ready
  | blocked
  | status
  | order (ids : List String)
  | levels
  | relatives (direction : Direction) (id : String) (maxDepth : Option Int)
  | orphans (rule : Option OrphanRule) (includeHuman : Bool)
  | leaves (status : Option Status)
  | criticalPath (start finish : Option String)
  | validate (ids : List String)
  | replica (c : ReplicaCommand)
  deriving DecidableEq, Repr

structure Invocation where
  /-- Unless given, that of the user's settings. -/
  format : Option OutputFormat
  verbose : Bool
  /-- Unless given, that of the project's settings. -/
  backend : Option Backend
  command : Command
  deriving DecidableEq, Repr

end Precedence

import Precedence.Document
import Precedence.Task.Basic
/-! What can be wrong with a graph, or with a question asked of it. -/
namespace Precedence

inductive ParameterFault where
  | id (fault : TaskId.Fault)
  | priority (level : Nat)
  | negativeDepth (depth : Int)
  | depthAboveLimit (depth limit : Nat)
  deriving DecidableEq, Repr

def ParameterFault.message : ParameterFault → String
  | .id fault => fault.message
  | .priority level => "priority must be between 0 and 10, got " ++ Text.decimalText level
  | .negativeDepth depth => "max_depth must not be negative (got " ++ Text.integerText depth ++ ")"
  | .depthAboveLimit depth limit =>
    "max_depth " ++ Text.decimalText depth ++ " exceeds the limit of " ++ Text.decimalText limit

inductive GraphFault where
  | unknownTask (id : TaskId)
  | brokenReference (missing : TaskId) (edge : Edge)
  | selfDependency (id : TaskId)
  /-- Each task of the cycle is a prerequisite of the next, and the last of the first. -/
  | circularDependency (cycle : List TaskId)
  | noPathExists (start finish : TaskId)
  | invalidParameter (fault : ParameterFault)
  deriving DecidableEq, Repr

namespace GraphFault

/-- A cycle in words, with its first task repeated at the end. -/
def cycleText (cycle : List TaskId) : String :=
  " -> ".intercalate ((cycle ++ cycle.take 1).map TaskId.text)

def kind : GraphFault → String
  | unknownTask .. => "unknown_task"
  | brokenReference .. => "broken_reference"
  | selfDependency .. => "self_dependency"
  | circularDependency .. => "circular_dependency"
  | noPathExists .. => "no_path_exists"
  | invalidParameter .. => "invalid_parameter"

def message : GraphFault → String
  | unknownTask id => "Task not found: " ++ id.text
  | brokenReference missing edge =>
    "Broken reference to missing task " ++ missing.text ++ " (" ++ edge.text ++ ")"
  | selfDependency id => "Self-dependency not allowed: " ++ id.text
  | circularDependency cycle => "Circular dependency detected: " ++ cycleText cycle
  | noPathExists start finish => "No path exists from " ++ start.text ++ " to " ++ finish.text
  | invalidParameter fault => "Invalid parameter: " ++ fault.message

def idValue (id : TaskId) : Document := .text id.text

def fields : GraphFault → List (String × Document)
  | unknownTask id => [("id", idValue id)]
  | brokenReference missing edge =>
    [("missing", idValue missing),
      ("edge", .table [("dependent", idValue edge.dependent),
        ("prerequisite", idValue edge.prerequisite)])]
  | selfDependency id => [("id", idValue id)]
  | circularDependency cycle => [("cycle", .list (cycle.map idValue))]
  | noPathExists start finish => [("start", idValue start), ("end", idValue finish)]
  | invalidParameter fault => [("message", .text fault.message)]

def document (f : GraphFault) : Document := .table (("kind", .text f.kind) :: f.fields)

end GraphFault

def TaskId.ofParameter (raw : String) : Except GraphFault TaskId :=
  match TaskId.parse raw with
  | .ok id => .ok id
  | .error fault => .error (.invalidParameter (.id fault))

def Priority.ofParameter (level : Nat) : Except GraphFault Priority :=
  match Priority.ofLevel? level with
  | some p => .ok p
  | none => .error (.invalidParameter (.priority level))

end Precedence

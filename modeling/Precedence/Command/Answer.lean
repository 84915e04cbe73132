import Precedence.Failure
import Precedence.Json.Printer
import Precedence.Text.Column
/-! Answers of commands: the same result as lines of text and as one JSON value. -/
namespace Precedence

/-- What a command answers. -/
structure Answer where
  lines : List String
  value : Document
  /-- A result that is shown and yet counts as a failure. -/
  failure : Option Failure := none

namespace Answer

def sentence (s : String) : Answer :=
  { lines := [s], value := .table [("message", .text s), ("success", .boolean true)] }

def render (a : Answer) : OutputFormat → String
  | .text => Text.block a.lines
  | .json => Json.print a.value ++ "\n"

def count (n : Nat) : String := Text.decimalText n

def ids (l : List TaskId) : Document := .list (l.map fun id => .text id.text)

def joined (l : List TaskId) : String := ", ".intercalate (l.map TaskId.text)

def idCell (id : TaskId) : String := Text.padLeft 20 id.text

/-- The number of tasks of each status as a value, with the statuses sorted by name. -/
def byStatus (count : Status → Nat) : Document :=
  (Document.table (Status.all.map fun x => (x.name, .natural (count x)))).sortKeys

end Answer
end Precedence

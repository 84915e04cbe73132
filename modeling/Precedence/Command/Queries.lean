import Precedence.Command.Basic
import Precedence.Command.Views
import Precedence.Project
/-!
Commands that ask the analyzer of a project. Identifiers are read before the project is opened.
Readiness can be asked for also when the graph is unsound; everything else is refused then.
-/
namespace Precedence.Command

def settle {α : Type} : Except GraphFault α → Action α
  | .ok a => pure a
  | .error fault => throw (.graph fault)

def typedId (raw : String) : Action TaskId := settle (TaskId.ofParameter raw)

def analyzerHere (env : Environment) (backend : Option Backend) : Action Analyzer := do
  let project ← Project.openHere env
  let (issue, _) ← project.analyzer backend
  return issue.analyzer

/-- The policy in force: that of the settings, with another rule or with humans let in if asked
for. -/
def policyInForce (policy : OrphanPolicy) (rule : Option OrphanRule) (includeHuman : Bool) :
    OrphanPolicy where
  rule := rule.getD policy.rule
  excludeOrigins :=
    if includeHuman then policy.excludeOrigins.filter (· ≠ .human) else policy.excludeOrigins

/-- Some identifiers, or none at all where the list is empty. -/
def restriction (l : List TaskId) : Option (List TaskId) := if l.isEmpty then none else some l

def runOrder (env : Environment) (backend : Option Backend) (raws : List String) :
    Action Answer := do
  let subset ← raws.mapM typedId
  let a ← analyzerHere env backend
  return .order a (← settle (a.executionOrder (restriction subset)))

def runRelatives (env : Environment) (backend : Option Backend) (direction : Direction)
    (raw : String) (maxDepth : Option Int) : Action Answer := do
  let seed ← typedId raw
  let a ← analyzerHere env backend
  return .relatives a direction (← settle (a.walk direction seed maxDepth))

def runOrphans (env : Environment) (backend : Option Backend) (rule : Option OrphanRule)
    (includeHuman : Bool) : Action Answer := do
  let a ← analyzerHere env backend
  return .orphans a (← settle (a.orphans (policyInForce a.options.orphans rule includeHuman)))

def runCriticalPath (env : Environment) (backend : Option Backend) (start finish : Option String) :
    Action Answer := do
  let start ← start.mapM typedId
  let finish ← finish.mapM typedId
  let a ← analyzerHere env backend
  return .criticalPath a (← settle (a.criticalPath start finish))

def runValidate (env : Environment) (backend : Option Backend) (raws : List String) :
    Action Answer := do
  let subset ← raws.mapM typedId
  let a ← analyzerHere env backend
  return .validity a (a.validate (restriction subset))

end Precedence.Command

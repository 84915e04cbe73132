import Precedence.Command.Arguments
import Precedence.Command.Replicas
import Precedence.Command.Tasks
/-! Running a command line: what it writes, the code it ends with, and the disk that it leaves. -/
namespace Precedence

/-- What a command line leaves behind apart from the disk. -/
structure Outcome where
  code : Nat
  stdout : String
  stderr : String
  deriving DecidableEq, Repr

/-- The moment at which a command runs and the nanoseconds that its longest step takes. -/
structure Clock where
  now : Instant
  elapsed : Nat

namespace Command

def run (env : Environment) (clock : Clock) (backend : Option Backend) : Command → Action Answer
  | .init path => do
    let project ← Project.init env ⟨path, env.here.location⟩
    return .sentence ("Initialized dagplan project at " ++ project.root.text)
  | .task c => runTask env clock.now c
  | .ready => do return .ready (← analyzerHere env backend)
  | .blocked => do return .blocked (← analyzerHere env backend)
  | .status => do return .status (← analyzerHere env backend)
  | .order raws => runOrder env backend raws
  | .levels => do return .levels (← settle (← analyzerHere env backend).levels)
  | .relatives direction raw maxDepth => runRelatives env backend direction raw maxDepth
  | .orphans rule includeHuman => runOrphans env backend rule includeHuman
  | .leaves x => do
    let a ← analyzerHere env backend
    return .leaves a (← settle (a.leaves x))
  | .criticalPath start finish => runCriticalPath env backend start finish
  | .validate raws => runValidate env backend raws
  | .replica c => runReplica env clock.elapsed c

end Command

namespace Invocation

/-- The format that is asked for, or else that of the user's settings; text if these cannot be
read. -/
def formatInForce (i : Invocation) (env : Environment) (d : Disk) : OutputFormat :=
  i.format.getD (((Configuration.loadUser env d).toOption.getD {}).defaultFormat)

def run (i : Invocation) (env : Environment) (clock : Clock) (d : Disk) : Outcome × Disk :=
  let failed (f : Failure) (stdout : String) : Outcome :=
    { code := 1, stdout, stderr := "Error: " ++ f.chain ++ "\n" }
  match i.command.run env clock i.backend d with
  | (.error f, after) => (failed f "", after)
  | (.ok answer, after) =>
    let stdout := answer.render (i.formatInForce env d)
    match answer.failure with
    | some f => (failed f stdout, after)
    | none => ({ code := 0, stdout, stderr := "" }, after)

end Invocation

/-- Runs a command line. One that is not understood leaves the disk alone. -/
def runArguments (env : Environment) (clock : Clock) (args : List String) (d : Disk) :
    Outcome × Disk :=
  match Arguments.parse args with
  | .ok i => i.run env clock d
  | .error .usage => ({ code := 2, stdout := "", stderr := Arguments.Stop.usage.text }, d)
  | .error stop => ({ code := 0, stdout := stop.text, stderr := "" }, d)

end Precedence

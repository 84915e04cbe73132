import Precedence.Command.Run
import Precedence.Replica.Record
import Std.Time.DateTime.Timestamp
/-!
The command line on a real disk: the places that a command can look at are read, the command runs on
what was found there, and what it changed is written back.
-/
namespace Precedence.Main

def projectPlaces (root : Path) : List Location :=
  let f : ReplicaFile := ⟨root⟩
  let store := Store.ofRoot root
  [Configuration.dataDirectory root, Configuration.projectFile root,
    (Configuration.dataDirectory root).join ".gitignore", store.path, store.draft, f.directory,
    f.path, Sidecar.journal.path f.path, Sidecar.log.path f.path,
    Sidecar.index.path f.path].map Path.location

def target? (env : Environment) (args : List String) : Option Path :=
  match Arguments.parse args with
  | .ok { command := .init path, .. } => some ⟨path, env.here.location⟩
  | _ => none

/-- The places that a command can look at. -/
def places (env : Environment) (args : List String) : List Location :=
  let target := (target? env args).toList
  let user := (env.userDirectory.map fun p => p.join "config.toml").toList
  ((env.here :: target ++ user).flatMap Path.way ++
    (env.here.above ++ target).flatMap projectPlaces).eraseDups

def isReplica (l : Location) : Bool := l.getLast? == some "dagplan.db"

def probe (l : Location) : IO (Option Entry) := do
  try
    let content := (← IO.FS.readBinFile (Path.ofLocation l).text).data.toList
    let replica := if isReplica l then Replica.Image.ofContent? content else none
    return some (match replica with
      | some image => .replica image
      | none => .file content)
  catch
    | .inappropriateType _ 21 _ => return some .directory
    | _ => return none

def gather (places : List Location) : IO Disk := do
  let mut d : Disk := {}
  for l in places do
    if let some e ← probe l then d := d.put l e
  return d

def store (l : Location) : Entry → IO Unit
  | .directory => IO.FS.createDirAll (Path.ofLocation l).text
  | .file content => IO.FS.writeBinFile (Path.ofLocation l).text ⟨content.toArray⟩
  | .replica image => IO.FS.writeBinFile (Path.ofLocation l).text ⟨image.content.toArray⟩

/-- Writes back what has changed, directories first. -/
def settle (before after : Disk) : IO Unit := do
  let changed := after.entries.filter fun (l, e) => before.noted? l != some e
  let (directories, files) := changed.partition fun (_, e) => e = .directory
  for (l, e) in directories ++ files do store l e
  for (l, _) in before.entries do
    if (after.noted? l).isNone then IO.FS.removeFile (Path.ofLocation l).text

def userDirectory : IO (Option Path) := do
  let given := (← IO.getEnv "XDG_CONFIG_HOME").filter (·.startsWith "/")
  let home := (← IO.getEnv "HOME").filter (!·.isEmpty)
  let directory := given <|> home.map (· ++ "/.config")
  return directory.map fun s => Path.join ⟨s, []⟩ "dagplan"

def present : IO (Option Instant) := do
  let now ← Std.Time.Timestamp.now
  return Instant.after1970? now.toNanosecondsSinceUnixEpoch.val.toNat

end Precedence.Main

open Precedence in
def main (args : List String) : IO UInt32 := do
  let begun ← IO.monoNanosNow
  let here : Path := ⟨(← IO.currentDir).toString, []⟩
  let env : Environment := ⟨here, ← Main.userDirectory⟩
  let before ← Main.gather (Main.places env args)
  let some now ← Main.present | throw (IO.userError "The clock is out of range")
  let elapsed := (← IO.monoNanosNow) - begun
  let (outcome, after) := runArguments env ⟨now, elapsed⟩ args before
  Main.settle before after
  IO.print outcome.stdout
  IO.eprint outcome.stderr
  return outcome.code.toUInt32

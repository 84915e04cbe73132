import Precedence.Failure
/-!
Configurations: the settings of a user and of the project that a command works on, read from the
files that hold them. A file that is not there stands for the defaults.
-/
namespace Precedence

structure Environment where
  here : Path
  /-- The directory with the settings of the user, if there is a place for one. -/
  userDirectory : Option Path

/-- The settings in force, and the root of the project if there is one. -/
structure Configuration where
  project : ProjectSettings := {}
  user : UserSettings := {}
  root : Option Path := none
  deriving DecidableEq, Repr

namespace Configuration

def dataDirectory (root : Path) : Path := root.join ".dagplan"

def projectFile (root : Path) : Path := (dataDirectory root).join "config.toml"

def loadFile {α : Type} (d : Disk) (p : Path) (deed : Deed) (malformed : Failure)
    (read? : String → Option α) (default : α) : Except Failure α :=
  if d.exists? p then
    match d.readText p with
    | .error fault => .error (.disk deed fault)
    | .ok s =>
      match read? s with
      | some settings => .ok settings
      | none => .error malformed
  else .ok default

def loadUser (env : Environment) (d : Disk) : Except Failure UserSettings :=
  match env.userDirectory with
  | none => .ok {}
  | some directory =>
    let p := directory.join "config.toml"
    loadFile d p (.readUserSettings p) .userSettings Settings.userOfToml? {}

/-- The settings of a project, which have to be able to work together. -/
def loadProject (root : Path) (d : Disk) : Except Failure ProjectSettings := do
  let p := projectFile root
  let settings ← loadFile d p (.readSettings p) .settings Settings.projectOfToml? {}
  match settings.check with
  | .ok () => return settings
  | .error c => throw (.conflict c)

/-- The configuration for a project. The settings of the user are read first. -/
def ofProject (env : Environment) (root : Path) (d : Disk) : Except Failure Configuration := do
  let user ← loadUser env d
  let project ← loadProject root d
  return { project, user, root := some root }

def isRoot (d : Disk) (p : Path) : Bool := d.isDirectory (dataDirectory p)

/-- The nearest root of a project from a place upwards. -/
def findRoot? (start : Path) (d : Disk) : Option Path := start.above.find? (isRoot d)

def load (env : Environment) (d : Disk) : Except Failure Configuration := do
  let user ← loadUser env d
  match findRoot? env.here d with
  | some root => return { project := ← loadProject root d, user, root := some root }
  | none => return { user }

def requireRoot (c : Configuration) : Except Failure Path :=
  match c.root with
  | some root => .ok root
  | none => .error .noRoot

def save (c : Configuration) : Action Unit := do
  let root ← Action.ask fun _ => c.requireRoot
  let p := projectFile root
  match c.project.toml? with
  | some s => Action.change (.saveSettings p) (·.write p (Bytes.ofText s))
  | none => throw .unsavable

end Configuration
end Precedence

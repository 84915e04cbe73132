import Precedence.Disk
import Precedence.Settings
import Precedence.Graph.Fault
import Precedence.Task.Reader
/-! What can make an action on a project fail, and what is said of it: the outermost message, and
the whole chain of messages down to the cause. -/
namespace Precedence

inductive Deed where
  | makeProject (p : Path)
  | writeSettings (p : Path)
  | writeIgnores (p : Path)
  | readSettings (p : Path)
  | readUserSettings (p : Path)
  | saveSettings (p : Path)
  | makeDirectory (p : Path)
  | createDraft (p : Path)
  | replaceStore (draft store : Path)
  | openStore (p : Path)
  | readStore (p : Path)
  | readLine (n : Nat)
  | makeReplica (p : Path)
  deriving DecidableEq, Repr

def Deed.message : Deed → String
  | .makeProject p => "Failed to create .dagplan directory: " ++ p.text
  | .writeSettings p => "Failed to write config: " ++ p.text
  | .writeIgnores p => "Failed to write .gitignore: " ++ p.text
  | .readSettings p => "Failed to read project config: " ++ p.text
  | .readUserSettings p => "Failed to read global config: " ++ p.text
  | .saveSettings p => "Failed to write project config: " ++ p.text
  | .makeDirectory p => "Failed to create directory: " ++ p.text
  | .createDraft p => "Failed to create temp file: " ++ p.text
  | .replaceStore draft store => "Failed to rename " ++ draft.text ++ " to " ++ store.text
  | .openStore p => "Failed to open task store: " ++ p.text
  | .readStore p => "Failed to read task store: " ++ p.text
  | .readLine n => "Failed to read line " ++ Text.decimalText n
  | .makeReplica p => "Failed to create cache directory: " ++ p.text

inductive Failure where
  | disk (deed : Deed) (fault : Disk.Fault)
  | record (line : Nat) (fault : Record.Fault)
  | settings
  | userSettings
  | conflict (c : SettingsConflict)
  /-- A setting is too large to be written. -/
  | unsavable
  | notInProject
  | noRoot
  | alreadyExists (root : Path)
  | replica (fault : Replica.Fault)
  | graph (fault : GraphFault)
  | taskExists (id : TaskId)
  | parentMissing (id : TaskId)
  | notDependent (dependent prerequisite : TaskId)
  | invalid (problems : Nat)

namespace Failure

def message : Failure → String
  | .disk deed _ => deed.message
  | .record line _ => "Failed to parse task at line " ++ Text.decimalText line
  | .settings => "Failed to parse project config"
  | .userSettings => "Failed to parse global config"
  | .conflict c => c.message
  | .unsavable => "Failed to serialize project config"
  | .notInProject => "Not in a dagplan project. Run 'dagplan init' first."
  | .noRoot => "Not in a dagplan project. Run 'dagplan init' first."
  | .alreadyExists root => "Project already exists at " ++ root.text
  | .replica fault => fault.message
  | .graph fault => fault.message
  | .taskExists id => "Task already exists: " ++ id.text
  | .parentMissing id => "Parent task not found: " ++ id.text
  | .notDependent t p => t.text ++ " does not depend on " ++ p.text
  | .invalid n => "Validation failed with " ++ Text.decimalText n ++ " problem(s)"

/-- The messages of the causes that have one of their own, from the outermost on. -/
def causes : Failure → List String
  | .disk _ fault => [fault.message]
  | .record _ fault => fault.message?.toList
  | .replica fault => fault.causes
  | _ => []

def chain (f : Failure) : String := ": ".intercalate (f.message :: f.causes)

end Failure

/-- What is done on a disk and may fail; a failed action leaves the disk as it was then. -/
abbrev Action (α : Type) := ExceptT Failure (StateM Disk) α

namespace Action

def ask {α : Type} (f : Disk → Except Failure α) : Action α := fun d => (f d, d)

def refuseIf (c : Bool) (f : Failure) : Action Unit := if c then throw f else pure ()

def change (deed : Deed) (f : Disk → Except Disk.Fault Disk) : Action Unit := fun d =>
  match f d with
  | .ok d => (.ok (), d)
  | .error fault => (.error (.disk deed fault), d)

def makeDirectories (deed : Deed) (p : Path) : Action Unit := fun d =>
  match d.makeDirectories p with
  | (.ok (), d) => (.ok (), d)
  | (.error fault, d) => (.error (.disk deed fault), d)

end Action
end Precedence

import Precedence.Replica.Basic
/-!
Images of replicas: what a file holds for one. The tables are laid out once, under a version, and
what is asked of a table that is not there fails.
-/
namespace Precedence.Replica

structure Image where
  version : Int := 0
  /-- The tables, if they have been laid out. -/
  tables : Option Replica := none
  /-- Whether changes go through a log beside the file. -/
  logs : Bool := false
  deriving DecidableEq, Repr

namespace Image

def layout : Int := 1

/-- What opening leaves: under another version the tables are laid out anew, without rows. -/
def opened (i : Image) : Image :=
  if i.version = layout then i else { i with version := layout, tables := some {} }

def reach (i : Image) (t : Table) : Except Fault Replica :=
  match i.tables with
  | some r => .ok r
  | none => .error (.noTable t)

@[simp] theorem opened_opened (i : Image) : i.opened.opened = i.opened := by
  unfold opened
  split
  · rfl
  · exact if_pos rfl

end Image

inductive Content where
  | empty
  | foreign
  | image (i : Image)
  deriving DecidableEq, Repr

/-- The image in a file; an empty file stands for one with nothing laid out. -/
def Content.toImage : Content → Except Fault Image
  | empty => .ok {}
  | foreign => .error (.file .foreign)
  | image i => .ok i

end Precedence.Replica

import Precedence.Disk
/-!
The files beside the file of a replica. They come and go while the replica is in use; a directory in
the place of one of them stands in the way, and any other file there is cleared away.
-/
namespace Precedence

inductive Sidecar where
  /-- What a change that was not finished has to be undone with. -/
  | journal
  /-- Changes on their way into the file of the replica. -/
  | log
  /-- What the log holds. -/
  | index
  deriving DecidableEq, Repr

namespace Sidecar

open Replica (Content FileFault)

def suffix : Sidecar → String
  | journal => "-journal"
  | log => "-wal"
  | index => "-shm"

def path (s : Sidecar) (replica : Path) : Path := { replica with text := replica.text ++ s.suffix }

def place (s : Sidecar) (replica : Path) : Location := (s.path replica).location

def isObstructed (s : Sidecar) (replica : Path) (d : Disk) : Bool :=
  d.noted? (s.place replica) == some .directory

def bytes (s : Sidecar) (replica : Path) (d : Disk) : Bytes :=
  (d.read (s.path replica)).toOption.getD []

def leave (s : Sidecar) (replica : Path) (d : Disk) : Disk :=
  if (d.noted? (s.place replica)).isSome then d else d.put (s.place replica) (.file [])

def clear (s : Sidecar) (replica : Path) (d : Disk) : Disk :=
  if s.isObstructed replica d then d else d.erase (s.place replica)

/-- The least number of bytes of a log that is looked into. -/
def logHeader : Nat := 32

/-- Why a replica cannot be used for the sake of what is beside its file. A file with content has
its journal looked at first; a new file needs no old log, and then a journal to begin with. -/
def obstacle? (replica : Path) (content : Content) (d : Disk) : Option FileFault :=
  match content with
  | .empty =>
    if log.isObstructed replica d then some .undeletable
    else if journal.isObstructed replica d then some .unavailable
    else none
  | _ =>
    if journal.isObstructed replica d then some .unreadable
    else if log.isObstructed replica d then some .unavailable
    else if index.isObstructed replica d && logHeader ≤ (log.bytes replica d).length then
      some .unsettled
    else none

def isPending (replica : Path) (d : Disk) : Bool := (journal.bytes replica d).head?.any (· ≠ 0)

/-- Clears a journal that cannot be one of the file. -/
def clearJournal (replica : Path) (content : Content) (d : Disk) : Disk :=
  let isOld := match content with
    | .empty => true
    | .foreign => false
    | .image i => !i.logs
  if isOld || isPending replica d then journal.clear replica d else d

def sweep (replica : Path) (content : Content) (d : Disk) : Disk :=
  let d := clearJournal replica content d
  match content with
  | .empty => index.clear replica (log.clear replica d)
  | .foreign => if (log.bytes replica d).isEmpty then d else log.clear replica d
  | .image _ =>
    if index.isObstructed replica d then d else index.clear replica (log.clear replica d)

end Sidecar
end Precedence

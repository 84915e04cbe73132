import Precedence.Path
import Precedence.Replica.Image
/-!
Disks: directories, files and replicas at places in one tree, without links. Every operation first
follows a path to its place, and each step of the path has to leave from a directory.
-/
namespace Precedence

inductive Entry where
  | directory
  | file (content : Bytes)
  | replica (image : Replica.Image)
  deriving DecidableEq, Repr

/-- A disk. The root directory is always there and has no entry. -/
structure Disk where
  entries : List (Location × Entry) := []

namespace Disk

inductive Fault where
  | exists
  | notDirectory
  | isDirectory
  | missing
  /-- A name has more than 255 bytes, or a path more than 4095. -/
  | nameTooLong
  /-- A path holds the character that ends paths. -/
  | badName
  | notText
  deriving DecidableEq, Repr

def Fault.message : Fault → String
  | .exists => "File exists (os error 17)"
  | .notDirectory => "Not a directory (os error 20)"
  | .isDirectory => "Is a directory (os error 21)"
  | .missing => "No such file or directory (os error 2)"
  | .nameTooLong => "File name too long (os error 36)"
  | .badName => "file name contained an unexpected NUL byte"
  | .notText => "stream did not contain valid UTF-8"

/-- What is noted for a place, whether or not the directories above it are there. -/
def noted? (d : Disk) (l : Location) : Option Entry :=
  if l = [] then some .directory else d.entries.lookup l

def put (d : Disk) (l : Location) (e : Entry) : Disk := ⟨(l, e) :: d.entries.filter (·.1 ≠ l)⟩

def erase (d : Disk) (l : Location) : Disk := ⟨d.entries.filter (·.1 ≠ l)⟩

private theorem lookup_filter_ne {l m : Location} (h : m ≠ l) (es : List (Location × Entry)) :
    (es.filter (·.1 ≠ l)).lookup m = es.lookup m := by
  induction es with
  | nil => rfl
  | cons e es ih =>
    obtain ⟨k, x⟩ := e
    by_cases hk : k = l
    · have hm : (m == k) = false := by simpa [hk] using h
      simp only [List.filter_cons, hk, ne_eq, not_true_eq_false, decide_false,
        Bool.false_eq_true, if_false, ih]
      rw [List.lookup_cons, ← hk, hm]
    · simp only [List.filter_cons, ne_eq, hk, not_false_eq_true, decide_true, if_true,
        List.lookup_cons, ih]

@[simp] theorem noted?_put_self (d : Disk) {l : Location} (h : l ≠ []) (e : Entry) :
    (d.put l e).noted? l = some e := by
  simp [noted?, put, h]

theorem noted?_put_ne (d : Disk) {l m : Location} (h : m ≠ l) (e : Entry) :
    (d.put l e).noted? m = d.noted? m := by
  have hb : (m == l) = false := by simpa using h
  simp only [noted?, put, List.lookup_cons, hb, lookup_filter_ne h]

theorem noted?_erase_ne (d : Disk) {l m : Location} (h : m ≠ l) :
    (d.erase l).noted? m = d.noted? m := by
  simp only [noted?, erase, lookup_filter_ne h]

/-- Why no place can be found under a path, whatever the disk holds. -/
def pathFault? (p : Path) : Option Fault :=
  if '\x00' ∈ p.text.toList then some .badName
  else if 4095 < p.text.utf8ByteSize then some .nameTooLong
  else none

/-- Follows steps from a place. There may be nothing at the end of them. -/
def walk (d : Disk) (l : Location) : List String → Except Fault Location
  | [] => .ok l
  | s :: rest =>
    match d.noted? l with
    | some .directory =>
      if 255 < s.utf8ByteSize then .error .nameTooLong else d.walk (l.step s) rest
    | some _ => .error .notDirectory
    | none => .error .missing

def resolve (d : Disk) (p : Path) : Except Fault Location :=
  match pathFault? p with
  | some fault => .error fault
  | none => if p.text = "" then .error .missing else d.walk p.origin p.steps

/-- What stands where a path leads; nothing may stand there, but the way has to be there. -/
def look (d : Disk) (p : Path) : Except Fault (Option Entry) := (d.resolve p).map d.noted?

def find? (d : Disk) (p : Path) : Option Entry :=
  match d.look p with
  | .ok e => e
  | .error _ => none

def exists? (d : Disk) (p : Path) : Bool := (d.find? p).isSome

def isDirectory (d : Disk) (p : Path) : Bool := d.find? p == some .directory

def read (d : Disk) (p : Path) : Except Fault Bytes := do
  match ← d.look p with
  | some (.file content) => return content
  | some .directory => throw .isDirectory
  | some (.replica _) => throw .notText
  | none => throw .missing

def readText (d : Disk) (p : Path) : Except Fault String := do
  match Bytes.text? (← d.read p) with
  | some s => return s
  | none => throw .notText

/-- Puts a file or a replica at a place, but not over a directory; a path that ends in a slash is
that of a directory. -/
def place (d : Disk) (p : Path) (e : Option Entry → Entry) : Except Fault Disk := do
  if p.text.endsWith '/' then throw .isDirectory
  let l ← d.resolve p
  if d.noted? l = some .directory then throw .isDirectory
  return d.put l (e (d.noted? l))

def write (d : Disk) (p : Path) (content : Bytes) : Except Fault Disk :=
  d.place p fun _ => .file content

def append (d : Disk) (p : Path) (more : Bytes) : Except Fault Disk :=
  d.place p fun
    | some (.file content) => .file (content ++ more)
    | _ => .file more

def writeReplica (d : Disk) (p : Path) (image : Replica.Image) : Except Fault Disk :=
  d.place p fun _ => .replica image

def rename (d : Disk) (source target : Path) : Except Fault Disk := do
  let content ← d.read source
  (d.erase (← d.resolve source)).write target content

/-- Makes the directories along steps from a place. A file ends this: it is no directory to leave
from, or, at the end or after a directory that was made, stands where one is to be made. A dot at
the end asks for a directory that is there already. -/
def makeFrom (d : Disk) (l : Location) (made : Bool) : List String → Except Fault Unit × Disk
  | [] => (.ok (), d)
  | s :: rest =>
    if 255 < s.utf8ByteSize then (.error .nameTooLong, d)
    else
      let next := l.step s
      match d.noted? next with
      | some .directory => d.makeFrom next made rest
      | some _ => (.error (if made || rest.isEmpty then .exists else .notDirectory), d)
      | none =>
        if rest.contains "." && rest.all isIdle then (.error .missing, d)
        else (d.put next .directory).makeFrom next true rest

/-- Makes a directory and all those on the way to it, unless they are there. Those that are made
before a fault stay. -/
def makeDirectories (d : Disk) (p : Path) : Except Fault Unit × Disk :=
  match pathFault? p with
  | some fault => (.error fault, d)
  | none => d.makeFrom p.origin false p.steps

/-- The files below a place, named from there: for those who look over what a project has left on a
disk. A project itself only ever asks for files by their names. -/
def filesBelow (d : Disk) (l : Location) : List Location :=
  d.entries.filterMap fun (m, e) =>
    if e = .directory ∨ ¬ l.isPrefixOf m then none else some (m.drop l.length)

end Disk
end Precedence

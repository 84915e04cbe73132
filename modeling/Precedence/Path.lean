/-! Paths: texts that name places on a disk, step by step from the root directory or another
place. -/
namespace Precedence

/-- A place on a disk: the names from the root directory down to it. -/
abbrev Location := List String

def isIdle (step : String) : Bool := step == "" || step == "."

/-- The place one step on; two dots go up, and the root directory is above itself. -/
def Location.step (l : Location) (s : String) : Location :=
  if isIdle s then l
  else if s = ".." then l.dropLast
  else l ++ [s]

def Location.way (l : Location) : List String → List Location
  | [] => []
  | s :: rest => l.step s :: (l.step s).way rest

/-- A text that names a place, and the place that it starts from unless it begins with a slash. -/
structure Path where
  text : String
  start : Location := []
  deriving DecidableEq, Repr

namespace Path

def ofLocation (l : Location) : Path := ⟨"/" ++ "/".intercalate l, []⟩

def join (p : Path) (name : String) : Path :=
  let text :=
    if p.text = "" then name
    else if p.text.endsWith '/' then p.text ++ name
    else p.text ++ "/" ++ name
  { p with text }

def origin (p : Path) : Location := if p.text.startsWith '/' then [] else p.start

def steps (p : Path) : List String := (p.text.toList.splitOn '/').map String.ofList

def way (p : Path) : List Location := p.origin.way p.steps

def location (p : Path) : Location := p.steps.foldl Location.step p.origin

/-- The steps that are left when those that go somewhere are taken away, the last one first. -/
def shortened : List String → List (List String)
  | [] => []
  | s :: rest => if isIdle s then shortened rest else rest.dropWhile isIdle :: shortened rest

/-- An absolute path and the shorter ones that its first steps make, the longest first. -/
def above (p : Path) : List Path :=
  p :: (shortened p.steps.tail.reverse).map fun l =>
    { p with text := "/" ++ "/".intercalate l.reverse }

end Path
end Precedence

import Precedence.Command.Basic
/-!
Arguments of a command line: words and options, read from left to right. Options may stand anywhere,
also before the name of the command; of an option that is given at several levels the innermost
counts. A value in an argument of its own is looked at when reading goes on at its level, so one
right before the name of a command is looked at after all that follows the name.
-/
namespace Precedence.Arguments

open Text (isDigit value)

/-- Why arguments do not name a command to run. -/
inductive Stop where
  | usage
  | help (path : List String)
  | version (path : List String)
  deriving DecidableEq, Repr

structure Flag where
  long : String
  short : Option Char := none
  accepts : Option (String → Bool) := none
  repeatable : Bool := false
  /-- Whether its value may begin with a minus sign if it is a number. -/
  negative : Bool := false

structure State where
  options : List (String × String) := []
  words : List String := []
  pending : Option Flag := none
  /-- An option with a value that has not been looked at. -/
  held : Option (Flag × String) := none

namespace State

def value? (s : State) (long : String) : Option String := s.options.lookup long

def values (s : State) (long : String) : List String :=
  (s.options.filter (·.1 = long)).map (·.2)

def has (s : State) (long : String) : Bool := (s.value? long).isSome

def note (s : State) (f : Flag) (v : String) : Except Stop State :=
  if (s.has f.long && !f.repeatable) || !(f.accepts.all (· v)) then .error .usage
  else .ok { s with options := s.options ++ [(f.long, v)] }

/-- Notes the option that is held, if there is one. No option may be left without its value. -/
def settle (s : State) : Except Stop State :=
  match s.pending, s.held with
  | some _, _ => .error .usage
  | none, some (f, v) => { s with held := none }.note f v
  | none, none => .ok s

end State

def isNegative (arg : String) : Bool :=
  match arg.toList with
  | '-' :: d :: ds => isDigit d && ds.all isDigit
  | _ => false

def isValue (f : Flag) (arg : String) : Bool :=
  !arg.startsWith "-" || arg == "-" || (f.negative && isNegative arg)

def readLong (path : List String) (flags : List Flag) (s : State) (arg : List Char) :
    Except Stop State :=
  let name := String.ofList (arg.takeWhile (· ≠ '='))
  let given := (arg.dropWhile (· ≠ '=')).tail
  let hasValue := arg.contains '='
  match flags.find? (·.long == name) with
  | some f =>
    if f.accepts.isSome then
      if hasValue then s.note f (String.ofList given) else .ok { s with pending := some f }
    else if hasValue then .error .usage
    else s.note f ""
  | none =>
    if hasValue then .error .usage
    else if name = "help" then .error (.help path)
    else if name = "version" then .error (.version path)
    else .error .usage

/-- Reads options in their short forms behind one hyphen; what follows one that takes a value is its
value. -/
def readShort (path : List String) (flags : List Flag) (s : State) : List Char → Except Stop State
  | [] => .ok s
  | c :: cs =>
    match flags.find? (·.short == some c) with
    | some f =>
      if f.accepts.isSome then
        match cs with
        | [] => .ok { s with pending := some f }
        | '=' :: v => s.note f (String.ofList v)
        | v => s.note f (String.ofList v)
      else do readShort path flags (← s.note f "") cs
    | none =>
      if c = 'h' then .error (.help path)
      else if c = 'V' then .error (.version path)
      else .error .usage

/-- Reads an argument that is an option or the value of one; any other is left. -/
def read? (path : List String) (flags : List Flag) (s : State) (arg : String) :
    Except Stop (Option State) :=
  match s.pending with
  | some f =>
    if isValue f arg then .ok (some { s with pending := none, held := some (f, arg) })
    else .error .usage
  | none =>
    match arg.toList with
    | '-' :: '-' :: name => do return some (← readLong path flags (← s.settle) name)
    | '-' :: c :: cs => do return some (← readShort path flags (← s.settle) (c :: cs))
    | _ => .ok none

/-- Reads options up to the name of a command, which there has to be. The last one may stay held. -/
def untilName (path : List String) (flags : List Flag) (s : State) :
    List String → Except Stop (State × String × List String)
  | [] => .error .usage
  | arg :: rest =>
    if arg = "--" then .error .usage
    else do
      match ← read? path flags s arg with
      | some s => untilName path flags s rest
      | none => .ok (s, arg, rest)

/-- Reads options and words to the end, with no more words than allowed. All that follows two
hyphens is words. -/
def toEnd (path : List String) (flags : List Flag) (most : Option Nat) (s : State) :
    List String → Except Stop State
  | [] => s.settle
  | arg :: rest =>
    if arg = "--" then
      let words := s.words ++ rest
      if most.any (· < words.length) then .error .usage
      else { s with words }.settle
    else do
      match ← read? path flags s arg with
      | some s => toEnd path flags most s rest
      | none =>
        if most.any (· ≤ s.words.length) then .error .usage
        else toEnd path flags most (← { s with words := s.words ++ [arg] }.settle) rest

def signed? (s : String) : Option Int :=
  let digits (cs : List Char) : Option Nat :=
    if cs.isEmpty || !cs.all isDigit then none else some (value cs)
  match s.toList with
  | '-' :: cs => (digits cs).map fun n => -(n : Int)
  | '+' :: cs => (digits cs).map fun n => (n : Int)
  | cs => (digits cs).map fun n => (n : Int)

def depth? (s : String) : Option Int := (signed? s).filter fun n => Word.IsSigned n

def byte? (s : String) : Option Nat := ((signed? s).filter fun n => 0 ≤ n ∧ n < 256).map Int.toNat

/-- A numeral without a minus sign for a natural number of 64 bits. -/
def seconds? (s : String) : Option Nat :=
  if s.startsWith "-" then none
  else ((signed? s).filter fun n => Word.IsUnsigned n).map Int.toNat

def orphanRule? (s : String) : Option OrphanRule :=
  [("no-prerequisites", OrphanRule.noPrerequisites), ("isolated", .isolated)].lookup s

def valued {α : Type} (long : String) (read : String → Option α) (short : Option Char) : Flag :=
  { long, short, accepts := some fun s => (read s).isSome }

def texted (long : String) : Flag := valued long some none

def common : List Flag :=
  [valued "format" OutputFormat.ofName? (some 'f'), { long := "verbose", short := some 'v' },
    valued "store" Backend.ofName? none]

/-- What a command takes: options of its own, words between two bounds, and the command that they
make. -/
structure Shape where
  flags : List Flag := []
  least : Nat := 0
  most : Option Nat := some 0
  make : State → Option Command

def plain (c : Command) : Shape := { make := fun _ => some c }

def overIds (make : List String → Command) : Shape :=
  { most := none, make := fun s => some (make s.words) }

def withStatus (make : Option Status → Command) : Shape :=
  { flags := [valued "status" Status.parse? none]
    make := fun s => some (make ((s.value? "status").bind Status.parse?)) }

def walk (direction : Direction) : Shape :=
  { flags := [{ valued "max-depth" depth? none with negative := true }]
    least := 1
    most := some 1
    make := fun s => do
      return .relatives direction (← s.words[0]?) ((s.value? "max-depth").bind depth?) }

def overTask (make : String → TaskCommand) : Shape :=
  { least := 1, most := some 1, make := fun s => do return .task (make (← s.words[0]?)) }

def overPair (make : String → String → TaskCommand) : Shape :=
  { least := 2, most := some 2
    make := fun s => do return .task (make (← s.words[0]?) (← s.words[1]?)) }

def measures : List Flag :=
  [valued "priority" byte? (some 'p'), valued "duration" seconds? (some 'd')]

def add : Shape :=
  { flags := measures ++ [texted "id", texted "parent", valued "origin" Origin.parse? none,
      { texted "after" with repeatable := true }]
    least := 1
    most := some 1
    make := fun s => do
      return .task (.add
        { description := ← s.words[0]?
          id := s.value? "id"
          priority := (s.value? "priority").bind byte?
          duration := (s.value? "duration").bind seconds?
          parent := s.value? "parent"
          origin := (s.value? "origin").bind Origin.parse?
          after := s.values "after" }) }

def set : Shape :=
  { flags := measures ++ [texted "description"]
    least := 1
    most := some 1
    make := fun s => do
      return .task (.set (← s.words[0]?)
        { priority := (s.value? "priority").bind byte?
          duration := (s.value? "duration").bind seconds?
          description := s.value? "description" }) }

def taskShapes : List (String × Shape) :=
  [("add", add), ("list", withStatus fun x => .task (.list x)), ("show", overTask .describe)] ++
    Transition.all.map (fun x => (x.name, overTask (.move x))) ++
    [("set", set), ("dep", overPair .depend), ("undep", overPair .undepend)]

def replicaShapes : List (String × Shape) :=
  [("rebuild", plain (.replica .rebuild)), ("status", plain (.replica .status)),
    ("clear", plain (.replica .clear))]

def groups : List (String × List (String × Shape)) :=
  [("task", taskShapes), ("cache", replicaShapes)]

def shapes : List (String × Shape) :=
  [("init", { most := some 1, make := fun s => some (.init (s.words.headD ".")) }),
    ("ready", plain .ready), ("blocked", plain .blocked), ("status", plain .status),
    ("order", overIds .order), ("levels", plain .levels), ("ancestors", walk .up),
    ("descendants", walk .down),
    ("orphans",
      { flags := [valued "rule" orphanRule? none, { long := "include-human" }]
        make := fun s =>
          some (.orphans ((s.value? "rule").bind orphanRule?) (s.has "include-human")) }),
    ("leaves", withStatus .leaves),
    ("critical-path",
      { flags := [texted "start", texted "end"]
        make := fun s => some (.criticalPath (s.value? "start") (s.value? "end")) }),
    ("validate", overIds .validate)]

/-- The command of a shape, from the arguments behind its name; the outer levels have been read. -/
def finish (path : List String) (shape : Shape) (outer : List State) (args : List String) :
    Except Stop Invocation := do
  let s ← toEnd path (common ++ shape.flags) shape.most {} args
  if s.words.length < shape.least then throw .usage
  let levels := s :: (← outer.mapM State.settle)
  match shape.make s with
  | none => throw .usage
  | some command =>
    return {
      format := (levels.findSome? (·.value? "format")).bind OutputFormat.ofName?
      verbose := levels.any (·.has "verbose")
      backend := (levels.findSome? (·.value? "store")).bind Backend.ofName?
      command }

/-- What a request for help is about: nothing, or a command among the given ones. -/
def helpOn (path : List String) (names : List String) : List String → Except Stop Invocation
  | [] => .error (.help path)
  | [name] =>
    if names.contains name || name == "help" then .error (.help (path ++ [name]))
    else .error .usage
  | name :: rest =>
    match (if path.isEmpty then groups.lookup name else none), rest with
    | some group, [inner] =>
      if group.any (·.1 == inner) || inner == "help" then .error (.help [name, inner])
      else .error .usage
    | _, _ => .error .usage

def parse (args : List String) : Except Stop Invocation := do
  let (outer, name, rest) ← untilName [] common {} args
  if name = "help" then helpOn [] (groups.map (·.1) ++ shapes.map (·.1)) rest
  else match shapes.lookup name with
    | some shape => finish [name] shape [outer] rest
    | none =>
      match groups.lookup name with
      | none => throw .usage
      | some group =>
        let (inner, leaf, rest) ← untilName [name] common {} rest
        if leaf = "help" then helpOn [name] (group.map (·.1)) rest
        else match group.lookup leaf with
          | some shape => finish [name, leaf] shape [inner, outer] rest
          | none => throw .usage

def Stop.text : Stop → String
  | .usage | .help [] => "Usage: dagplan [OPTIONS] <COMMAND>\n"
  | .help path => "Usage: dagplan " ++ " ".intercalate path ++ " [OPTIONS]\n"
  | .version path => "-".intercalate ("dagplan" :: path) ++ " 0.1.0\n"

end Precedence.Arguments

import Precedence.Json.Reader
import Precedence.Task.Record
import Precedence.Time.Reader
/-!
Reading the record of a task from JSON text. The text is read from front to back and the first fault
wins, also over text behind it that is no JSON at all. Unknown fields are stepped over, a known
field may come once, and a record may also be a list of its fields in order.
-/
namespace Precedence.Record

inductive Fault where
  /-- The text is not JSON, or not of the shape of a record. -/
  | malformed
  | id (fault : TaskId.Fault)
  | priority (level : Nat)
  deriving DecidableEq, Repr

/-- What is said of a fault; a malformed text has no message of its own. -/
def Fault.message? : Fault → Option String
  | .malformed => none
  | .id fault => some fault.message
  | .priority level => some (Priority.outOfRange level)

/-- Reads a value from the front of the characters that remain. -/
abbrev Reader (α : Type) := List Char → Except Fault (α × List Char)

def lift {α : Type} : Option α → Except Fault α
  | some a => .ok a
  | none => .error .malformed

def text : Reader String := fun cs => lift (Json.readQuoted? (Json.dropGap cs))

def id : Reader TaskId := fun cs => do
  let (s, cs) ← text cs
  match TaskId.parse s with
  | .ok id => .ok (id, cs)
  | .error fault => .error (.id fault)

/-- Reads one of a closed set of names, as a string or as the only key of an object over null. -/
def name {α : Type} (ofName? : String → Option α) : Reader α := fun cs =>
  match Json.dropGap cs with
  | '\x7b' :: cs => do
    let (s, cs) ← text cs
    let a ← lift (ofName? s)
    let cs ← lift (Json.word? [':'] (Json.dropGap cs))
    let cs ← lift (Json.word? ['n', 'u', 'l', 'l'] (Json.dropGap cs))
    let cs ← lift (Json.word? ['\x7d'] (Json.dropGap cs))
    .ok (a, cs)
  | cs => do
    let (s, cs) ← lift (Json.readQuoted? cs)
    let a ← lift (ofName? s)
    .ok (a, cs)

def natural (limit : Nat) : Reader Nat := fun cs => lift (Json.natural? limit (Json.dropGap cs))

/-- Reads a priority: a byte, which then has to be in range. -/
def priority : Reader Priority := fun cs => do
  let (n, cs) ← natural 256 cs
  match Priority.ofLevel? n with
  | some p => .ok (p, cs)
  | none => .error (.priority n)

def instant : Reader Instant := fun cs => do
  let (s, cs) ← text cs
  let t ← lift (Instant.ofRecordText s).toOption
  .ok (t, cs)

def optional {α : Type} (read : Reader α) : Reader (Option α) := fun cs =>
  match Json.dropGap cs with
  | 'n' :: cs => do
    let cs ← lift (Json.word? ['u', 'l', 'l'] cs)
    .ok (none, cs)
  | cs => do
    let (a, cs) ← read cs
    .ok (some a, cs)

def idsFrom : Nat → Reader (List TaskId)
  | 0, _ => .error .malformed
  | fuel + 1, cs => do
    let (a, cs) ← id cs
    match Json.dropGap cs with
    | ',' :: cs => do
      let (rest, cs) ← idsFrom fuel cs
      .ok (a :: rest, cs)
    | ']' :: cs => .ok ([a], cs)
    | _ => .error .malformed

def ids : Reader (List TaskId) := fun cs =>
  match Json.dropGap cs with
  | '[' :: cs =>
    match Json.dropGap cs with
    | ']' :: cs => .ok ([], cs)
    | cs => idsFrom (cs.length + 1) cs
  | _ => .error .malformed

structure Draft where
  id : Option TaskId := none
  description : Option String := none
  status : Option Status := none
  priority : Option Priority := none
  estimatedDuration : Option (Option Nat) := none
  parent : Option (Option TaskId) := none
  depth : Option Nat := none
  origin : Option Origin := none
  dependsOn : Option (List TaskId) := none
  createdAt : Option Instant := none
  updatedAt : Option Instant := none
  completedAt : Option (Option Instant) := none

def Draft.has (d : Draft) : Field → Bool
  | .id => d.id.isSome
  | .description => d.description.isSome
  | .status => d.status.isSome
  | .priority => d.priority.isSome
  | .estimatedDuration => d.estimatedDuration.isSome
  | .parent => d.parent.isSome
  | .depth => d.depth.isSome
  | .origin => d.origin.isSome
  | .dependsOn => d.dependsOn.isSome
  | .createdAt => d.createdAt.isSome
  | .updatedAt => d.updatedAt.isSome
  | .completedAt => d.completedAt.isSome

def into {α : Type} (read : Reader α) (put : α → Draft) : Reader Draft := fun cs => do
  let (a, cs) ← read cs
  .ok (put a, cs)

def field (d : Draft) : Field → Reader Draft
  | .id => into id fun x => { d with id := some x }
  | .description => into text fun x => { d with description := some x }
  | .status => into (name Status.ofName?) fun x => { d with status := some x }
  | .priority => into priority fun x => { d with priority := some x }
  | .estimatedDuration =>
    into (optional (natural UInt64.size)) fun x => { d with estimatedDuration := some x }
  | .parent => into (optional id) fun x => { d with parent := some x }
  | .depth => into (natural UInt32.size) fun x => { d with depth := some x }
  | .origin => into (name Origin.ofName?) fun x => { d with origin := some x }
  | .dependsOn => into ids fun x => { d with dependsOn := some x }
  | .createdAt => into instant fun x => { d with createdAt := some x }
  | .updatedAt => into instant fun x => { d with updatedAt := some x }
  | .completedAt => into (optional instant) fun x => { d with completedAt := some x }

def Draft.task? (d : Draft) : Option Task := do
  let id ← d.id
  let description ← d.description
  let createdAt ← d.createdAt
  let updatedAt ← d.updatedAt
  some
    { id, description, createdAt, updatedAt
      status := d.status.getD .pending
      priority := d.priority.getD .default
      estimatedDuration := (d.estimatedDuration.getD none).map UInt64.ofNat
      parent := d.parent.getD none
      depth := UInt32.ofNat (d.depth.getD 0)
      origin := d.origin.getD .agent
      dependsOn := d.dependsOn.getD []
      completedAt := d.completedAt.getD none }

def fieldsFrom : Nat → Draft → Reader Draft
  | 0, _, _ => .error .malformed
  | fuel + 1, d, cs => do
    let (key, cs) ← text cs
    let f? := Field.ofKey? key
    if f?.any d.has then .error .malformed
    else
      let cs ← lift (Json.word? [':'] (Json.dropGap cs))
      let (d, cs) ← match f? with
        | some f => field d f cs
        | none => do
          let cs ← lift (Json.skip? cs)
          .ok (d, cs)
      match Json.dropGap cs with
      | ',' :: cs => fieldsFrom fuel d cs
      | '\x7d' :: cs => .ok (d, cs)
      | _ => .error .malformed

/-- Reads the items of a list into fields, up to the end of the list; fields may be left over. -/
def itemsFrom : Draft → List Field → Reader Draft
  | _, [], _ => .error .malformed
  | d, f :: fs, cs => do
    let (d, cs) ← field d f cs
    match Json.dropGap cs with
    | ',' :: cs => itemsFrom d fs cs
    | ']' :: cs => .ok (d, cs)
    | _ => .error .malformed

def task : Reader Task := fun cs => do
  let (d, cs) ← match Json.dropGap cs with
    | '\x7b' :: cs =>
      match Json.dropGap cs with
      | '\x7d' :: cs => .ok ({}, cs)
      | cs => fieldsFrom (cs.length + 1) {} cs
    | '[' :: cs =>
      match Json.dropGap cs with
      | ']' :: cs => .ok ({}, cs)
      | cs => itemsFrom {} Field.all cs
    | _ => .error .malformed
  let t ← lift d.task?
  .ok (t, cs)

def whole {α : Type} (read : Reader α) (s : String) : Except Fault α := do
  let (a, cs) ← read s.toList
  if Json.dropGap cs = [] then .ok a else .error .malformed

end Precedence.Record

namespace Precedence.Task

def ofRecord (s : String) : Except Record.Fault Task := Record.whole Record.task s

end Precedence.Task

namespace Precedence.TaskId

def ofJson (s : String) : Except Record.Fault TaskId := Record.whole Record.id s

end Precedence.TaskId

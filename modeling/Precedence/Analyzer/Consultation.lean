import Precedence.Analyzer.Basic
/-!
Questions to an analyzer, asked one after the other. Whether the snapshot is valid is found out by
the first question that depends on it, and kept for the questions after it.
-/
namespace Precedence

/-- A question to an analyzer, by the kind of its answer. -/
inductive Question : Type → Type where
  | executionOrder (ids : Option (List TaskId)) : Question (Except GraphFault (List TaskId))
  | levels : Question (Except GraphFault (List (List TaskId)))
  | walk (direction : Direction) (seed : TaskId) (maxDepth : Option Int) :
      Question (Except GraphFault Relatives)
  | orphans (policy : OrphanPolicy) : Question (Except GraphFault (List TaskId))
  | leaves (status : Option Status) : Question (Except GraphFault (List TaskId))
  | criticalPath (start finish : Option TaskId) : Question (Except GraphFault CriticalPath)
  | depths : Question (Except GraphFault (List (TaskId × Nat)))
  | ready : Question (List TaskId)
  | blocked : Question (List TaskId)
  | missing (id : TaskId) : Question (List TaskId)
  | validate (ids : Option (List TaskId)) : Question Report

/-- What an analyzer that has not been asked anything says. -/
def Analyzer.answer (a : Analyzer) : {α : Type} → Question α → α
  | _, .executionOrder ids => a.executionOrder ids
  | _, .levels => a.levels
  | _, .walk direction seed maxDepth => a.walk direction seed maxDepth
  | _, .orphans policy => a.orphans policy
  | _, .leaves status => a.leaves status
  | _, .criticalPath start finish => a.criticalPath start finish
  | _, .depths => a.depths
  | _, .ready => a.ready
  | _, .blocked => a.blocked
  | _, .missing id => a.graph.missing id
  | _, .validate ids => a.validate ids

/-- An analyzer in use. -/
structure Consultation where
  analyzer : Analyzer
  /-- Whether the snapshot is valid, once that has been found out. -/
  verdict : Option (Except GraphFault Unit) := none

namespace Consultation

def ensureValid (c : Consultation) : Except GraphFault Unit × Consultation :=
  match c.verdict with
  | some verdict => (verdict, c)
  | none =>
    let verdict := c.analyzer.ensureValid
    (verdict, { c with verdict := some verdict })

/-- Answers a question that depends on the validity of the snapshot, if its parameters are accepted
and the snapshot is valid. -/
def checked {α β : Type} (c : Consultation) (parameters : Except GraphFault β)
    (answer : β → Except GraphFault α) : Except GraphFault α × Consultation :=
  match parameters with
  | .error fault => (.error fault, c)
  | .ok x =>
    let (verdict, c) := c.ensureValid
    (verdict >>= fun _ => answer x, c)

def ask (c : Consultation) : {α : Type} → Question α → α × Consultation
  | _, .executionOrder ids =>
    let graph := match ids with
      | none => .ok c.analyzer.graph
      | some ids => c.analyzer.graph.subgraph ids
    c.checked graph fun g => g.executionOrder (.ofGraph g c.analyzer.compare)
  | _, .levels => c.checked (.ok ()) fun _ => c.analyzer.graph.levels c.analyzer.ranking
  | _, .walk direction seed maxDepth =>
    c.checked (c.analyzer.resolveDepth maxDepth)
      (c.analyzer.graph.walk c.analyzer.ranking direction seed)
  | _, .orphans policy =>
    c.checked (.ok ()) fun _ => .ok (c.analyzer.graph.orphans c.analyzer.ranking policy)
  | _, .leaves status =>
    c.checked (.ok ()) fun _ => .ok (c.analyzer.graph.leaves c.analyzer.ranking status)
  | _, .criticalPath start finish =>
    c.checked (.ok ()) fun _ => c.analyzer.graph.criticalPath c.analyzer.ranking start finish
  | _, .depths => c.checked (.ok ()) fun _ => c.analyzer.graph.depths c.analyzer.ranking
  | _, .ready => (c.analyzer.ready, c)
  | _, .blocked => (c.analyzer.blocked, c)
  | _, .missing id => (c.analyzer.graph.missing id, c)
  | _, .validate ids => (c.analyzer.validate ids, c)

end Consultation
end Precedence

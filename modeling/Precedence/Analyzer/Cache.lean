import Precedence.Analyzer.Basic
/-! A cache of one analyzer, kept as long as the revision of its source stays the same. -/
namespace Precedence

structure Issue where
  generation : Nat
  analyzer : Analyzer

/-- The last analyzer of a source with a revision, and the number of builds so far. -/
structure AnalyzerCache where
  options : AnalysisOptions
  generation : Nat := 0
  entry : Option (String × Issue) := none

namespace AnalyzerCache

def lookup? (c : AnalyzerCache) (revision : Option String) : Option Issue := do
  let (kept, issue) ← c.entry
  if revision = some kept then some issue else none

/-- Keeps an analyzer for a revision, unless a newer one is kept. -/
def keep (c : AnalyzerCache) (revision : String) (issue : Issue) : AnalyzerCache :=
  if c.entry.all fun e => e.2.generation < issue.generation then
    { c with entry := some (revision, issue) }
  else c

/-- Counts a new analyzer, and keeps it if it has a revision. -/
def issue (c : AnalyzerCache) (revision : Option String) (analyzer : Analyzer) :
    Issue × AnalyzerCache :=
  let issue : Issue := ⟨c.generation + 1, analyzer⟩
  let c := { c with generation := c.generation + 1 }
  match revision with
  | some revision => (issue, c.keep revision issue)
  | none => (issue, c)

/-- The analyzer for what a source holds now: the one kept for its revision, or else a new one. Both
the revision and the snapshot have to be asked for, the snapshot only if it is needed. -/
def serve {m : Type → Type} [Monad m] {ε : Type} (c : AnalyzerCache)
    (revision : m (Except ε (Option String))) (snapshot : m (Except ε Snapshot)) :
    m (Except ε Issue × AnalyzerCache) := do
  match ← revision with
  | .error e => return (.error e, c)
  | .ok revision =>
    match c.lookup? revision with
    | some issue => return (.ok issue, c)
    | none =>
      match ← snapshot with
      | .error e => return (.error e, c)
      | .ok s =>
        let (issue, c) := c.issue revision (.ofSnapshot s c.options)
        return (.ok issue, c)

def get {ε : Type} (c : AnalyzerCache) (source : Source ε) : Except ε Issue × AnalyzerCache :=
  Id.run (c.serve (pure source.revision) (pure source.snapshot))

/-- The same, from a source that counts how often it is loaded. -/
def getCounted {ε : Type} (c : AnalyzerCache) (source : Source ε) :
    StateM Nat (Except ε Issue × AnalyzerCache) :=
  c.serve (pure source.revision) do
    modify (· + 1)
    return source.snapshot

def invalidate (c : AnalyzerCache) : AnalyzerCache := { c with entry := none }

def cachedGeneration (c : AnalyzerCache) : Option Nat := c.entry.map fun e => e.2.generation

end AnalyzerCache
end Precedence

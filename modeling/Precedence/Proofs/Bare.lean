import Mathlib.Data.List.Basic
import Precedence.Analyzer.Basic
/-!
What questions about a graph depend on. The edges of a graph are its links; the prerequisites that
the loaded tasks name play no part any more, so that taking them out changes no answer.
-/
namespace Precedence

def Task.bare (t : Task) : Task := { t with dependsOn := [] }

/-- A comparison that does not look at prerequisites. -/
def Comparison.Blind (compare : Comparison) : Prop := ∀ a b, compare a.bare b.bare = compare a b

theorem TieBreak.blind (tieBreak : TieBreak) : Comparison.Blind tieBreak.compare := fun _ _ => rfl

namespace Graph

def bare (g : Graph) : Graph := { g with tasks := g.tasks.map Task.bare }

variable (g : Graph)

@[simp] theorem bare_length : g.bare.tasks.length = g.tasks.length := List.length_map _

@[simp] theorem bare_ids : g.bare.ids = g.ids := List.map_map

@[simp] theorem bare_contains (id : TaskId) : g.bare.contains id = g.contains id := List.any_map

@[simp] theorem bare_task? (id : TaskId) : g.bare.task? id = (g.task? id).map Task.bare :=
  List.find?_map ..

@[simp] theorem bare_require (id : TaskId) : g.bare.require id = g.require id := by
  rw [require, bare_contains, require]

@[simp] theorem bare_prerequisites (id : TaskId) :
    g.bare.prerequisites id = g.prerequisites id := by
  rw [prerequisites, bare_ids]
  rfl

@[simp] theorem bare_dependents (id : TaskId) : g.bare.dependents id = g.dependents id := by
  rw [dependents, bare_ids]
  rfl

@[simp] theorem bare_missing (id : TaskId) : g.bare.missing id = g.missing id := rfl

@[simp] theorem bare_isComplete (id : TaskId) : g.bare.isComplete id = g.isComplete id := by
  rw [isComplete, bare_task?, Option.any_map]
  rfl

@[simp] theorem bare_induced (keep : TaskId → Bool) :
    g.bare.induced keep = (g.induced keep).bare := by
  unfold induced bare
  rw [List.filter_map]
  rfl

@[simp] theorem bare_subgraph (ids : List TaskId) :
    g.bare.subgraph ids = (g.subgraph ids).map bare := by
  have require : g.bare.require = g.require := funext g.bare_require
  rw [subgraph, subgraph, require, bare_induced]
  cases ids.forM g.require <;> rfl

@[simp] theorem bare_isReady (t : Task) : g.bare.isReady t.bare = g.isReady t := by
  have complete : g.bare.isComplete = g.isComplete := funext g.bare_isComplete
  rw [isReady, bare_missing, bare_prerequisites, complete]
  rfl

@[simp] theorem bare_isBlocked (t : Task) : g.bare.isBlocked t.bare = g.isBlocked t := by
  rw [isBlocked, bare_missing, bare_prerequisites]
  simp only [bare_isComplete]
  rfl

theorem map_filter_bare {p q : Task → Bool} (h : ∀ t, p t.bare = q t) :
    (g.bare.tasks.filter p).map Task.id = (g.tasks.filter q).map Task.id := by
  have same : p ∘ Task.bare = q := funext h
  rw [bare, List.filter_map, same, List.map_map]
  rfl

@[simp] theorem bare_ready : g.bare.ready = g.ready := g.map_filter_bare g.bare_isReady

@[simp] theorem bare_blocked : g.bare.blocked = g.blocked := g.map_filter_bare g.bare_isBlocked

@[simp] theorem bare_neighbours (direction : Direction) :
    g.bare.neighbours direction = g.neighbours direction := by
  cases direction with
  | up => exact funext g.bare_prerequisites
  | down => exact funext g.bare_dependents

@[simp] theorem bare_layers (direction : Direction) (seed : TaskId) :
    g.bare.layers direction seed = g.layers direction seed := by
  rw [layers, bare_neighbours, bare_length, layers]

@[simp] theorem bare_closure (direction : Direction) (seed : TaskId) :
    g.bare.closure direction seed = g.closure direction seed := by
  rw [closure, bare_layers, closure]

variable (r : Ranking)

@[simp] theorem bare_walk (direction : Direction) (seed : TaskId) (maxDepth : Nat) :
    g.bare.walk r direction seed maxDepth = g.walk r direction seed maxDepth := by
  simp only [walk, bare_require, bare_layers]

@[simp] theorem bare_orphans (policy : OrphanPolicy) :
    g.bare.orphans r policy = g.orphans r policy := by
  have orphan (t : Task) : g.bare.isOrphan policy t.bare = g.isOrphan policy t := by
    rw [isOrphan, isOrphan]
    simp only [bare_prerequisites, bare_dependents]
    rfl
  simp only [orphans, bare_task?, Option.any_map, orphan]

@[simp] theorem bare_leaves (status : Option Status) :
    g.bare.leaves r status = g.leaves r status := by
  simp only [leaves, bare_dependents, bare_task?, Option.any_map]
  rfl

/-! Cycles -/

@[simp] theorem bare_successors (member : TaskId → Bool) :
    g.bare.successors r member = g.successors r member := by
  funext v
  rw [successors, bare_dependents, successors]

@[simp] theorem bare_search (member : TaskId → Bool) (roots : List TaskId) :
    g.bare.search r member roots = g.search r member roots := by
  unfold search searchBound
  rw [bare_successors, bare_length]

@[simp] theorem bare_findCycle : g.bare.findCycle r = g.findCycle r := g.bare_search ..

@[simp] theorem bare_checkAcyclic : g.bare.checkAcyclic r = g.checkAcyclic r := by
  rw [checkAcyclic, bare_findCycle, checkAcyclic]

@[simp] theorem bare_component (v : TaskId) : g.bare.component r v = g.component r v := by
  simp only [component, bare_closure]

@[simp] theorem bare_knotsAmong (seen l : List TaskId) :
    g.bare.knotsAmong r seen l = g.knotsAmong r seen l := by
  induction l generalizing seen with
  | nil => rfl
  | cons v rest ih => simp only [knotsAmong, bare_component, ih]

@[simp] theorem bare_cycles : g.bare.cycles r = g.cycles r := by
  simp only [cycles, knots, bare_findCycle, bare_knotsAmong, bare_search]

@[simp] theorem bare_validate (problems : List GraphFault) :
    g.bare.validate r problems = g.validate r problems := by
  rw [validate, bare_cycles, validate]

/-! Schedules -/

@[simp] theorem bare_start : Countdown.start g.bare r = Countdown.start g r := by
  simp only [Countdown.start, bare_ids, bare_prerequisites]

@[simp] theorem bare_step (c : Countdown) : c.step g.bare r = c.step g r := by
  simp only [Countdown.step, bare_dependents]

@[simp] theorem bare_run (fuel : Nat) (c : Countdown) :
    Countdown.run g.bare r fuel c = Countdown.run g r fuel c := by
  induction fuel generalizing c with
  | zero => rfl
  | succ fuel ih => simp only [Countdown.run, bare_step, ih]

@[simp] theorem bare_executionOrder : g.bare.executionOrder r = g.executionOrder r := by
  simp only [executionOrder, bare_run, bare_start, bare_length, bare_findCycle, bare_ids]

@[simp] theorem bare_depthsFrom (known : List (TaskId × Nat)) (l : List TaskId) :
    g.bare.depthsFrom known l = g.depthsFrom known l := by
  induction l generalizing known with
  | nil => rfl
  | cons v rest ih => simp only [depthsFrom, bare_prerequisites, ih]

@[simp] theorem bare_depths : g.bare.depths r = g.depths r := by
  simp only [depths, bare_executionOrder, bare_depthsFrom, bare_ids]

@[simp] theorem bare_levels : g.bare.levels r = g.levels r := by
  simp only [levels, bare_executionOrder, bare_depthsFrom]

/-! The critical path -/

@[simp] theorem bare_chainsFrom (known : List CriticalPath.Chain) (l : List TaskId) :
    g.bare.chainsFrom r known l = g.chainsFrom r known l := by
  induction l generalizing known with
  | nil => rfl
  | cons v rest ih =>
    simp only [chainsFrom, bare_prerequisites, bare_task?, Option.map_map, ih]
    rfl

@[simp] theorem bare_between (start finish : Option TaskId) :
    g.bare.between start finish = g.between start finish := by
  have closure (direction : Direction) : g.bare.closure direction = g.closure direction :=
    funext (g.bare_closure direction)
  rw [between, closure, closure, bare_ids, between]

@[simp] theorem bare_criticalPath (start finish : Option TaskId) :
    g.bare.criticalPath r start finish = g.criticalPath r start finish := by
  have require : g.bare.require = g.require := funext g.bare_require
  simp only [criticalPath, require, bare_executionOrder, bare_between, bare_chainsFrom,
    bare_dependents]

end Graph

theorem Ranking.ofGraph_bare {compare : Comparison} (blind : compare.Blind) (g : Graph) :
    Ranking.ofGraph g.bare compare = .ofGraph g compare := by
  have sorted : (g.tasks.map Task.bare).mergeSort (fun a b => compare a b != .gt) =
      (g.tasks.mergeSort fun a b => compare a b != .gt).map Task.bare :=
    (List.map_mergeSort fun a _ b _ => by rw [blind a b]).symm
  rw [ofGraph, Graph.bare, sorted, List.map_map]
  rfl

/-- Two analyzers that differ at most in the prerequisites that their tasks name and in the problems
behind the first one. -/
structure Analyzer.Alike (a b : Analyzer) : Prop where
  graph : a.graph.bare = b.graph.bare
  problem : a.problems.head? = b.problems.head?
  compare : a.compare = b.compare
  options : a.options = b.options
  blind : b.compare.Blind

namespace Analyzer.Alike

variable {a b : Analyzer} (h : a.Alike b)

include h

/-- A question about a graph that is answered alike without the prerequisites of tasks is answered
alike for both. -/
theorem same {α : Type} (question : Graph → α) (bare : ∀ g, question g.bare = question g) :
    question a.graph = question b.graph := by
  rw [← bare a.graph, h.graph, bare b.graph]

theorem ranking : a.ranking = b.ranking := by
  rw [Analyzer.ranking, h.compare]
  exact h.same (Ranking.ofGraph · b.compare) (Ranking.ofGraph_bare h.blind)

theorem ensureValid : a.ensureValid = b.ensureValid := by
  have problem := h.problem
  have checked := h.same (·.checkAcyclic b.ranking) fun g => g.bare_checkAcyclic b.ranking
  rw [Analyzer.ensureValid, Analyzer.ensureValid, h.ranking, checked]
  cases ha : a.problems with
  | nil =>
    cases hb : b.problems with
    | nil => rfl
    | cons _ _ => rw [ha, hb] at problem; contradiction
  | cons x _ =>
    cases hb : b.problems with
    | nil => rw [ha, hb] at problem; contradiction
    | cons y _ =>
      rw [ha, hb] at problem
      cases problem
      rfl

theorem executionOrder (ids : Option (List TaskId)) :
    a.executionOrder ids = b.executionOrder ids := by
  have order (g : Graph) : g.bare.executionOrder (.ofGraph g.bare b.compare) =
      g.executionOrder (.ofGraph g b.compare) := by
    rw [Ranking.ofGraph_bare h.blind, Graph.bare_executionOrder]
  unfold Analyzer.executionOrder
  rw [h.ensureValid, h.compare]
  cases ids with
  | none =>
    simp only [pure_bind]
    exact congrArg (b.ensureValid >>= fun _ => ·)
      (h.same (fun g => g.executionOrder (.ofGraph g b.compare)) order)
  | some ids =>
    refine h.same (fun g => g.subgraph ids >>= fun s =>
      b.ensureValid >>= fun _ => s.executionOrder (.ofGraph s b.compare)) fun g => ?_
    simp only [Graph.bare_subgraph]
    cases g.subgraph ids with
    | error _ => rfl
    | ok s =>
      show (b.ensureValid >>= fun _ => s.bare.executionOrder _) =
        b.ensureValid >>= fun _ => s.executionOrder _
      rw [order]

theorem levels : a.levels = b.levels := by
  rw [Analyzer.levels, h.ensureValid, h.ranking,
    h.same (·.levels b.ranking) fun g => g.bare_levels _, Analyzer.levels]

theorem walk (direction : Direction) (seed : TaskId) (maxDepth : Option Int) :
    a.walk direction seed maxDepth = b.walk direction seed maxDepth := by
  unfold Analyzer.walk Analyzer.resolveDepth
  have walked (limit : Nat) := h.same (·.walk b.ranking direction seed limit) fun g =>
    g.bare_walk b.ranking direction seed limit
  simp only [h.ensureValid, h.ranking, h.options, walked]

theorem orphans (policy : OrphanPolicy) : a.orphans policy = b.orphans policy := by
  rw [Analyzer.orphans, h.ensureValid, h.ranking,
    h.same (·.orphans b.ranking policy) fun g => g.bare_orphans _ _, Analyzer.orphans]

theorem leaves (status : Option Status) : a.leaves status = b.leaves status := by
  rw [Analyzer.leaves, h.ensureValid, h.ranking,
    h.same (·.leaves b.ranking status) fun g => g.bare_leaves _ _, Analyzer.leaves]

theorem criticalPath (start finish : Option TaskId) :
    a.criticalPath start finish = b.criticalPath start finish := by
  rw [Analyzer.criticalPath, h.ensureValid, h.ranking,
    h.same (·.criticalPath b.ranking start finish) fun g => g.bare_criticalPath _ _ _,
    Analyzer.criticalPath]

theorem depths : a.depths = b.depths := by
  rw [Analyzer.depths, h.ensureValid, h.ranking,
    h.same (·.depths b.ranking) fun g => g.bare_depths _, Analyzer.depths]

theorem ready : a.ready = b.ready := by
  rw [Analyzer.ready, h.ranking, h.same (·.ready) Graph.bare_ready, Analyzer.ready]

theorem blocked : a.blocked = b.blocked := by
  rw [Analyzer.blocked, h.ranking, h.same (·.blocked) Graph.bare_blocked, Analyzer.blocked]

theorem missing (id : TaskId) : a.graph.missing id = b.graph.missing id :=
  h.same (·.missing id) fun g => g.bare_missing id

theorem validate (problems : a.problems = b.problems) (ids : Option (List TaskId)) :
    a.validate ids = b.validate ids := by
  cases ids with
  | none =>
    rw [Analyzer.validate, h.ranking, problems,
      h.same (·.validate b.ranking b.problems) fun g => g.bare_validate _ _, Analyzer.validate]
  | some ids =>
    simp only [Analyzer.validate, h.compare, problems]
    refine h.same (fun g => (g.induced ids.contains).validate
      (.ofGraph (g.induced ids.contains) b.compare)
      ((ids.filter fun id => !g.contains id).map .unknownTask ++ _)) fun g => ?_
    simp only [Graph.bare_induced, Graph.bare_contains, Graph.bare_validate,
      Ranking.ofGraph_bare h.blind]

end Analyzer.Alike
end Precedence

import Precedence.Analyzer.Basic
import Precedence.Proofs.Chain
import Precedence.Proofs.Greedy
import Precedence.Proofs.Reordered
/-!
Answers do not depend on the order in which tasks and edges were loaded. Under a strict comparison
the ranking is the same, and with the same ranking every question about a reordered graph has the
same answer.
-/
namespace Precedence.Graph

theorem lookup_map_perm {α : Type} {ids ids' : List TaskId} (perm : ids.Perm ids') (f : TaskId → α)
    (id : TaskId) :
    (ids.map fun v => (v, f v)).lookup id = (ids'.map fun v => (v, f v)).lookup id := by
  by_cases listed : id ∈ ids
  · rw [Countdown.lookup_map_self listed, Countdown.lookup_map_self (perm.mem_iff.1 listed)]
  · have other (l : List TaskId) (off : id ∉ l) : (l.map fun v => (v, f v)).lookup id = none := by
      rw [List.lookup_eq_none_iff, List.forall_mem_map]
      intro v hv
      simpa using (ne_of_mem_of_not_mem hv off).symm
    rw [other ids listed, other ids' fun on => listed (perm.mem_iff.2 on)]

namespace Reordered

variable {g h : Graph} (same : g.Reordered h)

include same

/-! Schedules -/

theorem isFree (order : List TaskId) (v : TaskId) : g.IsFree order v ↔ h.IsFree order v := by
  have waits (p : TaskId) : p ∈ g.prerequisites v ↔ p ∈ h.prerequisites v :=
    (same.prerequisites v).mem_iff
  constructor
  · rintro ⟨loaded, new, waited⟩
    exact ⟨same.ids.mem_iff.1 loaded, new, fun p hp => waited p ((waits p).2 hp)⟩
  · rintro ⟨loaded, new, waited⟩
    exact ⟨same.ids.mem_iff.2 loaded, new, fun p hp => waited p ((waits p).1 hp)⟩

theorem greedy {r : Ranking} {order : List TaskId} (greedy : g.Greedy r order) :
    h.Greedy r order := by
  induction greedy with
  | nil => exact .nil
  | next _ free best ih =>
    exact ih.next ((same.isFree _ _).1 free) fun w hw => best w ((same.isFree _ _).2 hw)

theorem depthsFrom (known : List (TaskId × Nat)) (l : List TaskId) :
    g.depthsFrom known l = h.depthsFrom known l := by
  induction l generalizing known with
  | nil => rfl
  | cons v rest ih =>
    have deepest := (same.prerequisites v).foldl_eq' (f := fun d p =>
      max d ((known.lookup p).getD 0 + 1)) (fun _ _ _ _ _ => max_right_comm ..) 0
    simp only [Graph.depthsFrom, deepest, ih]

variable (sound : g.Sound) {r : Ranking} (ranks : r.order.Perm g.ids)

include sound ranks

/-- Both graphs have one and the same greedy schedule, or they have the same cycle. -/
theorem executionOrder : g.executionOrder r = h.executionOrder r := by
  have sound' := same.sound sound
  have ranks' := ranks.trans same.ids
  cases found : g.findCycle r with
  | some c =>
    rw [executionOrder_eq sound ranks, executionOrder_eq sound' ranks',
      ← same.findCycle ranks, found]
  | none =>
    have acyclic := (findCycle_eq_none_iff sound ranks).1 found
    have acyclic' : h.Acyclic := by
      unfold Acyclic
      rw [← same.link]
      exact acyclic
    obtain ⟨order, scheduled, isSchedule⟩ := exists_schedule sound ranks acyclic
    obtain ⟨order', scheduled', isSchedule'⟩ := exists_schedule sound' ranks' acyclic'
    have length : order.length = order'.length :=
      (isSchedule.perm.trans (same.ids.trans isSchedule'.perm.symm)).length_eq
    have greedy := same.greedy (greedy_of_executionOrder sound ranks scheduled)
    have greedy' := greedy_of_executionOrder sound' ranks' scheduled'
    rw [scheduled, scheduled', greedy.unique ranks' greedy' length]

theorem levels : g.levels r = h.levels r := by
  simp only [Graph.levels, same.executionOrder sound ranks, same.depthsFrom]

/-- The depths are listed in load order, but each task has the same one. -/
theorem depths : (g.depths r).map (fun depths id => depths.lookup id) =
    (h.depths r).map fun depths id => depths.lookup id := by
  rw [Graph.depths, Graph.depths, same.executionOrder sound ranks]
  cases h.executionOrder r with
  | error fault => rfl
  | ok order =>
    refine congrArg Except.ok (funext fun id => ?_)
    rw [same.depthsFrom]
    exact lookup_map_perm same.ids _ id

/-! The critical path -/

theorem chainsFrom (known : List CriticalPath.Chain) (l : List TaskId) :
    g.chainsFrom r known l = h.chainsFrom r known l := by
  induction l generalizing known with
  | nil => rfl
  | cons v rest ih =>
    have ahead := (same.prerequisites v).filterMap fun p => known.find? (·.last == p)
    have ranked : ∀ p ∈ g.prerequisites v, p ∈ r.order := fun p hp =>
      ranks.mem_iff.2 (mem_ids_of_mem_neighbours .up hp)
    have best := CriticalPath.Chain.best?_eq_of_perm ahead (CriticalPath.Chain.eq_of_rank_eq ranked)
    simp only [Graph.chainsFrom, best, same.task? sound.distinct, ih]

omit ranks in
theorem between (start finish : Option TaskId) :
    (g.between start finish).contains = (h.between start finish).contains := by
  have closure (direction : Direction) (v id : TaskId) :
      (g.closure direction v).contains id = (h.closure direction v).contains id :=
    (same.closure sound direction v).contains_eq
  funext id
  rw [Graph.between, Graph.between]
  simp only [Option.all_map, closure]
  exact (same.ids.filter _).contains_eq

theorem criticalPath (start finish : Option TaskId) :
    g.criticalPath r start finish = h.criticalPath r start finish := by
  have isLast (id : TaskId) (p : TaskId → Bool) :
      (g.dependents id).any p = (h.dependents id).any p :=
    (same.dependents id).any_eq
  have within := same.between sound start finish
  have holds (id : TaskId) := congrFun within id
  simp only [Graph.criticalPath, same.require, same.executionOrder sound ranks,
    within, holds, same.chainsFrom sound ranks, isLast]

omit ranks in
/-- The whole schedule, with each graph ranked for itself. -/
theorem ranked_executionOrder {compare : Comparison} (strict : compare.Strict) :
    g.executionOrder (.ofGraph g compare) = h.executionOrder (.ofGraph h compare) := by
  rw [same.executionOrder sound (Ranking.order_perm g compare),
    Ranking.ofGraph_eq_of_perm strict sound.distinct same.tasks]

end Reordered
end Graph

/-- Two analyzers that answer every question alike. Which depth each task has is compared, not in
which order the depths are listed. -/
structure Analyzer.Agrees (a b : Analyzer) : Prop where
  executionOrder : ∀ ids, a.executionOrder ids = b.executionOrder ids
  levels : a.levels = b.levels
  depths : a.depths.map (fun depths id => depths.lookup id) =
    b.depths.map fun depths id => depths.lookup id
  ancestors : ∀ seed maxDepth, a.ancestors seed maxDepth = b.ancestors seed maxDepth
  descendants : ∀ seed maxDepth, a.descendants seed maxDepth = b.descendants seed maxDepth
  orphans : ∀ policy, a.orphans policy = b.orphans policy
  leaves : ∀ status, a.leaves status = b.leaves status
  ready : a.ready = b.ready
  blocked : a.blocked = b.blocked
  criticalPath : ∀ start finish, a.criticalPath start finish = b.criticalPath start finish
  validate : ∀ ids, a.validate ids = b.validate ids

/-- Two analyzers of graphs that differ in their load orders, with the same strict comparison. -/
structure Analyzer.Reordered (a b : Analyzer) : Prop where
  graph : a.graph.Reordered b.graph
  sound : a.graph.Sound
  strict : b.compare.Strict
  problems : a.problems = b.problems
  compare : a.compare = b.compare
  options : a.options = b.options

namespace Analyzer.Reordered

variable {a b : Analyzer} (same : a.Reordered b)

include same

theorem ranking : a.ranking = b.ranking := by
  rw [Analyzer.ranking, same.compare, Analyzer.ranking]
  exact Ranking.ofGraph_eq_of_perm same.strict same.sound.distinct same.graph.tasks

theorem ranks : b.ranking.order.Perm a.graph.ids :=
  (Ranking.order_perm b.graph b.compare).trans same.graph.ids.symm

theorem ensureValid : a.ensureValid = b.ensureValid := by
  rw [Analyzer.ensureValid, Analyzer.ensureValid, same.problems, same.ranking,
    same.graph.checkAcyclic same.ranks]

theorem executionOrder (ids : Option (List TaskId)) :
    a.executionOrder ids = b.executionOrder ids := by
  unfold Analyzer.executionOrder
  rw [same.ensureValid, same.compare]
  cases ids with
  | none =>
    simp only [pure_bind]
    rw [same.graph.ranked_executionOrder same.sound same.strict]
  | some ids =>
    have part := (same.graph.induced ids.contains).ranked_executionOrder
      (same.sound.induced ids.contains) same.strict
    simp only [Graph.subgraph, same.graph.require, bind_assoc, pure_bind, part]

theorem levels : a.levels = b.levels := by
  rw [Analyzer.levels, same.ensureValid, same.ranking, same.graph.levels same.sound same.ranks,
    Analyzer.levels]

theorem depths : a.depths.map (fun depths id => depths.lookup id) =
    b.depths.map fun depths id => depths.lookup id := by
  rw [Analyzer.depths, Analyzer.depths, same.ensureValid, same.ranking]
  cases b.ensureValid with
  | error fault => rfl
  | ok _ => exact same.graph.depths same.sound same.ranks

theorem walk (direction : Direction) (seed : TaskId) (maxDepth : Option Int) :
    a.walk direction seed maxDepth = b.walk direction seed maxDepth := by
  simp only [Analyzer.walk, resolveDepth, same.options, same.ensureValid, same.ranking,
    same.graph.walk same.ranks]

theorem orphans (policy : OrphanPolicy) : a.orphans policy = b.orphans policy := by
  rw [Analyzer.orphans, same.ensureValid, same.ranking, same.graph.orphans same.sound.distinct,
    Analyzer.orphans]

theorem leaves (status : Option Status) : a.leaves status = b.leaves status := by
  rw [Analyzer.leaves, same.ensureValid, same.ranking, same.graph.leaves same.sound.distinct,
    Analyzer.leaves]

theorem ready : a.ready = b.ready := by
  rw [Analyzer.ready, same.ranking, Analyzer.ready]
  apply Ranking.sort_eq_of_perm (same.graph.ready same.sound.distinct)
  intro v hv
  exact same.ranks.mem_iff.2 (Graph.mem_ids_of_kept hv)

theorem blocked : a.blocked = b.blocked := by
  rw [Analyzer.blocked, same.ranking, Analyzer.blocked]
  apply Ranking.sort_eq_of_perm (same.graph.blocked same.sound.distinct)
  intro v hv
  exact same.ranks.mem_iff.2 (Graph.mem_ids_of_kept hv)

theorem criticalPath (start finish : Option TaskId) :
    a.criticalPath start finish = b.criticalPath start finish := by
  rw [Analyzer.criticalPath, same.ensureValid, same.ranking,
    same.graph.criticalPath same.sound same.ranks, Analyzer.criticalPath]

theorem validate (ids : Option (List TaskId)) : a.validate ids = b.validate ids := by
  cases ids with
  | none =>
    rw [Analyzer.validate, same.ranking, same.problems, same.graph.validate same.ranks same.sound,
      Analyzer.validate]
  | some ids =>
    have part := same.graph.induced ids.contains
    have sound := same.sound.induced ids.contains
    simp only [Analyzer.validate, same.problems, same.compare, same.graph.contains,
      Ranking.ofGraph_eq_of_perm same.strict sound.distinct part.tasks]
    exact part.validate ((Ranking.order_perm _ _).trans part.ids.symm) sound _

theorem agrees : a.Agrees b where
  executionOrder := same.executionOrder
  levels := same.levels
  depths := same.depths
  ancestors := same.walk .up
  descendants := same.walk .down
  orphans := same.orphans
  leaves := same.leaves
  ready := same.ready
  blocked := same.blocked
  criticalPath := same.criticalPath
  validate := same.validate

end Analyzer.Reordered

/-- Answers do not depend on load order: tasks of distinct identifiers and edges with nothing wrong
give analyzers with the same answers, errors included, in whatever order they are loaded. -/
theorem Analyzer.agrees_of_perm {tasks tasks' : List Task} {edges edges' : List Edge}
    (distinct : (tasks.map Task.id).Nodup) (built : (Graph.buildLenient tasks edges).2 = [])
    (perm : tasks.Perm tasks') (perm' : edges.Perm edges') (options : AnalysisOptions)
    (tieBreak : TieBreak) :
    (withOrder ⟨tasks, edges⟩ options tieBreak.compare).Agrees
      (withOrder ⟨tasks', edges'⟩ options tieBreak.compare) := by
  obtain ⟨graph, problems⟩ := Graph.reordered_buildLenient distinct perm perm'
  have same : (withOrder ⟨tasks, edges⟩ options tieBreak.compare).Reordered
      (withOrder ⟨tasks', edges'⟩ options tieBreak.compare) :=
    { graph
      sound := Graph.sound_buildLenient tasks edges
      strict := tieBreak.strict
      problems := built.trans (built ▸ problems).nil_eq
      compare := rfl
      options := rfl }
  exact same.agrees

open TaskMap in
/-- Two tasks that wait for each other, loaded the other way round. -/
theorem Analyzer.agrees_of_swap :
    ([sample a "x", sample b "y"].map Task.id).Nodup ∧
      (Graph.buildLenient [sample a "x", sample b "y"] [⟨a, b⟩, ⟨b, a⟩]).2 = [] ∧
      [sample a "x", sample b "y"].Perm [sample b "y", sample a "x"] ∧
      [(⟨a, b⟩ : Edge), ⟨b, a⟩].Perm [⟨b, a⟩, ⟨a, b⟩] ∧
      (withOrder ⟨[sample a "x", sample b "y"], [⟨a, b⟩, ⟨b, a⟩]⟩ {}
        TieBreak.createdAt.compare).Agrees
      (withOrder ⟨[sample b "y", sample a "x"], [⟨b, a⟩, ⟨a, b⟩]⟩ {}
        TieBreak.createdAt.compare) := by
  have distinct : ([sample a "x", sample b "y"].map Task.id).Nodup := by decide
  have built : (Graph.buildLenient [sample a "x", sample b "y"] [⟨a, b⟩, ⟨b, a⟩]).2 = [] := by
    decide +kernel
  have perm : [sample a "x", sample b "y"].Perm [sample b "y", sample a "x"] := .swap ..
  have perm' : [(⟨a, b⟩ : Edge), ⟨b, a⟩].Perm [⟨b, a⟩, ⟨a, b⟩] := .swap ..
  exact ⟨distinct, built, perm, perm', agrees_of_perm distinct built perm perm' {} .createdAt⟩

end Precedence

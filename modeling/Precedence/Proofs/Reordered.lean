import Mathlib.Data.List.Forall2
import Precedence.Proofs.Building
import Precedence.Proofs.Closure
import Precedence.Proofs.Ranking
/-!
Graphs of the same tasks and edges in different load orders. What is read off such graphs in load
order comes in different orders, too; a ranking puts it back in one order.
-/
namespace Precedence.Graph

/-- Two graphs of the same tasks and the same edges. -/
structure Reordered (g h : Graph) : Prop where
  tasks : g.tasks.Perm h.tasks
  links : g.links.Perm h.links
  unresolved : g.unresolved.Perm h.unresolved

/-! Building -/

theorem isLinkable_congr {g h : Graph} (same : g.contains = h.contains) :
    g.isLinkable = h.isLinkable := by
  funext e
  rw [isLinkable, same, isLinkable]

theorem isUnresolved_congr {g h : Graph} (same : g.contains = h.contains) :
    g.isUnresolved = h.isUnresolved := by
  funext e
  rw [isUnresolved, same, isUnresolved]

theorem fault?_congr {g h : Graph} (same : g.contains = h.contains) : g.fault? = h.fault? := by
  funext e
  rw [fault?, same, fault?]

theorem contains_of_perm {g h : Graph} (perm : g.tasks.Perm h.tasks) : g.contains = h.contains :=
  funext fun _ => perm.any_eq

/-- Tasks and edges in another order build the same graph up to order, and the same is wrong with
the edges. -/
theorem reordered_buildLenient {tasks tasks' : List Task} {edges edges' : List Edge}
    (distinct : (tasks.map Task.id).Nodup) (perm : tasks.Perm tasks') (perm' : edges.Perm edges') :
    (buildLenient tasks edges).1.Reordered (buildLenient tasks' edges').1 ∧
      (buildLenient tasks edges).2.Perm (buildLenient tasks' edges').2 := by
  have distinct' : (tasks'.map Task.id).Nodup := (perm.map _).nodup_iff.1 distinct
  have loaded : contains { tasks } = contains { tasks := tasks' } := contains_of_perm perm
  rw [buildLenient, buildLenient, foldl_addTask_distinct distinct, foldl_addTask_distinct distinct',
    addEdges_eq, addEdges_eq, isLinkable_congr loaded, isUnresolved_congr loaded,
    fault?_congr loaded]
  refine ⟨⟨perm, ?_, ?_⟩, perm'.filterMap _⟩
  · simp only [foldl_noteNew]
    exact (eraseDups_perm ((perm'.filter _).filter _)).append_left _
  · simp only [foldl_noteNew]
    exact (eraseDups_perm ((perm'.filter _).filter _)).append_left _

namespace Reordered

variable {g h : Graph} (same : g.Reordered h)

include same

theorem induced (keep : TaskId → Bool) : (g.induced keep).Reordered (h.induced keep) :=
  ⟨same.tasks.filter _, same.links.filter _, same.unresolved.filter _⟩

theorem ids : g.ids.Perm h.ids := same.tasks.map _

theorem length : g.tasks.length = h.tasks.length := same.tasks.length_eq

theorem contains : g.contains = h.contains := contains_of_perm same.tasks

theorem require : g.require = h.require := by
  funext id
  rw [Graph.require, same.contains, Graph.require]

theorem link : g.Link = h.Link := by
  funext p d
  exact propext same.links.mem_iff

theorem sound (sound : g.Sound) : h.Sound where
  distinct := same.ids.nodup_iff.1 sound.distinct
  dependent_mem e he := same.ids.mem_iff.1 (sound.dependent_mem e (same.links.mem_iff.2 he))
  prerequisite_mem e he := same.ids.mem_iff.1 (sound.prerequisite_mem e (same.links.mem_iff.2 he))
  noSelf e he := sound.noSelf e (same.links.mem_iff.2 he)
  links_distinct := same.links.nodup_iff.1 sound.links_distinct

theorem prerequisites (v : TaskId) : (g.prerequisites v).Perm (h.prerequisites v) := by
  have named := (same.links.filter (·.dependent == v)).map Edge.prerequisite
  rw [Graph.prerequisites, Graph.prerequisites, funext fun id => named.contains_eq (a := id)]
  exact same.ids.filter _

theorem dependents (v : TaskId) : (g.dependents v).Perm (h.dependents v) := by
  have named := (same.links.filter (·.prerequisite == v)).map Edge.dependent
  rw [Graph.dependents, Graph.dependents, funext fun id => named.contains_eq (a := id)]
  exact same.ids.filter _

theorem neighbours (direction : Direction) (v : TaskId) :
    (g.neighbours direction v).Perm (h.neighbours direction v) := by
  cases direction with
  | up => exact same.prerequisites v
  | down => exact same.dependents v

theorem missing (v : TaskId) : (g.missing v).Perm (h.missing v) :=
  (same.unresolved.filter _).map _

/-! Tasks -/

theorem task? (distinct : g.ids.Nodup) : g.task? = h.task? := by
  funext id
  apply Option.ext
  intro t
  rw [task?_eq_some_iff distinct, task?_eq_some_iff (same.ids.nodup_iff.1 distinct),
    same.tasks.mem_iff]

theorem isReady (distinct : g.ids.Nodup) : g.isReady = h.isReady := by
  funext t
  have complete : g.isComplete = h.isComplete := by
    funext id
    rw [isComplete, same.task? distinct, isComplete]
  rw [Graph.isReady, (same.missing t.id).isEmpty_eq, (same.prerequisites t.id).all_eq, complete,
    Graph.isReady]

theorem isBlocked (distinct : g.ids.Nodup) : g.isBlocked = h.isBlocked := by
  funext t
  rw [Graph.isBlocked, (same.missing t.id).isEmpty_eq, (same.prerequisites t.id).any_eq]
  simp only [isComplete, same.task? distinct]
  rfl

theorem isOrphan (policy : OrphanPolicy) : g.isOrphan policy = h.isOrphan policy := by
  funext t
  rw [Graph.isOrphan, (same.prerequisites t.id).isEmpty_eq, (same.dependents t.id).isEmpty_eq]
  rfl

theorem ready (distinct : g.ids.Nodup) : g.ready.Perm h.ready := by
  rw [Graph.ready, same.isReady distinct]
  exact (same.tasks.filter _).map _

theorem blocked (distinct : g.ids.Nodup) : g.blocked.Perm h.blocked := by
  rw [Graph.blocked, same.isBlocked distinct]
  exact (same.tasks.filter _).map _

end Reordered

/-! Walks -/

theorem nodup_frontierAfter (next : TaskId → List TaskId) (seen frontier : List TaskId) :
    (frontierAfter next seen frontier).Nodup := nodup_eraseDups _

theorem frontierAfter_perm {next next' : TaskId → List TaskId}
    (along : ∀ v, (next v).Perm (next' v))
    {seen seen' frontier frontier' : List TaskId} (met : seen.Perm seen')
    (front : frontier.Perm frontier') :
    (frontierAfter next seen frontier).Perm (frontierAfter next' seen' frontier') := by
  rw [List.perm_ext_iff_of_nodup (nodup_frontierAfter ..) (nodup_frontierAfter ..)]
  intro w
  rw [mem_frontierAfter, mem_frontierAfter, met.mem_iff]
  simp only [front.mem_iff, (along _).mem_iff]

/-- Layer by layer, a walk meets the same tasks. -/
theorem layersFrom_perm {next next' : TaskId → List TaskId} (along : ∀ v, (next v).Perm (next' v))
    (fuel : Nat) {seen seen' frontier frontier' : List TaskId} (met : seen.Perm seen')
    (front : frontier.Perm frontier') :
    List.Forall₂ List.Perm (layersFrom next fuel seen frontier)
      (layersFrom next' fuel seen' frontier') := by
  induction fuel generalizing seen seen' frontier frontier' with
  | zero => exact .nil
  | succ fuel ih =>
    have layer := frontierAfter_perm along met front
    rw [layersFrom, layersFrom]
    cases e : frontierAfter next seen frontier with
    | nil =>
      have empty : frontierAfter next' seen' frontier' = [] := (e ▸ layer).nil_eq.symm
      rw [empty]
      exact .nil
    | cons v vs =>
      cases e' : frontierAfter next' seen' frontier' with
      | nil =>
        rw [e, e'] at layer
        exact absurd layer.eq_nil (List.cons_ne_nil v vs)
      | cons w ws =>
        rw [e, e'] at layer
        exact .cons layer (ih (met.append layer) layer)

theorem map_sort_eq_of_perm {r : Ranking} {ls ls' : List (List TaskId)}
    (perm : List.Forall₂ List.Perm ls ls') (ranked : ∀ l ∈ ls, ∀ v ∈ l, v ∈ r.order) :
    ls.map r.sort = ls'.map r.sort := by
  induction perm with
  | nil => rfl
  | cons perm _ ih =>
    obtain ⟨first, others⟩ := List.forall_mem_cons.1 ranked
    rw [List.map_cons, List.map_cons, Ranking.sort_eq_of_perm perm first, ih others]

/-- The layers of a walk, each in the order of the ranks. -/
def rankedLayers (g : Graph) (r : Ranking) (direction : Direction) (seed : TaskId) :
    List (List TaskId) :=
  (g.layers direction seed).map r.sort

theorem walk_eq (g : Graph) (r : Ranking) (direction : Direction) (seed : TaskId) (maxDepth : Nat) :
    g.walk r direction seed maxDepth = (do
      g.require seed
      let tasks := ((g.rankedLayers r direction seed).take maxDepth).mapIdx fun i layer =>
        layer.map fun id => ⟨id, i + 1⟩
      let beyond := (g.rankedLayers r direction seed)[maxDepth]?.getD []
      return { seed, maxDepth, tasks := tasks.flatten, beyondLimit := beyond.length }) := by
  have beyond : ((g.rankedLayers r direction seed)[maxDepth]?.getD []).length =
      ((g.layers direction seed)[maxDepth]?.getD []).length := by
    rw [rankedLayers, List.getElem?_map]
    cases (g.layers direction seed)[maxDepth]? with
    | none => rfl
    | some layer => exact (r.sort_perm layer).length_eq
  have tasks : ((g.rankedLayers r direction seed).take maxDepth).mapIdx
        (fun i layer => layer.map fun id => Relative.mk id (i + 1)) =
      ((g.layers direction seed).take maxDepth).mapIdx fun i layer =>
        (r.sort layer).map fun id => Relative.mk id (i + 1) := by
    apply List.ext_getElem?
    intro i
    rw [rankedLayers, ← List.map_take, List.getElem?_mapIdx, List.getElem?_mapIdx,
      List.getElem?_map, Option.map_map]
    rfl
  simp only [walk, beyond, tasks]

namespace Reordered

variable {g h : Graph} (same : g.Reordered h) {r : Ranking} (ranks : r.order.Perm g.ids)

include same

theorem linkAlong : g.linkAlong = h.linkAlong := by
  funext direction
  cases direction with
  | up =>
    unfold Graph.linkAlong
    rw [same.link]
  | down =>
    unfold Graph.linkAlong
    rw [same.link]

theorem closure (sound : g.Sound) (direction : Direction) (v : TaskId) :
    (g.closure direction v).Perm (h.closure direction v) := by
  rw [List.perm_ext_iff_of_nodup (nodup_closure g direction v) (nodup_closure h direction v)]
  intro w
  rw [sound.mem_closure, (same.sound sound).mem_closure, same.linkAlong]

include ranks

theorem rankedLayers (direction : Direction) (seed : TaskId) :
    g.rankedLayers r direction seed = h.rankedLayers r direction seed := by
  have layers : List.Forall₂ List.Perm (g.layers direction seed) (h.layers direction seed) := by
    rw [layers, layers, same.length]
    exact layersFrom_perm (same.neighbours direction) _ (.refl _) (.refl _)
  exact map_sort_eq_of_perm layers fun layer hl v hv =>
    ranks.mem_iff.2 (mem_ids_of_mem_layers hl hv)

theorem walk (direction : Direction) (seed : TaskId) (maxDepth : Nat) :
    g.walk r direction seed maxDepth = h.walk r direction seed maxDepth := by
  rw [walk_eq, same.require, same.rankedLayers ranks, walk_eq]

omit ranks in
theorem orphans (distinct : g.ids.Nodup) (policy : OrphanPolicy) :
    g.orphans r policy = h.orphans r policy := by
  rw [Graph.orphans, same.task? distinct, same.isOrphan, Graph.orphans]

omit ranks in
theorem leaves (distinct : g.ids.Nodup) (status : Option Status) :
    g.leaves r status = h.leaves r status := by
  have last (v : TaskId) : (g.dependents v).isEmpty = (h.dependents v).isEmpty :=
    (same.dependents v).isEmpty_eq
  simp only [Graph.leaves, same.task? distinct, last]

/-! Cycles -/

theorem successors (member : TaskId → Bool) : g.successors r member = h.successors r member := by
  funext v
  apply Ranking.sort_eq_of_perm ((same.dependents v).filter member)
  intro w hw
  exact ranks.mem_iff.2 (mem_ids_of_mem_neighbours .down (List.mem_filter.1 hw).1)

theorem search (member : TaskId → Bool) (roots : List TaskId) :
    g.search r member roots = h.search r member roots := by
  rw [Graph.search, same.successors ranks, searchBound, same.length, Graph.search, searchBound]

theorem findCycle : g.findCycle r = h.findCycle r := same.search ranks _ _

theorem checkAcyclic : g.checkAcyclic r = h.checkAcyclic r := by
  rw [Graph.checkAcyclic, same.findCycle ranks, Graph.checkAcyclic]

theorem component (sound : g.Sound) {v : TaskId} (hv : v ∈ r.order) :
    g.component r v = h.component r v := by
  have above := same.closure sound .up v
  have members : ((g.closure .down v).filter (g.closure .up v).contains).Perm
      ((h.closure .down v).filter (h.closure .up v).contains) := by
    rw [funext fun id => above.contains_eq (a := id)]
    exact (same.closure sound .down v).filter _
  apply Ranking.sort_eq_of_perm members
  intro w hw
  -- The task itself may have no links at all; any other task is reached by one.
  have reached := sound.mem_closure.1 (List.mem_filter.1 hw).1
  rcases reached.cases_tail with rfl | ⟨_, -, link⟩
  · exact hv
  · exact ranks.mem_iff.2 (sound.mem_of_link link).2

theorem knotsAmong (sound : g.Sound) (seen : List TaskId) {vs : List TaskId}
    (ranked : ∀ v ∈ vs, v ∈ r.order) : g.knotsAmong r seen vs = h.knotsAmong r seen vs := by
  induction vs generalizing seen with
  | nil => rfl
  | cons v vs ih =>
    obtain ⟨first, others⟩ := List.forall_mem_cons.1 ranked
    rw [Graph.knotsAmong, Graph.knotsAmong, same.component ranks sound first]
    simp only [ih _ others]

theorem cycles (sound : g.Sound) : g.cycles r = h.cycles r := by
  have knots : g.knots r = h.knots r := same.knotsAmong ranks sound [] fun _ => id
  simp only [Graph.cycles, same.findCycle ranks, knots, same.search ranks]

theorem validate (sound : g.Sound) (problems : List GraphFault) :
    g.validate r problems = h.validate r problems := by
  rw [Graph.validate, same.cycles ranks sound, Graph.validate]

end Reordered
end Precedence.Graph

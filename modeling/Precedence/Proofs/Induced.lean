import Precedence.Proofs.Building
import Precedence.Proofs.Faithful
/-!
Parts of graphs. A part is what would have been built of its tasks and of the edges that concern it,
so it does not matter whether tasks are left out before or after a graph is built, nor in how many
steps. And the tasks of a part are ranked as they are ranked in the whole.
-/
namespace Precedence

namespace Graph

/-- The edges that concern a part of a graph. They lead from one of its tasks to another one, or to
what is not loaded at all. -/
def edgesWithin (g : Graph) (keep : TaskId → Bool) (edges : List Edge) : List Edge :=
  edges.filter fun e => (g.induced keep).contains e.dependent &&
    ((g.induced keep).contains e.prerequisite || !g.contains e.prerequisite)

/-- What a graph holds besides its tasks is told by these and by a list of edges. -/
structure Collects (g : Graph) (edges : List Edge) : Prop where
  distinct : g.ids.Nodup
  links : g.links = (edges.filter g.isLinkable).eraseDups
  unresolved : g.unresolved = (edges.filter g.isUnresolved).eraseDups

theorem contains_buildLenient (tasks : List Task) (edges : List Edge) :
    (buildLenient tasks edges).1.contains = (tasks.foldl addTask {}).contains := by
  rw [buildLenient, addEdges_eq]
  rfl

theorem collects_buildLenient (tasks : List Task) (edges : List Edge) :
    (buildLenient tasks edges).1.Collects edges where
  distinct := (sound_buildLenient tasks edges).distinct
  links := by
    rw [links_buildLenient]
    unfold isLinkable
    rw [contains_buildLenient]
  unresolved := by
    rw [unresolved_buildLenient]
    unfold isUnresolved
    rw [contains_buildLenient]

/-- Nothing but the tasks and the edges decides what is built. -/
theorem Collects.eq_buildLenient {g : Graph} {edges : List Edge} (h : g.Collects edges) :
    g = (buildLenient g.tasks edges).1 := by
  have built : (buildLenient g.tasks edges).1 = ⟨g.tasks,
      (edges.filter g.isLinkable).foldl noteNew [],
      (edges.filter g.isUnresolved).foldl noteNew []⟩ := by
    rw [buildLenient, foldl_addTask_distinct h.distinct, addEdges_eq]
    rfl
  rw [built, foldl_noteNew, foldl_noteNew]
  simp only [List.not_mem_nil, not_false_eq_true, decide_true, List.filter_true, List.nil_append]
  rw [← h.links, ← h.unresolved]

section

variable {g : Graph} {keep : TaskId → Bool}

@[simp] theorem contains_induced (v : TaskId) :
    (g.induced keep).contains v = (g.contains v && keep v) := by
  rw [Bool.eq_iff_iff]
  simp

theorem Collects.induced {edges : List Edge} (h : g.Collects edges) :
    (g.induced keep).Collects (g.edgesWithin keep edges) where
  distinct := by simpa using h.distinct.filter keep
  links := by
    show g.links.filter (fun e => keep e.dependent && keep e.prerequisite) = _
    rw [h.links, ← eraseDups_filter, List.filter_filter, edgesWithin, List.filter_filter]
    refine congrArg _ (List.filter_congr fun e _ => ?_)
    simp only [isLinkable, contains_induced]
    cases e.isSelf <;> cases g.contains e.dependent <;> cases g.contains e.prerequisite <;>
      cases keep e.dependent <;> cases keep e.prerequisite <;> rfl
  unresolved := by
    show g.unresolved.filter (fun e => keep e.dependent) = _
    rw [h.unresolved, ← eraseDups_filter, List.filter_filter, edgesWithin, List.filter_filter]
    refine congrArg _ (List.filter_congr fun e _ => ?_)
    simp only [isUnresolved, contains_induced]
    cases e.isSelf <;> cases g.contains e.dependent <;> cases g.contains e.prerequisite <;>
      cases keep e.dependent <;> cases keep e.prerequisite <;> rfl

@[simp] theorem induced_induced (keep' : TaskId → Bool) :
    (g.induced keep).induced keep' = g.induced fun v => keep v && keep' v := by
  simp only [induced, List.filter_filter, Graph.mk.injEq]
  refine ⟨List.filter_congr fun t _ => Bool.and_comm _ _, List.filter_congr fun e _ => ?_,
    List.filter_congr fun e _ => Bool.and_comm _ _⟩
  cases keep e.dependent <;> cases keep e.prerequisite <;> cases keep' e.dependent <;>
    cases keep' e.prerequisite <;> rfl

/-- A part is ranked as it is in the whole by a comparison that is consistent on the tasks of the
whole. -/
theorem order_induced {compare : Comparison} (orders : compare.Orders g.tasks) :
    (Ranking.ofGraph (g.induced keep) compare).order =
      (Ranking.ofGraph g compare).order.filter keep := by
  have loaded : ∀ t ∈ (g.induced keep).tasks, t ∈ g.tasks := fun t ht => (List.mem_filter.1 ht).1
  have whole : Ranking.ofGraph g (compare.among g.tasks) = Ranking.ofGraph g compare :=
    Ranking.ofGraph_among fun _ => id
  rw [← Ranking.ofGraph_among loaded, ← whole]
  exact Ranking.ofGraph_induced orders.transCmp_among g keep

theorem rank_induced_le_iff {compare : Comparison} (orders : compare.Orders g.tasks) {v w : TaskId}
    (hv : keep v) (hw : keep w) :
    (Ranking.ofGraph (g.induced keep) compare).rank v ≤
        (Ranking.ofGraph (g.induced keep) compare).rank w ↔
      (Ranking.ofGraph g compare).rank v ≤ (Ranking.ofGraph g compare).rank w := by
  rw [Ranking.rank, Ranking.rank, order_induced orders]
  exact idxOf_filter_le_iff hv hw

theorem rank_induced_lt_iff {compare : Comparison} (orders : compare.Orders g.tasks) {v w : TaskId}
    (hv : keep v) (hw : keep w) :
    (Ranking.ofGraph (g.induced keep) compare).rank v <
        (Ranking.ofGraph (g.induced keep) compare).rank w ↔
      (Ranking.ofGraph g compare).rank v < (Ranking.ofGraph g compare).rank w := by
  rw [← Nat.not_le, ← Nat.not_le, rank_induced_le_iff orders hw hv]

end

/-- What a part of a graph has to be: the graph of its tasks, in load order, and of the edges that
concern it, in which each identifier leads to the task that has it. A part of it is a part of the
whole, and its tasks are ranked as they are in the whole, also where they compare as equal. -/
structure IsPart (part g : Graph) (edges : List Edge) (keep : TaskId → Bool) : Prop where
  built : part = (buildLenient (g.tasks.filter fun t => keep t.id) (g.edgesWithin keep edges)).1
  index?_eq_some_iff : ∀ v i, part.index? v = some i ↔ ∃ t, part.tasks[i]? = some t ∧ t.id = v
  induced : ∀ keep', part.induced keep' = g.induced fun v => keep v && keep' v
  order : ∀ compare : Comparison, compare.Orders g.tasks →
    (Ranking.ofGraph part compare).order = (Ranking.ofGraph g compare).order.filter keep
  rank_lt_iff : ∀ compare : Comparison, compare.Orders g.tasks → ∀ v ∈ part.ids, ∀ w ∈ part.ids,
    ((Ranking.ofGraph part compare).rank v < (Ranking.ofGraph part compare).rank w ↔
      (Ranking.ofGraph g compare).rank v < (Ranking.ofGraph g compare).rank w)

/-- It makes no difference whether tasks are left out before or after a graph is built. -/
theorem part_is_built (tasks : List Task) (edges : List Edge) (keep : TaskId → Bool) :
    ((buildLenient tasks edges).1.induced keep).IsPart (buildLenient tasks edges).1 edges keep := by
  have collects : ((buildLenient tasks edges).1.induced keep).Collects
      ((buildLenient tasks edges).1.edgesWithin keep edges) :=
    (collects_buildLenient tasks edges).induced
  have kept {v : TaskId} (hv : v ∈ ((buildLenient tasks edges).1.induced keep).ids) : keep v :=
    (mem_ids_induced.1 hv).2
  refine ⟨collects.eq_buildLenient, fun v i => ?_, fun _ => induced_induced _,
    fun _ => order_induced,
    fun _ orders v hv w hw => rank_induced_lt_iff orders (kept hv) (kept hw)⟩
  rw [Graph.index?_eq_some_iff collects.distinct, ids, List.getElem?_map, Option.map_eq_some_iff]

open TaskMap Ranking in
theorem part_is_built_of_pair :
    let g := (buildLenient [sample b "y", sample a "x"] [⟨b, a⟩, ⟨b, c⟩, ⟨a, b⟩, ⟨a, c⟩]).1
    g.induced (· == b) = (buildLenient [sample b "y"] [⟨b, c⟩]).1 ∧ unsettled.Orders g.tasks ∧
      (ofGraph (g.induced (· == b)) unsettled).order =
        (ofGraph g unsettled).order.filter (· == b) := by
  intro g
  have part := part_is_built [sample b "y", sample a "x"] [⟨b, a⟩, ⟨b, c⟩, ⟨a, b⟩, ⟨a, c⟩] (· == b)
  have orders : unsettled.Orders g.tasks := by constructor <;> decide
  have tasks : (g.tasks.filter fun t => t.id == b) = [sample b "y"] := by decide
  have edges : g.edgesWithin (· == b) [⟨b, a⟩, ⟨b, c⟩, ⟨a, b⟩, ⟨a, c⟩] = [⟨b, c⟩] := by decide
  refine ⟨?_, orders, part.order unsettled orders⟩
  rw [← tasks, ← edges]
  exact part.built

end Graph
end Precedence

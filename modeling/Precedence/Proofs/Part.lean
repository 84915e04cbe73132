import Precedence.Proofs.Greedy
import Precedence.Proofs.Induced
import Precedence.Proofs.Validity
/-!
Schedules of a part of the tasks. A part is scheduled as a graph of its own, ranked anew. Where it
holds all prerequisites of its tasks, its tasks become free as they do among all tasks and have the
ranks that they have there, so its schedule is the whole schedule with the other tasks left out.
-/
namespace Precedence.Graph

variable {g : Graph} {r : Ranking}

/-- A part that holds all prerequisites of its tasks. -/
def IsClosed (g : Graph) (keep : TaskId → Bool) : Prop := ∀ p d, g.Link p d → keep d → keep p

theorem isFree_induced (sound : g.Sound) {keep : TaskId → Bool} (closed : g.IsClosed keep)
    {order : List TaskId} {v : TaskId} :
    (g.induced keep).IsFree (order.filter keep) v ↔ keep v ∧ g.IsFree order v := by
  have waits {p : TaskId} : p ∈ (g.induced keep).prerequisites v ↔
      p ∈ g.prerequisites v ∧ keep v ∧ keep p := by
    simp [sound, sound.induced keep]
  constructor
  · rintro ⟨loaded, new, waited⟩
    obtain ⟨there, kept⟩ := mem_ids_induced.1 loaded
    refine ⟨kept, there, fun old => new (List.mem_filter.2 ⟨old, kept⟩), fun p hp => ?_⟩
    have kept' := closed p v (sound.mem_prerequisites.1 hp) kept
    exact (List.mem_filter.1 (waited p (waits.2 ⟨hp, kept, kept'⟩))).1
  · rintro ⟨kept, loaded, new, waited⟩
    refine ⟨mem_ids_induced.2 ⟨loaded, kept⟩, fun old => new (List.mem_filter.1 old).1,
      fun p hp => ?_⟩
    obtain ⟨needed, -, kept'⟩ := waits.1 hp
    exact List.mem_filter.2 ⟨waited p needed, kept'⟩

/-- What a greedy schedule has of a closed part is a greedy schedule of the part. -/
theorem Greedy.induced (sound : g.Sound) {keep : TaskId → Bool} (closed : g.IsClosed keep)
    {order : List TaskId} (h : g.Greedy r order) :
    (g.induced keep).Greedy r (order.filter keep) := by
  induction h with
  | nil => exact .nil
  | @next order v _ free best ih =>
    by_cases kept : keep v
    · rw [List.filter_append, List.filter_cons_of_pos kept, List.filter_nil]
      apply ih.next ((isFree_induced sound closed).2 ⟨kept, free⟩)
      intro w hw
      exact best w ((isFree_induced sound closed).1 hw).2
    · simpa [kept] using ih

/-- Which schedule is greedy depends on the order of the ranks alone. -/
theorem Greedy.of_ranks {r' : Ranking} (agree : ∀ v ∈ g.ids, ∀ w ∈ g.ids, r.rank v ≤ r.rank w →
    r'.rank v ≤ r'.rank w) {order : List TaskId} (h : g.Greedy r order) : g.Greedy r' order := by
  induction h with
  | nil => exact .nil
  | next _ free best ih =>
    apply ih.next free
    intro w hw
    exact agree _ free.loaded w hw.loaded (best w hw)

/-- A closed part is executed in the order of the whole. -/
theorem executionOrder_induced {compare : Comparison} (orders : compare.Orders g.tasks)
    (sound : g.Sound) (acyclic : g.Acyclic) {keep : TaskId → Bool} (closed : g.IsClosed keep)
    {whole : List TaskId} (scheduled : g.executionOrder (.ofGraph g compare) = .ok whole) :
    (g.induced keep).executionOrder (.ofGraph (g.induced keep) compare) =
      .ok (whole.filter keep) := by
  have ranks := Ranking.order_perm (g.induced keep) compare
  obtain ⟨order, part, schedule⟩ :=
    exists_schedule (sound.induced keep) ranks (acyclic.induced keep)
  obtain ⟨all, scheduled', schedule'⟩ :=
    exists_schedule sound (Ranking.order_perm g compare) acyclic
  obtain rfl : whole = all := Except.ok.inj (scheduled.symm.trans scheduled')
  have greedy :
      (g.induced keep).Greedy (.ofGraph (g.induced keep) compare) (whole.filter keep) := by
    apply ((greedy_of_executionOrder sound (Ranking.order_perm g compare) scheduled).induced sound
      closed).of_ranks
    intro v hv w hw
    exact (rank_induced_le_iff orders (mem_ids_induced.1 hv).2 (mem_ids_induced.1 hw).2).2
  have length : order.length = (whole.filter keep).length := by
    rw [schedule.perm.length_eq, ids_induced]
    exact (schedule'.perm.filter keep).length_eq.symm
  rw [part, Greedy.unique ranks (greedy_of_executionOrder (sound.induced keep) ranks part) greedy
    length]

/-- A part without a cycle is executed once each and after the prerequisites in it. -/
theorem exists_order_induced (sound : g.Sound) (acyclic : g.Acyclic) (compare : Comparison)
    {ids : List TaskId} (known : ∀ id ∈ ids, id ∈ g.ids) : ∃ order,
      (g.induced ids.contains).executionOrder (.ofGraph (g.induced ids.contains) compare) =
        .ok order ∧
      order.Nodup ∧ (∀ v, v ∈ order ↔ v ∈ ids) ∧
      ∀ before v after, order = before ++ v :: after → ∀ p ∈ ids, g.Link p v → p ∈ before := by
  have part := sound.induced ids.contains
  obtain ⟨order, ordered, schedule⟩ :=
    exists_schedule part (Ranking.order_perm _ compare) (acyclic.induced ids.contains)
  have mem (v : TaskId) : v ∈ order ↔ v ∈ ids := by
    rw [schedule.perm.mem_iff, mem_ids_induced, List.contains_iff_mem]
    exact and_iff_right_of_imp (known v)
  refine ⟨order, ordered, schedule.perm.nodup_iff.2 part.distinct, mem, ?_⟩
  rintro before v after rfl p hp link
  have hv : v ∈ ids := (mem v).1 (by simp)
  apply schedule.ordered before v after rfl
  simp [part, link, hv, hp]

theorem forM_require_eq_error {known rest : List TaskId} {id : TaskId}
    (loaded : ∀ v ∈ known, v ∈ g.ids) (unknown : id ∉ g.ids) :
    (known ++ id :: rest).forM g.require = .error (.unknownTask id) := by
  have refused : g.require id = .error (.unknownTask id) :=
    if_neg fun there => unknown ((g.contains_iff id).1 there)
  calc (known ++ id :: rest).forM g.require
    _ = known.forM g.require >>= fun _ => (id :: rest).forM g.require := List.forM_append
    _ = g.require id >>= fun _ => rest.forM g.require := by rw [forM_require_eq_ok loaded]; rfl
    _ = .error (.unknownTask id) := by rw [refused]; rfl

end Precedence.Graph

namespace Precedence

namespace Analyzer

variable {a : Analyzer}

/-- The order of a part of a valid snapshot is that of the graph on the part. -/
theorem executionOrder_part (valid : a.ensureValid = .ok ()) {ids : List TaskId}
    (known : ∀ id ∈ ids, id ∈ a.graph.ids) :
    a.executionOrder (some ids) = (a.graph.induced ids.contains).executionOrder
      (.ofGraph (a.graph.induced ids.contains) a.compare) := by
  rw [executionOrder]
  dsimp only
  rw [Graph.subgraph, Graph.forM_require_eq_ok known, valid]
  rfl

theorem executionOrder_unknown {known rest : List TaskId} {id : TaskId}
    (loaded : ∀ v ∈ known, v ∈ a.graph.ids) (unknown : id ∉ a.graph.ids) :
    a.executionOrder (some (known ++ id :: rest)) = .error (.unknownTask id) := by
  rw [executionOrder]
  dsimp only
  rw [Graph.subgraph, Graph.forM_require_eq_error loaded unknown]
  rfl

theorem executionOrder_congr {ids ids' : List TaskId} (valid : a.ensureValid = .ok ())
    (known : ∀ id ∈ ids, id ∈ a.graph.ids) (same : ∀ v, v ∈ ids' ↔ v ∈ ids) :
    a.executionOrder (some ids') = a.executionOrder (some ids) := by
  have contains : ids'.contains = ids.contains := by
    funext v
    rw [Bool.eq_iff_iff, List.contains_iff_mem, List.contains_iff_mem, same]
  have known' : ∀ id ∈ ids', id ∈ a.graph.ids := fun id hid => known id ((same id).1 hid)
  rw [executionOrder_part valid known, executionOrder_part valid known', contains]

end Analyzer

namespace Snapshot

variable {s : Snapshot} {options : AnalysisOptions} {compare : Comparison}

@[simp] theorem mem_ids_graph {id : TaskId} : id ∈ s.graph.ids ↔ id ∈ s.tasks.map Task.id :=
  Graph.mem_ids_buildLenient

section

variable (valid : ((Analyzer.withOrder s options compare).validate none).isValid = true)
include valid

theorem ensureValid_of_isValid :
    (Analyzer.withOrder s options compare).ensureValid = .ok () := by
  rw [ensureValid_withOrder,
    firstFault?_eq_none_iff.2 ((s.isValid_validate options compare).1 valid)]

theorem executionOrder_none :
    (Analyzer.withOrder s options compare).executionOrder none =
      s.graph.executionOrder (.ofGraph s.graph compare) := by
  rw [Analyzer.executionOrder, ensureValid_of_isValid valid]
  rfl

theorem executionOrder_of_closed (orders : compare.Orders s.graph.tasks)
    {ids : List TaskId} (known : ∀ id ∈ ids, id ∈ s.graph.ids)
    (closed : ∀ e ∈ s.edges, e.dependent ∈ ids → e.prerequisite ∈ ids) {whole : List TaskId}
    (scheduled : (Analyzer.withOrder s options compare).executionOrder none = .ok whole) :
    (Analyzer.withOrder s options compare).executionOrder (some ids) =
      .ok (whole.filter (· ∈ ids)) := by
  obtain ⟨-, acyclic⟩ := (s.isValid_validate options compare).1 valid
  have closed' : s.graph.IsClosed ids.contains := by
    intro p d link hd
    rw [List.contains_iff_mem] at *
    exact closed _ (Graph.link_buildLenient.1 link).1 hd
  have same : (fun id => decide (id ∈ ids)) = ids.contains := by
    funext id
    rw [List.contains_eq_mem]
  rw [executionOrder_none valid] at scheduled
  rw [Analyzer.executionOrder_part (ensureValid_of_isValid valid) known, same]
  exact Graph.executionOrder_induced orders (Graph.sound_buildLenient _ _) acyclic closed' scheduled

/-- A part of a valid snapshot has an order, which has its tasks once each and keeps the edges among
them. -/
theorem exists_executionOrder_part {ids : List TaskId} (known : ∀ id ∈ ids, id ∈ s.graph.ids) :
    ∃ order, (Analyzer.withOrder s options compare).executionOrder (some ids) = .ok order ∧
      order.Nodup ∧ (∀ v, v ∈ order ↔ v ∈ ids) ∧
      ∀ before v after, order = before ++ v :: after → ∀ p ∈ ids, ⟨v, p⟩ ∈ s.edges →
        p ∈ before := by
  obtain ⟨joins, acyclic⟩ := (s.isValid_validate options compare).1 valid
  obtain ⟨order, ordered, once, mem, after⟩ :=
    Graph.exists_order_induced (Graph.sound_buildLenient s.tasks s.edges) acyclic compare known
  refine ⟨order, ?_, once, mem, fun before v rest e p hp edge => ?_⟩
  · exact (Analyzer.executionOrder_part (ensureValid_of_isValid valid) known).trans ordered
  · apply after before v rest e p hp
    rw [Graph.link_buildLenient]
    exact ⟨edge, joins _ edge⟩

theorem exists_executionOrder_none :
    ∃ whole, (Analyzer.withOrder s options compare).executionOrder none = .ok whole ∧
      s.graph.IsSchedule whole := by
  rw [executionOrder_none valid]
  exact Graph.exists_schedule (Graph.sound_buildLenient _ _) (Ranking.order_perm s.graph compare)
    ((s.isValid_validate options compare).1 valid).2

end

/-- Scheduling a part agrees with scheduling everything, by any comparison that is consistent on the
loaded tasks. The first unknown one of some identifiers is refused, whether the snapshot is valid or
not. If it is valid and all are known, the order depends on which they are and not on how they are
listed, has each of them once, and keeps the edges among them; if they include all their
prerequisites, it is the whole order without the others. -/
theorem executionOrder_of_part (s : Snapshot) (options : AnalysisOptions) {compare : Comparison}
    (orders : compare.Orders s.graph.tasks) :
    let a := Analyzer.withOrder s options compare
    (∀ known id rest, (∀ v ∈ known, v ∈ s.tasks.map Task.id) → id ∉ s.tasks.map Task.id →
      a.executionOrder (some (known ++ id :: rest)) = .error (.unknownTask id)) ∧
    ((a.validate none).isValid = true → ∃ whole, a.executionOrder none = .ok whole ∧
      ∀ ids, (∀ id ∈ ids, id ∈ s.tasks.map Task.id) →
        ∃ order, a.executionOrder (some ids) = .ok order ∧
          (∀ ids', (∀ v, v ∈ ids' ↔ v ∈ ids) → a.executionOrder (some ids') = .ok order) ∧
          order.Nodup ∧ (∀ v, v ∈ order ↔ v ∈ ids) ∧
          (∀ before v after, order = before ++ v :: after →
            ∀ p ∈ ids, ⟨v, p⟩ ∈ s.edges → p ∈ before) ∧
          ((∀ e ∈ s.edges, e.dependent ∈ ids → e.prerequisite ∈ ids) →
            order = whole.filter (· ∈ ids)) ∧
          ((∀ t ∈ s.tasks, t.id ∈ ids) → order = whole)) := by
  intro a
  refine ⟨fun known id rest inside outside => ?_, fun valid => ?_⟩
  · apply Analyzer.executionOrder_unknown
    · exact fun v hv => mem_ids_graph.2 (inside v hv)
    · exact fun there => outside (mem_ids_graph.1 there)
  obtain ⟨joins, -⟩ := (s.isValid_validate options compare).1 valid
  obtain ⟨whole, scheduled, schedule⟩ := exists_executionOrder_none valid
  refine ⟨whole, scheduled, fun ids named => ?_⟩
  have known : ∀ id ∈ ids, id ∈ s.graph.ids := fun id hid => mem_ids_graph.2 (named id hid)
  obtain ⟨order, part, once, mem, after⟩ := exists_executionOrder_part valid known
  have restricted (closed : ∀ e ∈ s.edges, e.dependent ∈ ids → e.prerequisite ∈ ids) :
      order = whole.filter (· ∈ ids) :=
    Except.ok.inj (part.symm.trans (executionOrder_of_closed valid orders known closed scheduled))
  refine ⟨order, part, fun ids' same => ?_, once, mem, after, restricted, fun every => ?_⟩
  · exact (Analyzer.executionOrder_congr (ensureValid_of_isValid valid) known same).trans part
  · have listed {v : TaskId} (hv : v ∈ s.tasks.map Task.id) : v ∈ ids := by
      obtain ⟨t, ht, rfl⟩ := List.mem_map.1 hv
      exact every t ht
    rw [restricted fun e he _ => listed (joins e he).2.2, List.filter_eq_self]
    intro v hv
    exact decide_eq_true (listed (mem_ids_graph.1 (schedule.perm.mem_iff.1 hv)))

/-- Tasks of equal priority compare as equal. -/
def byPriority : Comparison := fun t u => Ord.compare u.priority.level t.priority.level

open TaskMap in
theorem executionOrder_of_part_of_waiting :
    let s : Snapshot := ⟨Graph.waitingTasks, [⟨b, a⟩]⟩
    let x := Analyzer.withOrder s {} byPriority
    byPriority.Orders s.graph.tasks ∧ (x.validate none).isValid = true ∧
      (∀ id ∈ [b, a], id ∈ s.tasks.map Task.id) ∧
      (∀ e ∈ s.edges, e.dependent ∈ [b, a] → e.prerequisite ∈ [b, a]) ∧
      ∃ whole, x.executionOrder none = .ok whole ∧
        x.executionOrder (some [b, a]) = .ok (whole.filter (· ∈ [b, a])) := by
  intro s x
  have consistent : Std.TransCmp byPriority :=
    transCmp_on (fun m n : Nat => Ord.compare n m) fun t : Task => t.priority.level
  have orders : byPriority.Orders s.graph.tasks := Comparison.orders_of_transCmp consistent _
  have joins : ∀ e ∈ s.edges, e.Joins s.tasks := by
    rw [List.forall_mem_singleton]
    exact ⟨by decide, by decide, by decide⟩
  have valid : (x.validate none).isValid = true :=
    (s.isValid_validate {} byPriority).2 ⟨joins, Graph.acyclic_waiting⟩
  have known : ∀ id ∈ [b, a], id ∈ s.tasks.map Task.id := by decide
  have closed : ∀ e ∈ s.edges, e.dependent ∈ [b, a] → e.prerequisite ∈ [b, a] := by decide
  obtain ⟨whole, scheduled, parts⟩ := (executionOrder_of_part s {} orders).2 valid
  obtain ⟨order, part, -, -, -, -, restricted, -⟩ := parts [b, a] known
  exact ⟨orders, valid, known, closed, whole, scheduled, restricted closed ▸ part⟩

end Snapshot
end Precedence

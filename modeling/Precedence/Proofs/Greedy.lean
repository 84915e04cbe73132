import Precedence.Proofs.Depth
import Precedence.Proofs.Ranking
/-!
The schedule that a ranking asks for. At every position stands the best-ranked of the tasks that can
come next, which leaves one schedule of each length. Wherever another schedule first differs from
it, the other has a task of a worse rank.
-/
namespace Precedence.Graph

variable {g : Graph} {r : Ranking}

/-- Neither scheduled yet nor waiting for a task that is not. -/
structure IsFree (g : Graph) (order : List TaskId) (v : TaskId) : Prop where
  loaded : v ∈ g.ids
  new : v ∉ order
  waited : ∀ p ∈ g.prerequisites v, p ∈ order

/-- A schedule in which each task is the best-ranked of those that were free. -/
inductive Greedy (g : Graph) (r : Ranking) : List TaskId → Prop where
  | nil : Greedy g r []
  | next {order : List TaskId} {v : TaskId} (before : Greedy g r order) (free : g.IsFree order v)
      (best : ∀ w, g.IsFree order w → r.rank v ≤ r.rank w) : Greedy g r (order ++ [v])

theorem Greedy.unique (ranks : r.order.Perm g.ids) {order order' : List TaskId}
    (h : g.Greedy r order) (h' : g.Greedy r order') (length : order.length = order'.length) :
    order = order' := by
  induction h generalizing order' with
  | nil => exact (List.length_eq_zero_iff.1 length.symm).symm
  | next _ free best ih =>
    cases h' with
    | nil => simp at length
    | next before' free' best' =>
      obtain rfl := ih before' (by simpa using length)
      have same := Nat.le_antisymm (best _ free') (best' _ free)
      rw [Ranking.rank_inj (ranks.mem_iff.2 free.loaded) same]

end Precedence.Graph

namespace Precedence.Countdown

variable {g : Graph} {r : Ranking} {c : Countdown}

/-! The queue is sorted -/

theorem sorted_enqueue {k : Nat} {ks : List Nat} (h : ks.Pairwise (· ≤ ·)) :
    (enqueue k ks).Pairwise (· ≤ ·) := by
  induction ks with
  | nil => exact List.pairwise_singleton _ k
  | cons m ks ih =>
    obtain ⟨least, sorted⟩ := List.pairwise_cons.1 h
    rw [enqueue]
    split
    · next le =>
      refine List.pairwise_cons.2 ⟨fun x hx => ?_, h⟩
      rcases List.mem_cons.1 hx with rfl | hx
      · exact le
      · exact Nat.le_trans le (least x hx)
    · next gt =>
      refine List.pairwise_cons.2 ⟨fun x hx => ?_, ih sorted⟩
      rcases List.mem_cons.1 ((enqueue_perm k ks).mem_iff.1 hx) with rfl | hx
      · exact Nat.le_of_not_le gt
      · exact least x hx

theorem sorted_foldl_enqueue {α : Type} (f : α → Nat) (xs : List α) {ks : List Nat}
    (h : ks.Pairwise (· ≤ ·)) : (xs.foldl (fun ks x => enqueue (f x) ks) ks).Pairwise (· ≤ ·) := by
  induction xs generalizing ks with
  | nil => exact h
  | cons x xs ih => exact ih (sorted_enqueue h)

theorem sorted_start : (start g r).free.Pairwise (· ≤ ·) := sorted_foldl_enqueue _ _ .nil

theorem sorted_relax {w : TaskId} (h : c.free.Pairwise (· ≤ ·)) :
    (c.relax r w).free.Pairwise (· ≤ ·) := by
  rw [relax]
  dsimp only
  split
  · exact sorted_enqueue h
  · exact h

theorem sorted_foldl_relax {ws : List TaskId} (h : c.free.Pairwise (· ≤ ·)) :
    (ws.foldl (relax r) c).free.Pairwise (· ≤ ·) := by
  induction ws generalizing c with
  | nil => exact h
  | cons w ws ih => exact ih (sorted_relax h)

/-! Steps -/

theorem Inv.isFree_iff (h : Inv g r [] c) {v : TaskId} (hv : v ∈ g.ids) :
    r.rank v ∈ c.free ↔ g.IsFree c.order v := by
  have counted := h.counter v hv
  rw [if_neg List.not_mem_nil, Int.add_zero] at counted
  rw [h.free v hv, counted, Int.natCast_eq_zero, List.countP_eq_zero]
  constructor
  · rintro ⟨waited, new⟩
    exact ⟨hv, new, fun p hp => by simpa using waited p hp⟩
  · rintro ⟨-, new, waited⟩
    exact ⟨fun p hp => by simpa using waited p hp, new⟩

theorem greedy_step {c' : Countdown} (ranks : r.order.Perm g.ids) (h : Inv g r [] c)
    (sorted : c.free.Pairwise (· ≤ ·)) (greedy : g.Greedy r c.order)
    (step : c.step g r = some c') : c'.free.Pairwise (· ≤ ·) ∧ g.Greedy r c'.order := by
  obtain ⟨v, hv, free, e, rfl⟩ := step_cases ranks h step
  obtain ⟨least, rest⟩ := List.pairwise_cons.1 (e ▸ sorted)
  refine ⟨sorted_foldl_relax rest, ?_⟩
  rw [order_foldl_relax]
  -- The queue holds the ranks of all free tasks and is sorted, so its head is the least of them.
  refine greedy.next ((h.isFree_iff hv).1 (e ▸ List.mem_cons_self)) fun w hw => ?_
  have queued := (h.isFree_iff hw.loaded).2 hw
  rw [e] at queued
  rcases List.mem_cons.1 queued with same | later
  · exact Nat.le_of_eq same.symm
  · exact least _ later

theorem greedy_run (sound : g.Sound) (ranks : r.order.Perm g.ids) (h : Inv g r [] c)
    (sorted : c.free.Pairwise (· ≤ ·)) (greedy : g.Greedy r c.order) (fuel : Nat) :
    g.Greedy r (run g r fuel c).order := by
  induction fuel generalizing c with
  | zero => exact greedy
  | succ fuel ih =>
    rw [Countdown.run]
    split
    · next step =>
      obtain ⟨sorted, greedy⟩ := greedy_step ranks h sorted greedy step
      exact ih (h.step sound ranks step) sorted greedy
    · exact greedy

end Precedence.Countdown

namespace Precedence.Graph

variable {g : Graph} {r : Ranking}

/-- The order of execution is the greedy schedule. -/
theorem greedy_of_executionOrder (h : g.Sound) (ranks : r.order.Perm g.ids) {order : List TaskId}
    (scheduled : g.executionOrder r = .ok order) : g.Greedy r order := by
  rw [executionOrder_eq h ranks] at scheduled
  split at scheduled
  · rw [← Except.ok.inj scheduled]
    exact Countdown.greedy_run h ranks (Countdown.inv_start h ranks) Countdown.sorted_start .nil _
  · contradiction

/-! Other schedules -/

theorem exists_first_difference {α : Type} {l l' : List α} (length : l.length = l'.length)
    (other : l ≠ l') : ∃ before v after w after',
      l = before ++ v :: after ∧ l' = before ++ w :: after' ∧ v ≠ w := by
  induction l generalizing l' with
  | nil => exact absurd (List.length_eq_zero_iff.1 length.symm).symm other
  | cons v l ih =>
    cases l' with
    | nil => simp at length
    | cons w l' =>
      by_cases same : v = w
      · subst same
        obtain ⟨before, x, after, y, after', rfl, rfl, differ⟩ :=
          ih (by simpa using length) (by simpa using other)
        exact ⟨v :: before, x, after, y, after', rfl, rfl, differ⟩
      · exact ⟨[], v, l, w, l', rfl, rfl, same⟩

theorem Greedy.concat {order : List TaskId} {v : TaskId} (h : g.Greedy r (order ++ [v])) :
    g.Greedy r order ∧ g.IsFree order v ∧ ∀ w, g.IsFree order w → r.rank v ≤ r.rank w := by
  generalize e : order ++ [v] = whole at h
  cases h with
  | nil => simp at e
  | next before free best =>
    obtain ⟨rfl, last⟩ := List.append_inj' e rfl
    obtain rfl := List.singleton_inj.1 last
    exact ⟨before, free, best⟩

/-- What a greedy schedule has at a position was free, and best-ranked of all that was. -/
theorem Greedy.position {before after : List TaskId} {v : TaskId}
    (h : g.Greedy r (before ++ v :: after)) :
    g.IsFree before v ∧ ∀ w, g.IsFree before w → r.rank v ≤ r.rank w := by
  induction after using List.reverseRecOn with
  | nil => exact h.concat.2
  | append_singleton after x ih =>
    apply ih
    have longer : g.Greedy r ((before ++ v :: after) ++ [x]) := by simpa using h
    exact longer.concat.1

theorem IsSchedule.isFree {before after : List TaskId} {v : TaskId} (distinct : g.ids.Nodup)
    (h : g.IsSchedule (before ++ v :: after)) : g.IsFree before v where
  loaded := h.perm.mem_iff.1 (by simp)
  new := by
    have once := h.perm.nodup_iff.2 distinct
    rw [List.nodup_append] at once
    exact fun old => once.2.2 v old v List.mem_cons_self rfl
  waited := h.ordered before v after rfl

/-- Any other schedule has a worse rank where it first differs from the greedy one. -/
theorem Greedy.lt_of_isSchedule (ranks : r.order.Perm g.ids) (distinct : g.ids.Nodup)
    {order other : List TaskId} (h : g.Greedy r order) (schedule : g.IsSchedule order)
    (schedule' : g.IsSchedule other) (differ : other ≠ order) :
    order.map r.rank < other.map r.rank := by
  have length : order.length = other.length :=
    (schedule.perm.trans schedule'.perm.symm).length_eq
  obtain ⟨before, v, after, w, after', rfl, rfl, ne⟩ := exists_first_difference length differ.symm
  obtain ⟨free, best⟩ := h.position
  have free' := schedule'.isFree distinct
  have less : r.rank v < r.rank w := by
    apply Nat.lt_of_le_of_ne (best w free')
    intro same
    exact ne (Ranking.rank_inj (ranks.mem_iff.2 free.loaded) same)
  simp only [List.map_append, List.map_cons]
  exact List.append_left_lt (List.cons_lt_cons_iff.2 (.inl less))

/-- The order of execution is the schedule with the least ranks. It lists every task once and after
its prerequisites; at every position stands the best-ranked of the tasks that are not listed before
and whose prerequisites all are; and its ranks come before those of any other schedule. -/
theorem executionOrder_least {g : Graph} (made : g.Made) (acyclic : g.Acyclic)
    (compare : Comparison) : ∃ order, g.executionOrder (.ofGraph g compare) = .ok order ∧
      order.Nodup ∧ g.IsSchedule order ∧
      (∀ before v after, order = before ++ v :: after → g.IsFree before v ∧
        ∀ w, g.IsFree before w →
          (Ranking.ofGraph g compare).rank v ≤ (Ranking.ofGraph g compare).rank w) ∧
      ∀ other, g.IsSchedule other → other ≠ order →
        order.map (Ranking.ofGraph g compare).rank <
          other.map (Ranking.ofGraph g compare).rank := by
  have sound := made.sound
  have ranks := Ranking.order_perm g compare
  obtain ⟨order, scheduled, schedule⟩ := exists_schedule sound ranks acyclic
  have greedy := greedy_of_executionOrder sound ranks scheduled
  refine ⟨order, scheduled, schedule.perm.nodup_iff.2 sound.distinct, schedule, ?_, ?_⟩
  · rintro before v after rfl
    exact greedy.position
  · intro other schedule'
    exact greedy.lt_of_isSchedule ranks sound.distinct schedule schedule'

open TaskMap in
/-- A task of the highest priority, one of the lowest that it will wait for, and one between
them. -/
def waitingTasks : List Task :=
  [{ sample b "y" with priority := ⟨10, by decide⟩ }, sample c "z",
    { sample a "x" with priority := ⟨1, by decide⟩ }]

def waiting : Graph := (buildLenient waitingTasks [⟨TaskMap.b, TaskMap.a⟩]).1

open TaskMap in
theorem executionOrder_waiting :
    waiting.executionOrder (.ofGraph waiting TieBreak.id.compare) = .ok [c, a, b] := by
  rw [Ranking.ofGraph_of_pairwise (by decide +kernel)]
  decide +kernel

theorem acyclic_waiting : waiting.Acyclic :=
  acyclic_of_executionOrder (Made.lenient _ _).sound (Ranking.order_perm _ _) executionOrder_waiting

open TaskMap in
/-- The urgent task comes last, as no rank makes up for what it waits for. -/
theorem executionOrder_least_of_waiting : waiting.Made ∧ waiting.Acyclic ∧
    waiting.executionOrder (.ofGraph waiting TieBreak.id.compare) = .ok [c, a, b] ∧
      ∀ other, waiting.IsSchedule other → other ≠ [c, a, b] →
        [c, a, b].map (Ranking.ofGraph waiting TieBreak.id.compare).rank <
          other.map (Ranking.ofGraph waiting TieBreak.id.compare).rank := by
  have made : waiting.Made := .lenient _ _
  obtain ⟨order, scheduled, -, -, -, least⟩ :=
    executionOrder_least made acyclic_waiting TieBreak.id.compare
  obtain rfl : [c, a, b] = order := Except.ok.inj (executionOrder_waiting.symm.trans scheduled)
  exact ⟨made, acyclic_waiting, scheduled, least⟩

end Precedence.Graph

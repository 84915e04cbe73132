import Precedence.Proofs.Cycle
/-!
Depths. In a graph without a cycle they are heights: zero without prerequisites, and else one more
than the greatest height of a prerequisite.
-/
namespace Precedence.Graph

variable {g : Graph} {r : Ranking}

/-- An order of all tasks with each one after its prerequisites. -/
structure IsSchedule (g : Graph) (order : List TaskId) : Prop where
  perm : order.Perm g.ids
  ordered : ∀ before v after, order = before ++ v :: after → ∀ p ∈ g.prerequisites v, p ∈ before

theorem exists_schedule (h : g.Sound) (ranks : r.order.Perm g.ids) (acyclic : g.Acyclic) :
    ∃ order, g.executionOrder r = .ok order ∧ g.IsSchedule order := by
  have inv := (Countdown.inv_start h ranks).run h ranks g.tasks.length
  have stuck := Countdown.run_free h ranks (Countdown.inv_start h ranks)
    (Nat.le_trans (Nat.le_of_eq g.length_ids) (Nat.le_add_left _ _))
  have all : g.ids.length ≤ (Countdown.run g r g.tasks.length (.start g r)).order.length :=
    Nat.le_of_not_lt fun less => inv.not_acyclic h stuck less acyclic
  refine ⟨_, ?_, (List.subperm_of_subset inv.distinct inv.inside).perm_of_length_le all,
    inv.ordered⟩
  rw [executionOrder_eq h ranks, (findCycle_eq_none_iff h ranks).2 acyclic]

/-- A height of each task, told by what it is bounded by. -/
def IsHeight (g : Graph) (height : TaskId → Nat) : Prop :=
  ∀ v ∈ g.ids, ∀ n, height v ≤ n ↔ ∀ p ∈ g.prerequisites v, height p < n

theorem foldl_max_le {f : TaskId → Nat} {l : List TaskId} {k n : Nat} :
    l.foldl (fun d p => max d (f p + 1)) k ≤ n ↔ k ≤ n ∧ ∀ p ∈ l, f p < n := by
  induction l generalizing k with
  | nil => simp
  | cons p l ih =>
    rw [List.foldl_cons, ih, List.forall_mem_cons, Nat.max_le, and_assoc]
    rfl

theorem depthsFrom_append (known : List (TaskId × Nat)) (before after : List TaskId) :
    g.depthsFrom known (before ++ after) = g.depthsFrom (g.depthsFrom known before) after := by
  induction before generalizing known with
  | nil => rfl
  | cons v before ih => exact ih _

theorem lookup_depthsFrom {known : List (TaskId × Nat)} {l : List TaskId} {v : TaskId}
    (other : v ∉ l) : (g.depthsFrom known l).lookup v = known.lookup v := by
  induction l generalizing known with
  | nil => rfl
  | cons w l ih =>
    have ne : v ≠ w := List.ne_of_not_mem_cons other
    rw [depthsFrom, ih (List.not_mem_of_not_mem_cons other), List.lookup_cons,
      beq_eq_false_iff_ne.2 ne]

theorem IsSchedule.isHeight {order : List TaskId} (h : g.IsSchedule order)
    (distinct : g.ids.Nodup) :
    g.IsHeight fun v => ((g.depthsFrom [] order).lookup v).getD 0 := by
  intro v hv n
  obtain ⟨before, after, e⟩ := List.append_of_mem (h.perm.mem_iff.2 hv)
  have once := h.perm.nodup_iff.2 distinct
  rw [e, List.nodup_append, List.nodup_cons] at once
  obtain ⟨-, ⟨later, -⟩, apart⟩ := once
  have known {p : TaskId} (hp : p ∈ before) :
      (g.depthsFrom [] order).lookup p = (g.depthsFrom [] before).lookup p := by
    have ne : p ≠ v := apart p hp v List.mem_cons_self
    have off : p ∉ after := fun on => apart p hp p (List.mem_cons_of_mem _ on) rfl
    rw [e, depthsFrom_append, depthsFrom, lookup_depthsFrom off, List.lookup_cons,
      beq_eq_false_iff_ne.2 ne]
  have here : (g.depthsFrom [] order).lookup v = some ((g.prerequisites v).foldl
      (fun d p => max d (((g.depthsFrom [] before).lookup p).getD 0 + 1)) 0) := by
    rw [e, depthsFrom_append, depthsFrom, lookup_depthsFrom later, List.lookup_cons,
      beq_self_eq_true]
  dsimp only
  rw [here, Option.getD_some, foldl_max_le]
  have same : ∀ p ∈ g.prerequisites v,
      (((g.depthsFrom [] before).lookup p).getD 0 < n ↔
        ((g.depthsFrom [] order).lookup p).getD 0 < n) := by
    intro p hp
    rw [known (h.ordered before v after e p hp)]
  rw [forall₂_congr same]
  exact ⟨fun bound => bound.2, fun bound => ⟨Nat.zero_le n, bound⟩⟩

theorem exists_depths (h : g.Sound) (ranks : r.order.Perm g.ids) (acyclic : g.Acyclic) :
    ∃ height, g.IsHeight height ∧ g.depths r = .ok (g.ids.map fun id => (id, height id)) := by
  obtain ⟨order, scheduled, isSchedule⟩ := exists_schedule h ranks acyclic
  refine ⟨_, isSchedule.isHeight h.distinct, ?_⟩
  rw [depths, scheduled]
  rfl

theorem acyclic_of_depths (h : g.Sound) (ranks : r.order.Perm g.ids) {found : List (TaskId × Nat)}
    (ok : g.depths r = .ok found) : g.Acyclic := by
  cases scheduled : g.executionOrder r with
  | ok order => exact acyclic_of_executionOrder h ranks scheduled
  | error fault =>
    rw [depths, scheduled] at ok
    contradiction

end Precedence.Graph

import Mathlib.Data.List.Nodup
import Precedence.Proofs.Graph
/-!
What decides a ranking. A comparison that tells any two tasks apart leaves one way to rank the tasks
of a graph, in whatever order they were loaded; and a ranking leaves one way to sort some of them.
Any consistent comparison ranks the tasks of a part as it ranks them among all tasks.
-/
namespace Precedence

open Std (TransCmp OrientedCmp)

theorem transCmp_on {α β : Type} (cmp : β → β → Ordering) [TransCmp cmp] (f : α → β) :
    TransCmp fun a b => cmp (f a) (f b) where
  eq_swap := OrientedCmp.eq_swap
  isLE_trans := TransCmp.isLE_trans

instance Date.transCmp : TransCmp Date.compare :=
  inferInstanceAs (TransCmp (compareLex (compareOn Date.year)
    (compareLex (compareOn Date.month) (compareOn Date.day))))

instance Instant.transCmp : TransCmp Instant.compare :=
  have := transCmp_on Date.compare Instant.date
  inferInstanceAs (TransCmp (compareLex (fun a b => a.date.compare b.date)
    (compareLex (compareOn Instant.second) (compareOn Instant.nanos))))

instance TaskId.transCmp : TransCmp TaskId.compare :=
  inferInstanceAs (TransCmp (compareOn TaskId.text))

theorem TaskId.eq_of_compare {a b : TaskId} (h : a.compare b = .eq) : a = b :=
  TaskId.ext (Std.LawfulEqCmp.eq_of_compare h)

/-- A total order of tasks in which tasks of different identifiers are never equal. -/
structure Comparison.Strict (compare : Comparison) : Prop extends TransCmp compare where
  id_eq : ∀ a b, compare a b = .eq → a.id = b.id

theorem TieBreak.strict (tieBreak : TieBreak) : Comparison.Strict tieBreak.compare := by
  have byPriority : TransCmp fun a b : Task => Ord.compare b.priority.level a.priority.level :=
    transCmp_on (fun m n : Nat => Ord.compare n m) fun t : Task => t.priority.level
  have byId : TransCmp fun a b : Task => a.id.compare b.id := transCmp_on TaskId.compare Task.id
  have trans : TransCmp tieBreak.compare := by
    cases tieBreak with
    | createdAt =>
      have byCreation : TransCmp fun a b : Task => a.createdAt.compare b.createdAt :=
        transCmp_on Instant.compare Task.createdAt
      exact inferInstanceAs (TransCmp (compareLex
        (fun a b : Task => Ord.compare b.priority.level a.priority.level)
        (compareLex (fun a b => a.createdAt.compare b.createdAt) fun a b => a.id.compare b.id)))
    | id =>
      exact inferInstanceAs (TransCmp (compareLex
        (fun a b : Task => Ord.compare b.priority.level a.priority.level)
        fun a b => a.id.compare b.id))
  refine { trans with id_eq := fun a b same => ?_ }
  unfold TieBreak.compare at same
  exact TaskId.eq_of_compare (Ordering.then_eq_eq.1 (Ordering.then_eq_eq.1 same).2).2

theorem bne_gt_eq_isLE (o : Ordering) : (o != .gt) = o.isLE := by
  cases o <;> rfl

theorem Comparison.le_trans {compare : Comparison} (consistent : TransCmp compare) (a b c : Task)
    (first : compare a b != .gt) (second : compare b c != .gt) : compare a c != .gt := by
  rw [bne_gt_eq_isLE] at *
  exact TransCmp.isLE_trans first second

theorem Comparison.le_total {compare : Comparison} (consistent : TransCmp compare) (a b : Task) :
    (compare a b != .gt || compare b a != .gt) = true := by
  have swapped : compare b a = (compare a b).swap := OrientedCmp.eq_swap
  rw [swapped]
  cases compare a b <;> rfl

theorem Comparison.Strict.le_antisymm {compare : Comparison} (strict : compare.Strict) {a b : Task}
    (first : compare a b != .gt) (second : compare b a != .gt) : a.id = b.id := by
  have := strict.toTransCmp
  rw [bne_gt_eq_isLE] at *
  exact strict.id_eq a b (OrientedCmp.isLE_antisymm first second)

section

variable {α : Type}

/-- Where the elements of a kind stand before all others there is one place to divide a list. -/
theorem append_inj_of_kind {q : α → Bool} {xs xs' ys ys' : List α} (same : xs ++ ys = xs' ++ ys')
    (hx : ∀ a ∈ xs, q a) (hy : ∀ a ∈ ys, ¬ q a) (hx' : ∀ a ∈ xs', q a) (hy' : ∀ a ∈ ys', ¬ q a) :
    xs = xs' ∧ ys = ys' := by
  have first := congrArg (List.filter q) same
  rw [List.filter_append, List.filter_append, List.filter_eq_self.2 hx, List.filter_eq_self.2 hx',
    List.filter_eq_nil_iff.2 hy, List.filter_eq_nil_iff.2 hy', List.append_nil,
    List.append_nil] at first
  subst first
  exact ⟨rfl, List.append_cancel_left same⟩

/-- A stable sort of some elements of a list leaves them as they stand among all when all are
sorted. -/
theorem filter_mergeSort {le : α → α → Bool} (trans : ∀ a b c, le a b → le b c → le a c)
    (total : ∀ a b, (le a b || le b a) = true) (p : α → Bool) (l : List α) :
    (l.mergeSort le).filter p = (l.filter p).mergeSort le := by
  induction l with
  | nil => simp
  | cons a l ih =>
    obtain ⟨before, after, sorted, rest, below⟩ := List.mergeSort_cons trans total a l
    by_cases kept : p a
    · obtain ⟨before', after', sorted', rest', below'⟩ :=
        List.mergeSort_cons trans total a (l.filter p)
      have above (xs : List α) {before after : List α}
          (e : xs.mergeSort le = before ++ a :: after) :
          ∀ b ∈ after, ¬ (!le a b) = true := by
        have ordered := List.pairwise_mergeSort trans total xs
        rw [e, List.pairwise_append, List.pairwise_cons] at ordered
        intro b hb
        simp [ordered.2.1.1 b hb]
      -- The element stands where the lesser ones end, in the whole list as in the part.
      have parts : before.filter p ++ after.filter p = before' ++ after' := by
        rw [← List.filter_append, ← rest, ih, rest']
      obtain ⟨first, second⟩ := append_inj_of_kind parts
        (fun b hb => below b (List.mem_filter.1 hb).1)
        (fun b hb => above _ sorted b (List.mem_filter.1 hb).1) below' (above _ sorted')
      rw [sorted, List.filter_append, List.filter_cons_of_pos kept, List.filter_cons_of_pos kept,
        sorted', first, second]
    · rw [sorted, List.filter_append, List.filter_cons_of_neg kept, List.filter_cons_of_neg kept,
        ← ih, rest, List.filter_append]

/-- Leaving elements out changes nothing about which of two others stands first. -/
theorem idxOf_filter_le_iff [DecidableEq α] {p : α → Bool} {l : List α} {a b : α} (ha : p a)
    (hb : p b) : (l.filter p).idxOf a ≤ (l.filter p).idxOf b ↔ l.idxOf a ≤ l.idxOf b := by
  induction l with
  | nil => simp
  | cons x l ih =>
    by_cases kept : p x
    · rw [List.filter_cons_of_pos kept]
      by_cases hxa : x = a
      · simp [hxa]
      · by_cases hxb : x = b
        · subst hxb
          simp [List.idxOf_cons_ne _ hxa]
        · simpa [List.idxOf_cons_ne _ hxa, List.idxOf_cons_ne _ hxb] using ih
    · have hxa : x ≠ a := by rintro rfl; exact kept ha
      have hxb : x ≠ b := by rintro rfl; exact kept hb
      rw [List.filter_cons_of_neg kept, ih]
      simp [List.idxOf_cons_ne _ hxa, List.idxOf_cons_ne _ hxb]

end

namespace Ranking

/-- Tasks that are loaded from the most to the least preferred are ranked as they are loaded. -/
theorem ofGraph_of_pairwise {g : Graph} {compare : Comparison}
    (sorted : g.tasks.Pairwise fun a b => compare a b != .gt) : ofGraph g compare = ⟨g.ids⟩ := by
  rw [ofGraph, List.mergeSort_of_pairwise sorted]
  rfl

/-- A part of a graph is ranked as it is in the graph, also where tasks compare as equal. -/
theorem ofGraph_induced {compare : Comparison} (consistent : TransCmp compare) (g : Graph)
    (keep : TaskId → Bool) :
    (ofGraph (g.induced keep) compare).order = (ofGraph g compare).order.filter keep := by
  rw [ofGraph, ofGraph, Graph.induced, List.filter_map]
  dsimp only
  rw [← filter_mergeSort (Comparison.le_trans consistent) (Comparison.le_total consistent)]
  rfl

/-- Which tasks are loaded decides how they are ranked; the order in which they were loaded plays no
part. -/
theorem ofGraph_eq_of_perm {compare : Comparison} (strict : compare.Strict) {g h : Graph}
    (distinct : g.ids.Nodup) (perm : g.tasks.Perm h.tasks) :
    ofGraph g compare = ofGraph h compare := by
  have one {a b : Task} (ha : a ∈ g.tasks) (hb : b ∈ g.tasks) (e : a.id = b.id) : a = b :=
    List.inj_on_of_nodup_map distinct ha hb e
  have sorted (l : List Task) := List.pairwise_mergeSort (Comparison.le_trans strict.toTransCmp)
    (Comparison.le_total strict.toTransCmp) l
  have same : g.tasks.mergeSort (fun a b => compare a b != .gt) =
      h.tasks.mergeSort fun a b => compare a b != .gt := by
    refine List.Perm.eq_of_pairwise ?_ (sorted g.tasks) (sorted h.tasks) ?_
    · intro a b ha hb first second
      rw [List.mem_mergeSort] at ha hb
      exact one ha (perm.mem_iff.2 hb) (strict.le_antisymm first second)
    · exact (List.mergeSort_perm _ _).trans (perm.trans (List.mergeSort_perm _ _).symm)
  rw [ofGraph, same, ofGraph]

theorem pairwise_order {r : Ranking} (distinct : r.order.Nodup) :
    r.order.Pairwise fun v w => r.rank v < r.rank w := by
  rw [List.pairwise_iff_getElem]
  intro i j hi hj less
  rwa [rank, rank, distinct.idxOf_getElem, distinct.idxOf_getElem]

theorem pairwise_sort (r : Ranking) (l : List TaskId) :
    (r.sort l).Pairwise fun a b => r.rank a ≤ r.rank b := by
  have sorted : (r.sort l).Pairwise fun a b => decide (r.rank a ≤ r.rank b) = true :=
    List.pairwise_mergeSort (fun a b c => by simpa using Nat.le_trans)
      (fun a b => by simpa using Nat.le_total _ _) l
  exact sorted.imp of_decide_eq_true

theorem pairwise_sort_lt (r : Ranking) {l : List TaskId} (distinct : l.Nodup)
    (ranked : ∀ v ∈ l, v ∈ r.order) : (r.sort l).Pairwise fun a b => r.rank a < r.rank b := by
  have once : (r.sort l).Nodup := (r.sort_perm l).nodup_iff.2 distinct
  refine ((r.pairwise_sort l).and once).imp_of_mem fun {a b} ha _ order => ?_
  exact Nat.lt_of_le_of_ne order.1 fun same => order.2 (rank_inj (ranked a (mem_sort.1 ha)) same)

/-- Ranked tasks are sorted into one order, in whatever order they are given. -/
theorem sort_eq_of_perm {r : Ranking} {l l' : List TaskId} (perm : l.Perm l')
    (ranked : ∀ v ∈ l, v ∈ r.order) : r.sort l = r.sort l' := by
  refine List.Perm.eq_of_pairwise ?_ (r.pairwise_sort l) (r.pairwise_sort l') ?_
  · intro v w hv _ first second
    exact rank_inj (ranked v (mem_sort.1 hv)) (Nat.le_antisymm first second)
  · exact (r.sort_perm l).trans (perm.trans (r.sort_perm l').symm)

end Ranking
end Precedence

import Mathlib.Data.Set.Function
import Mathlib.Order.RelClasses
import Precedence.Proofs.Ranking
/-!
What a ranking tells. The loaded tasks of a graph have the first numbers as their ranks, one each. A
task comes before another one if the comparison says so, or if it makes no difference between them
and the task was loaded first. To be consistent the comparison needs no more than the loaded tasks.
-/
namespace Precedence

open Std (TransCmp OrientedCmp ReflCmp)

/-- A comparison that is consistent on some tasks: a total preorder of them. -/
structure Comparison.Orders (compare : Comparison) (tasks : List Task) : Prop where
  swap : ∀ a ∈ tasks, ∀ b ∈ tasks, compare b a = (compare a b).swap
  isLE_trans : ∀ a ∈ tasks, ∀ b ∈ tasks, ∀ c ∈ tasks,
    (compare a b).isLE → (compare b c).isLE → (compare a c).isLE

namespace Comparison

variable {compare : Comparison} {tasks : List Task}

/-- A comparison of some tasks, with all other tasks behind them. -/
def among (compare : Comparison) (tasks : List Task) : Comparison := fun a b =>
  if a ∈ tasks then if b ∈ tasks then compare a b else .lt
  else if b ∈ tasks then .gt else .eq

theorem among_of_mem {a b : Task} (ha : a ∈ tasks) (hb : b ∈ tasks) :
    compare.among tasks a b = compare a b := by
  rw [among, if_pos ha, if_pos hb]

theorem orders_of_transCmp (consistent : TransCmp compare) (tasks : List Task) :
    compare.Orders tasks where
  swap _ _ _ _ := OrientedCmp.eq_swap
  isLE_trans _ _ _ _ _ _ := TransCmp.isLE_trans

/-- What is consistent on some tasks is part of what is consistent on all. -/
theorem Orders.transCmp_among (orders : compare.Orders tasks) : TransCmp (compare.among tasks) where
  eq_swap {a b} := by
    unfold among
    by_cases ha : a ∈ tasks <;> by_cases hb : b ∈ tasks
    · rw [if_pos ha, if_pos hb, if_pos hb, if_pos ha]
      exact orders.swap b hb a ha
    all_goals simp [ha, hb]
  isLE_trans {a b c} first second := by
    unfold among at *
    by_cases ha : a ∈ tasks <;> by_cases hb : b ∈ tasks <;> by_cases hc : c ∈ tasks
    · rw [if_pos ha, if_pos hb] at first
      rw [if_pos hb, if_pos hc] at second
      rw [if_pos ha, if_pos hc]
      exact orders.isLE_trans a ha b hb c hc first second
    all_goals simp_all

/-- Tasks under different identifiers stand in one order. -/
theorem Strict.isStrictTotalOrder (strict : compare.Strict) {tasks : Set Task}
    (distinct : Set.InjOn Task.id tasks) :
    IsStrictTotalOrder tasks fun a b => compare a.1 b.1 = .lt := by
  have := strict.toTransCmp
  refine
    { trichotomous := fun a b before after => ?_
      irrefl := fun a less => ?_
      trans := fun _ _ _ => TransCmp.lt_trans }
  · have swapped : compare b.1 a.1 = (compare a.1 b.1).swap := OrientedCmp.eq_swap
    cases e : compare a.1 b.1 with
    | lt => exact absurd e before
    | gt => exact absurd (by rw [swapped, e]; rfl) after
    | eq => exact Subtype.ext (distinct a.2 b.2 (strict.id_eq _ _ e))
  · have same : compare a.1 a.1 = .eq := ReflCmp.compare_self
    rw [same] at less
    cases less

end Comparison

/-- Of two elements of a sorted list the first one is the lesser. -/
theorem rel_of_idxOf_lt {α β : Type} [DecidableEq β] {R : α → α → Prop} {key : α → β} {l : List α}
    (sorted : l.Pairwise R) (distinct : (l.map key).Nodup) {x y : α} (hx : x ∈ l) (hy : y ∈ l)
    (before : (l.map key).idxOf (key x) < (l.map key).idxOf (key y)) : R x y := by
  obtain ⟨i, hi, rfl⟩ := List.mem_iff_getElem.1 hx
  obtain ⟨j, hj, rfl⟩ := List.mem_iff_getElem.1 hy
  have place {k : Nat} (hk : k < l.length) : (l.map key).idxOf (key l[k]) = k := by
    rw [← List.getElem_map key (h := by simpa using hk)]
    exact distinct.idxOf_getElem k _
  rw [place hi, place hj] at before
  exact List.pairwise_iff_getElem.1 sorted i j hi hj before

namespace Graph

variable {g : Graph} {v : TaskId} {i : Nat}

theorem index?_eq_some_iff (distinct : g.ids.Nodup) : g.index? v = some i ↔ g.ids[i]? = some v := by
  rw [index?, List.findIdx?_eq_some_iff_getElem, ids, List.getElem?_map, Option.map_eq_some_iff]
  constructor
  · rintro ⟨short, same, -⟩
    exact ⟨_, List.getElem?_eq_getElem short, beq_iff_eq.1 same⟩
  · rintro ⟨t, there, rfl⟩
    obtain ⟨short, rfl⟩ := List.getElem?_eq_some_iff.1 there
    refine ⟨short, beq_self_eq_true _, fun j before same => ?_⟩
    have apart := List.pairwise_iff_getElem.1 distinct j i (by simp [ids]; omega) (by simpa [ids])
      before
    exact apart (by simpa [ids] using same)

end Graph

namespace Ranking

variable {g : Graph} {compare : Comparison} {r : Ranking}

theorem ofGraph_congr {compare' : Comparison}
    (same : ∀ a ∈ g.tasks, ∀ b ∈ g.tasks, compare a b = compare' a b) :
    ofGraph g compare = ofGraph g compare' := by
  have sorted := List.map_mergeSort (r := fun a b => compare a b != .gt)
    (s := fun a b => compare' a b != .gt) (f := id) (l := g.tasks)
    fun a ha b hb => by rw [same a ha b hb]; rfl
  rw [List.map_id, List.map_id] at sorted
  rw [ofGraph, sorted, ofGraph]

/-- To rank tasks it is enough to compare those that are loaded. -/
theorem ofGraph_among {tasks : List Task} (loaded : ∀ t ∈ g.tasks, t ∈ tasks) :
    ofGraph g (compare.among tasks) = ofGraph g compare :=
  ofGraph_congr fun a ha b hb => Comparison.among_of_mem (loaded a ha) (loaded b hb)

/-! Ranks and tasks -/

theorem nodup_order (compare : Comparison) (distinct : g.ids.Nodup) :
    (ofGraph g compare).order.Nodup :=
  (order_perm g compare).nodup_iff.2 distinct

theorem task?_eq_some_iff (distinct : r.order.Nodup) {n : Nat} {v : TaskId} :
    r.task? n = some v ↔ v ∈ r.order ∧ r.rank v = n := by
  constructor
  · intro there
    obtain ⟨short, rfl⟩ := List.getElem?_eq_some_iff.1 there
    exact ⟨List.getElem_mem short, distinct.idxOf_getElem n short⟩
  · rintro ⟨mem, rfl⟩
    exact task?_rank mem

theorem bijOn_rank (distinct : r.order.Nodup) :
    Set.BijOn r.rank {v | v ∈ r.order} {n | n < r.order.length} := by
  refine ⟨fun v hv => List.idxOf_lt_length_iff.2 hv, fun v hv w _ same => rank_inj hv same, ?_⟩
  intro n (short : n < r.order.length)
  exact ⟨_, (task?_eq_some_iff distinct).1 (List.getElem?_eq_getElem short)⟩

/-! Ranks in load order -/

@[simp] theorem length_note (ranks : List Nat) (v : TaskId) (n : Nat) :
    (note g ranks v n).length = ranks.length := by
  unfold note
  cases g.index? v <;> simp

theorem getElem?_note (distinct : g.ids.Nodup) {i : Nat} {v : TaskId} (place : g.ids[i]? = some v)
    {ranks : List Nat} (short : i < ranks.length) (w : TaskId) (n : Nat) :
    (note g ranks w n)[i]? = if w = v then some n else ranks[i]? := by
  have here := (Graph.index?_eq_some_iff distinct).2 place
  unfold note
  split
  · next same => rw [same, here, Option.map_some, Option.getD_some, List.getElem?_set_self short]
  · next other =>
    cases e : g.index? w with
    | none => rfl
    | some j =>
      have apart : j ≠ i := by
        rintro rfl
        rw [Graph.index?_eq_some_iff distinct, place] at e
        exact other (Option.some.inj e).symm
      rw [Option.map_some, Option.getD_some, List.getElem?_set_ne apart]

/-- Each task of a list without repeats is noted once, so what is noted for it stays. -/
theorem getElem?_foldl_note (distinct : g.ids.Nodup) {i : Nat} {v : TaskId}
    (place : g.ids[i]? = some v) {l : List TaskId} (once : l.Nodup) {ranks : List Nat}
    (short : i < ranks.length) (start : Nat) :
    ((l.zipIdx start).foldl (fun ranks (w, n) => note g ranks w n) ranks)[i]? =
      if v ∈ l then some (start + l.idxOf v) else ranks[i]? := by
  induction l generalizing ranks start with
  | nil => simp
  | cons w l ih =>
    obtain ⟨new, once⟩ := List.nodup_cons.1 once
    rw [List.zipIdx_cons, List.foldl_cons, ih once (by rwa [length_note]),
      getElem?_note distinct place short]
    by_cases same : w = v
    · subst same
      simp [new]
    · have other : v ≠ w := Ne.symm same
      simp only [List.mem_cons, other, false_or, same, if_false, List.idxOf_cons_ne _ same]
      split
      · congr 1
        omega
      · rfl

@[simp] theorem length_ranks (r : Ranking) (g : Graph) : (r.ranks g).length = g.tasks.length := by
  have kept (l : List (TaskId × Nat)) (ranks : List Nat) :
      (l.foldl (fun ranks (v, n) => note g ranks v n) ranks).length = ranks.length := by
    induction l generalizing ranks with
    | nil => rfl
    | cons x l ih => rw [List.foldl_cons, ih, length_note]
  rw [ranks, kept, List.length_replicate]

theorem ranks_ofGraph (distinct : g.ids.Nodup) (compare : Comparison) :
    (ofGraph g compare).ranks g = g.ids.map (ofGraph g compare).rank := by
  have length := length_ranks (ofGraph g compare) g
  rw [← g.length_ids] at length
  apply List.ext_getElem?
  intro i
  cases place : g.ids[i]? with
  | some v =>
    have short : i < g.ids.length := (List.getElem?_eq_some_iff.1 place).1
    have ranked : v ∈ (ofGraph g compare).order :=
      (order_perm g compare).mem_iff.2 (List.mem_of_getElem? place)
    rw [ranks, getElem?_foldl_note distinct place (nodup_order _ distinct)
      (by rwa [List.length_replicate, ← g.length_ids]), if_pos ranked, Nat.zero_add,
      List.getElem?_map, place]
    rfl
  | none =>
    have long : g.ids.length ≤ i := List.getElem?_eq_none_iff.1 place
    rw [List.getElem?_eq_none_iff.2 (by rwa [length]), List.getElem?_map, place]
    rfl

/-! Ranks and the comparison -/

theorem zipIdxLE_iff [OrientedCmp compare] {a b : Task} {i j : Nat} :
    List.zipIdxLE (fun a b => compare a b != .gt) (a, i) (b, j) = true ↔
      compare a b = .lt ∨ compare a b = .eq ∧ i ≤ j := by
  have swapped : compare b a = (compare a b).swap := OrientedCmp.eq_swap
  rw [List.zipIdxLE]
  dsimp only
  rw [swapped]
  cases compare a b <;> simp

/-- A stable sort keeps the order of loading where the comparison makes no difference. -/
theorem le_of_rank_lt (consistent : TransCmp compare) (distinct : g.ids.Nodup) {i j : Nat}
    {a b : Task} (ha : g.tasks[i]? = some a) (hb : g.tasks[j]? = some b)
    (before : (ofGraph g compare).rank a.id < (ofGraph g compare).rank b.id) :
    compare a b = .lt ∨ compare a b = .eq ∧ i ≤ j := by
  let le : Task → Task → Bool := fun a b => compare a b != .gt
  let placed := g.tasks.zipIdx.mergeSort (List.zipIdxLE le)
  have sorted : placed.Pairwise fun x y => List.zipIdxLE le x y = true :=
    List.pairwise_mergeSort (List.zipIdxLE_trans (Comparison.le_trans consistent))
      (List.zipIdxLE_total (Comparison.le_total consistent)) _
  have order : (ofGraph g compare).order = placed.map fun x => x.1.id := by
    rw [ofGraph, ← List.mergeSort_zipIdx, List.map_map]
    rfl
  have stands {k : Nat} {t : Task} (ht : g.tasks[k]? = some t) : (t, k) ∈ placed :=
    List.mem_mergeSort.2 (List.mem_zipIdx_iff_getElem?.2 ht)
  have once := nodup_order compare distinct
  rw [rank, rank, order] at before
  rw [order] at once
  exact zipIdxLE_iff.1 (rel_of_idxOf_lt sorted once (stands ha) (stands hb) before)

theorem place_inj (distinct : g.ids.Nodup) {i j : Nat} {a b : Task} (ha : g.tasks[i]? = some a)
    (hb : g.tasks[j]? = some b) (same : a.id = b.id) : i = j := by
  have hi : g.ids[i]? = some b.id := by rw [Graph.ids, List.getElem?_map, ha, ← same]; rfl
  have hj : g.ids[j]? = some b.id := by rw [Graph.ids, List.getElem?_map, hb]; rfl
  exact (List.getElem?_inj (List.getElem?_eq_some_iff.1 hi).1 distinct).1 (hi.trans hj.symm)

/-- Two tasks are ranked by the comparison, and by the order of loading where that makes no
difference. -/
theorem rank_lt_iff (consistent : TransCmp compare) (distinct : g.ids.Nodup) {i j : Nat}
    {a b : Task} (ha : g.tasks[i]? = some a) (hb : g.tasks[j]? = some b) :
    (ofGraph g compare).rank a.id < (ofGraph g compare).rank b.id ↔
      compare a b = .lt ∨ compare a b = .eq ∧ i < j := by
  have swapped : compare b a = (compare a b).swap := OrientedCmp.eq_swap
  constructor
  · intro before
    rcases le_of_rank_lt consistent distinct ha hb before with less | ⟨same, le⟩
    · exact .inl less
    · refine .inr ⟨same, Nat.lt_of_le_of_ne le ?_⟩
      rintro rfl
      obtain rfl : a = b := Option.some.inj (ha.symm.trans hb)
      exact Nat.lt_irrefl _ before
  -- Neither an equal rank nor a greater one goes with what the comparison says.
  · intro less
    by_contra later
    rcases Nat.lt_or_eq_of_le (Nat.le_of_not_lt later) with after | same
    · have other := le_of_rank_lt consistent distinct hb ha after
      rw [swapped] at other
      rcases less with less | ⟨same, lt⟩
      · simp [less] at other
      · have le : j ≤ i := by simpa [same] using other
        omega
    · have there : b.id ∈ (ofGraph g compare).order :=
        (order_perm g compare).mem_iff.2 (List.mem_map_of_mem (List.mem_of_getElem? hb))
      obtain rfl : j = i := place_inj distinct hb ha (rank_inj there same)
      obtain rfl : a = b := Option.some.inj (ha.symm.trans hb)
      have self : compare a a = .eq := ReflCmp.compare_self
      simp [self] at less

/-- What a ranking of the tasks of a graph by a comparison has to be. Ranks and tasks give each
other back; ranks follow the comparison, and the order of loading where that makes no difference;
and sorting leaves the one arrangement of tasks in which ranks increase. -/
structure Faithful (r : Ranking) (g : Graph) (compare : Comparison) : Prop where
  task?_eq_some_iff : ∀ n v, r.task? n = some v ↔ v ∈ g.ids ∧ r.rank v = n
  bijOn : Set.BijOn r.rank {v | v ∈ g.ids} {n | n < g.tasks.length}
  ranks : r.ranks g = g.ids.map r.rank
  rank_lt_iff : ∀ (i j : Nat) (a b : Task), g.tasks[i]? = some a → g.tasks[j]? = some b →
    (r.rank a.id < r.rank b.id ↔ compare a b = .lt ∨ compare a b = .eq ∧ i < j)
  sort_eq_iff : ∀ l, (∀ v ∈ l, v ∈ g.ids) → ∀ l', r.sort l = l' ↔
    l'.Perm l ∧ l'.Pairwise fun v w => r.rank v ≤ r.rank w

theorem sort_eq_iff {l l' : List TaskId} (ranked : ∀ v ∈ l, v ∈ r.order) :
    r.sort l = l' ↔ l'.Perm l ∧ l'.Pairwise fun v w => r.rank v ≤ r.rank w := by
  constructor
  · rintro rfl
    exact ⟨r.sort_perm l, r.pairwise_sort l⟩
  · rintro ⟨perm, sorted⟩
    refine List.Perm.eq_of_pairwise (fun v w hv _ first second => ?_) (r.pairwise_sort l) sorted
      ((r.sort_perm l).trans perm.symm)
    exact rank_inj (ranked v (mem_sort.1 hv)) (Nat.le_antisymm first second)

theorem faithful_of_transCmp (consistent : TransCmp compare) (distinct : g.ids.Nodup) :
    (ofGraph g compare).Faithful g compare := by
  have perm := order_perm g compare
  have once := nodup_order compare distinct
  have length : (ofGraph g compare).order.length = g.tasks.length :=
    perm.length_eq.trans g.length_ids
  refine ⟨fun n v => ?_, ?_, ranks_ofGraph distinct compare,
    fun _ _ _ _ => rank_lt_iff consistent distinct,
    fun l loaded l' => sort_eq_iff fun v hv => perm.mem_iff.2 (loaded v hv)⟩
  · rw [task?_eq_some_iff once, perm.mem_iff]
  · have bijOn := bijOn_rank once
    simp only [perm.mem_iff, length] at bijOn
    exact bijOn

/-- A comparison that is consistent on the loaded tasks ranks them as one that is consistent on
all. -/
theorem faithful_of_orders (orders : compare.Orders g.tasks) (distinct : g.ids.Nodup) :
    (ofGraph g compare).Faithful g compare := by
  have faithful := faithful_of_transCmp orders.transCmp_among distinct
  rw [ofGraph_among fun _ => id] at faithful
  refine { faithful with rank_lt_iff := fun i j a b ha hb => ?_ }
  rw [faithful.rank_lt_iff i j a b ha hb,
    Comparison.among_of_mem (List.mem_of_getElem? ha) (List.mem_of_getElem? hb)]

/-- The comparison by priority is a strict total order of tasks under different identifiers, however
ties are broken. And any comparison that is consistent on the tasks of a graph ranks them
faithfully. -/
theorem rankings_faithful :
    (∀ tieBreak : TieBreak, tieBreak.compare.Strict ∧
      ∀ tasks : Set Task, Set.InjOn Task.id tasks →
        IsStrictTotalOrder tasks fun a b => tieBreak.compare a.1 b.1 = .lt) ∧
    ∀ g : Graph, g.Made → ∀ compare : Comparison, compare.Orders g.tasks →
      (ofGraph g compare).Faithful g compare :=
  ⟨fun tieBreak => ⟨tieBreak.strict, fun _ => tieBreak.strict.isStrictTotalOrder⟩,
    fun _ made _ orders => faithful_of_orders orders made.sound.distinct⟩

open TaskMap in
/-- A comparison that puts one task before all others and before itself. -/
def unsettled : Comparison := fun t _ => if t.id = c then .lt else .eq

open TaskMap in
theorem rankings_faithful_where_equal :
    let tasks := [sample b "y", sample a "x"]
    let g := (Graph.buildLenient tasks []).1
    Set.InjOn Task.id {t | t ∈ tasks} ∧
      IsStrictTotalOrder {t | t ∈ tasks} (fun t u => TieBreak.id.compare t.1 u.1 = .lt) ∧
      g.Made ∧ unsettled.Orders g.tasks ∧ (ofGraph g unsettled).Faithful g unsettled := by
  intro tasks g
  have distinct : Set.InjOn Task.id {t | t ∈ tasks} := fun t ht u hu =>
    List.inj_on_of_nodup_map (by decide) ht hu
  have made : g.Made := .lenient _ _
  have orders : unsettled.Orders g.tasks := by constructor <;> decide
  exact ⟨distinct, (rankings_faithful.1 .id).2 _ distinct, made, orders,
    rankings_faithful.2 g made unsettled orders⟩

end Ranking
end Precedence

import Precedence.Proofs.Greedy
import Precedence.Proofs.Steps
/-!
Levels. The depth of a task is the number of steps of a longest chain that ends in it, and each
level holds the tasks of one depth. No other way of dividing the tasks into waves takes fewer of
them.
-/
namespace Precedence.Graph

open Relation

/-! Heights are depths -/

section

variable {g : Graph} {height : TaskId → Nat} {v p d : TaskId} {n : Nat}

theorem IsHeight.lt_of_link (h : g.IsHeight height) (sound : g.Sound) (link : g.Link p d) :
    height p < height d :=
  (h d (sound.mem_of_link link).2 _).1 (Nat.le_refl _) p (sound.mem_prerequisites.2 link)

/-- Above a task that is not at the bottom there is one just before it. -/
theorem IsHeight.exists_before (h : g.IsHeight height) (sound : g.Sound) (hv : v ∈ g.ids)
    (e : height v = n + 1) : ∃ p, g.Link p v ∧ height p = n := by
  have tall : ¬ height v ≤ n := by omega
  rw [h v hv] at tall
  push Not at tall
  obtain ⟨p, hp, le⟩ := tall
  have link := sound.mem_prerequisites.1 hp
  have less := h.lt_of_link sound link
  exact ⟨p, link, by omega⟩

theorem IsHeight.exists_steps (h : g.IsHeight height) (sound : g.Sound) (hv : v ∈ g.ids)
    (e : height v = n) : ∃ a, Steps g.Link a n v := by
  induction n generalizing v with
  | zero => exact ⟨v, .zero⟩
  | succ n ih =>
    obtain ⟨p, link, e⟩ := h.exists_before sound hv e
    obtain ⟨a, before⟩ := ih (sound.mem_of_link link).1 e
    exact ⟨a, before.succ link⟩

theorem IsHeight.isDepth (h : g.IsHeight height) (sound : g.Sound) (hv : v ∈ g.ids) :
    IsDepth g.Link v (height v) := by
  refine ⟨h.exists_steps sound hv rfl, ?_⟩
  rintro n ⟨a, steps⟩
  have := steps.add_le (f := height) fun _ _ link => h.lt_of_link sound link
  omega

theorem Sound.lt_length_of_steps (sound : g.Sound) (acyclic : g.Acyclic) {a : TaskId}
    (steps : Steps g.Link a n v) (hv : v ∈ g.ids) : n < g.tasks.length := by
  rw [← g.length_ids]
  exact steps.lt_length (fun _ _ link => (sound.mem_of_link link).1) acyclic hv

end

/-! The table of levels -/

section

variable {depth : TaskId → Nat} {levels : List (List TaskId)} {n : Nat}

theorem getD_padded (levels : List (List TaskId)) (k m : Nat) :
    (levels ++ List.replicate m [])[k]?.getD [] = levels[k]?.getD [] := by
  by_cases old : k < levels.length
  · rw [List.getElem?_append_left old]
  · rw [List.getElem?_append_right (by omega), List.getElem?_replicate,
      List.getElem?_eq_none (l := levels) (by omega)]
    split <;> rfl

theorem getD_enlist (depth : TaskId → Nat) (levels : List (List TaskId)) (id : TaskId) (k : Nat) :
    (enlist depth levels id)[k]?.getD [] =
      levels[k]?.getD [] ++ [id].filter (depth · = k) := by
  rw [enlist, List.getElem?_modify, ← getD_padded levels k (depth id + 1 - levels.length)]
  by_cases here : depth id = k
  · subst here
    have there :
        depth id < (levels ++ List.replicate (depth id + 1 - levels.length) []).length := by
      rw [List.length_append, List.length_replicate]
      omega
    rw [List.getElem?_eq_getElem there]
    simp
  · simp [here]

@[simp] theorem length_enlist (depth : TaskId → Nat) (levels : List (List TaskId)) (id : TaskId) :
    (enlist depth levels id).length = max levels.length (depth id + 1) := by
  rw [enlist, List.length_modify, List.length_append, List.length_replicate]
  omega

/-- What is added to a level are the tasks of its depth, in the order in which they are added. -/
theorem getD_enlistAll (ids : List TaskId) (levels : List (List TaskId)) (k : Nat) :
    (ids.foldl (enlist depth) levels)[k]?.getD [] =
      levels[k]?.getD [] ++ ids.filter (depth · = k) := by
  induction ids generalizing levels with
  | nil => exact (List.append_nil _).symm
  | cons id ids ih =>
    rw [List.foldl_cons, ih, getD_enlist, List.append_assoc, ← List.filter_append]
    rfl

theorem length_enlistAll_le {ids : List TaskId} :
    (ids.foldl (enlist depth) levels).length ≤ n ↔ levels.length ≤ n ∧ ∀ v ∈ ids, depth v < n := by
  induction ids generalizing levels with
  | nil => simp
  | cons id ids ih =>
    rw [List.foldl_cons, ih, length_enlist, List.forall_mem_cons, Nat.max_le, and_assoc]
    rfl

end

/-! Waves -/

/-- A way of dividing the tasks into waves so that every link leads to a later one. Waves may be
empty. -/
structure IsWaves (g : Graph) (waves : List (List TaskId)) : Prop where
  perm : waves.flatten.Perm g.ids
  later : ∀ p d, g.Link p d →
    ∀ i j : Nat, p ∈ waves[i]?.getD [] → d ∈ waves[j]?.getD [] → i < j

/-- What levels are: waves of the tasks of one depth each, by rank, with none that is empty and as
few as the longest chain allows. Every task stands behind one in the level just before. -/
structure IsLevels (g : Graph) (r : Ranking) (depth : TaskId → Nat) (levels : List (List TaskId)) :
    Prop extends IsWaves g levels where
  level : ∀ k : Nat, levels[k]?.getD [] = r.order.filter (depth · = k)
  nonempty : ∀ level ∈ levels, level ≠ []
  before : ∀ k : Nat, ∀ v ∈ levels[k + 1]?.getD [], ∃ p ∈ levels[k]?.getD [], g.Link p v
  longest : IsGreatest {n | ∃ c : List TaskId, c.IsChain g.Link ∧ c ⊆ g.ids ∧ c.length = n}
    levels.length
  fewest : ∀ waves, g.IsWaves waves → levels.length ≤ waves.length

section

variable {g : Graph} {r : Ranking} {height : TaskId → Nat} {v : TaskId} {n k : Nat}

/-- With each step of a chain the waves move on. -/
theorem IsWaves.le_of_steps {waves : List (List TaskId)} (h : g.IsWaves waves) (sound : g.Sound)
    {a : TaskId} (steps : Steps g.Link a n v) : ∀ j : Nat, v ∈ waves[j]?.getD [] → n ≤ j := by
  induction steps with
  | zero => exact fun j _ => Nat.zero_le j
  | succ _ last ih =>
    intro j hj
    obtain ⟨i, hi⟩ := mem_flatten_iff.1 (h.perm.mem_iff.2 (sound.mem_of_link last).1)
    have := ih i hi
    have := h.later _ _ last i j hi hj
    omega

theorem level_eq (height : TaskId → Nat) (r : Ranking) (k : Nat) :
    (r.order.foldl (enlist height) [])[k]?.getD [] = r.order.filter (height · = k) := by
  simpa using getD_enlistAll r.order [] k

theorem mem_levels (ranks : r.order.Perm g.ids) :
    v ∈ (r.order.foldl (enlist height) [])[k]?.getD [] ↔ v ∈ g.ids ∧ height v = k := by
  simp [level_eq, ranks.mem_iff]

theorem height_lt_length (height : TaskId → Nat) (ranks : r.order.Perm g.ids) (hv : v ∈ g.ids) :
    height v < (r.order.foldl (enlist height) []).length :=
  (length_enlistAll_le.1 (Nat.le_refl _)).2 v (ranks.mem_iff.2 hv)

theorem isWaves_levels (h : g.IsHeight height) (sound : g.Sound) (ranks : r.order.Perm g.ids) :
    g.IsWaves (r.order.foldl (enlist height) []) where
  perm := by
    have once : (r.order.foldl (enlist height) []).flatten.Nodup := by
      refine List.nodup_flatten.2 ⟨fun level hl => ?_, List.pairwise_iff_getElem.2 ?_⟩
      · obtain ⟨k, hk, rfl⟩ := List.mem_iff_getElem.1 hl
        have level := level_eq height r k
        rw [List.getElem?_eq_getElem hk, Option.getD_some] at level
        rw [level]
        exact (ranks.nodup_iff.2 sound.distinct).filter _
      · intro i j hi hj less v first second
        have here : v ∈ (r.order.foldl (enlist height) [])[i]?.getD [] := by
          rwa [List.getElem?_eq_getElem hi]
        have there : v ∈ (r.order.foldl (enlist height) [])[j]?.getD [] := by
          rwa [List.getElem?_eq_getElem hj]
        have := ((mem_levels ranks).1 here).2
        have := ((mem_levels ranks).1 there).2
        omega
    rw [List.perm_ext_iff_of_nodup once sound.distinct]
    intro v
    simp only [mem_flatten_iff, mem_levels ranks]
    simp
  later p d link i j hi hj := by
    obtain ⟨-, rfl⟩ := (mem_levels ranks).1 hi
    obtain ⟨-, rfl⟩ := (mem_levels ranks).1 hj
    exact h.lt_of_link sound link

/-- Every level has a task, and a chain through the levels before it leads to this task. -/
theorem exists_steps_of_lt_length (h : g.IsHeight height) (sound : g.Sound)
    (ranks : r.order.Perm g.ids) (hk : k < (r.order.foldl (enlist height) []).length) :
    ∃ a, ∃ v ∈ g.ids, height v = k ∧ Steps g.Link a k v := by
  have tall : ¬ ∀ v ∈ g.ids, height v < k := by
    intro all
    have short : (r.order.foldl (enlist height) []).length ≤ k :=
      length_enlistAll_le.2 ⟨Nat.zero_le k, fun v hv => all v (ranks.mem_iff.1 hv)⟩
    omega
  push Not at tall
  obtain ⟨w, hw, le⟩ := tall
  obtain ⟨m, e⟩ := Nat.exists_eq_add_of_le le
  obtain ⟨a, steps⟩ := h.exists_steps sound hw e
  obtain ⟨v, there, rest⟩ := steps.exists_between
  have hv : v ∈ g.ids := by
    rcases ReflTransGen.cases_head rest.reaches with rfl | ⟨u, link, -⟩
    · exact hw
    · exact (sound.mem_of_link link).1
  -- As many links lead to it, and not too many lead on.
  have climbs {a b : TaskId} {n : Nat} (steps : Steps g.Link a n b) : height a + n ≤ height b :=
    steps.add_le fun _ _ link => h.lt_of_link sound link
  have := climbs there
  have := climbs rest
  exact ⟨a, v, hv, by omega, there⟩

theorem isLevels_levels (h : g.IsHeight height) (sound : g.Sound) (ranks : r.order.Perm g.ids) :
    g.IsLevels r height (r.order.foldl (enlist height) []) where
  toIsWaves := isWaves_levels h sound ranks
  level := level_eq height r
  nonempty level hl := by
    obtain ⟨k, hk, rfl⟩ := List.mem_iff_getElem.1 hl
    obtain ⟨-, v, hv, e, -⟩ := exists_steps_of_lt_length h sound ranks hk
    have there := (mem_levels ranks).2 ⟨hv, e⟩
    rw [List.getElem?_eq_getElem hk] at there
    exact List.ne_nil_of_mem there
  before k v hv := by
    obtain ⟨hv, e⟩ := (mem_levels ranks).1 hv
    obtain ⟨p, link, e⟩ := h.exists_before sound hv e
    exact ⟨p, (mem_levels ranks).2 ⟨(sound.mem_of_link link).1, e⟩, link⟩
  longest := by
    constructor
    · cases e : (r.order.foldl (enlist height) []).length with
      | zero => exact ⟨[], .nil, List.nil_subset _, rfl⟩
      | succ k =>
        obtain ⟨a, v, hv, -, steps⟩ := exists_steps_of_lt_length (k := k) h sound ranks (by omega)
        obtain ⟨c, route, length⟩ := steps.exists_route
        exact ⟨c, route.chain, route.subset (fun _ _ link => (sound.mem_of_link link).1) hv, length⟩
    · rintro _ ⟨c, chain, inside, rfl⟩
      cases c with
      | nil => exact Nat.zero_le _
      | cons a c =>
        have last := List.getLast_mem_getLast? (List.cons_ne_nil a c)
        obtain ⟨n, length, steps⟩ := IsRoute.exists_steps ⟨chain, rfl, last⟩
        have below := height_lt_length height ranks
          (inside (List.getLast_mem (List.cons_ne_nil a c)))
        have := steps.add_le (f := height) fun _ _ link => h.lt_of_link sound link
        omega
  fewest waves isWaves := by
    cases e : (r.order.foldl (enlist height) []).length with
    | zero => exact Nat.zero_le _
    | succ k =>
      obtain ⟨a, v, hv, -, steps⟩ := exists_steps_of_lt_length (k := k) h sound ranks (by omega)
      obtain ⟨j, hj⟩ := mem_flatten_iff.1 (isWaves.perm.mem_iff.2 hv)
      exact Nat.lt_of_le_of_lt (isWaves.le_of_steps sound steps j hj) (lt_length_of_mem hj)

end

/-- In every graph without a cycle the depth of a task is the number of links of a longest chain
that ends in it. It is less than the number of tasks, so that one more than the depth of a
prerequisite fits the word it is counted in. The levels hold the tasks of one depth each, and are as
many as the tasks of a longest chain. -/
theorem levels_are_longest_chains {g : Graph} (made : g.Made) (acyclic : g.Acyclic)
    (compare : Comparison) : ∃ (depth : TaskId → Nat) (levels : List (List TaskId)),
    g.depths (.ofGraph g compare) = .ok (g.ids.map fun v => (v, depth v)) ∧
    g.levels (.ofGraph g compare) = .ok levels ∧
    (∀ v ∈ g.ids, IsDepth g.Link v (depth v) ∧ depth v < g.tasks.length) ∧
    (g.tasks.length ≤ UInt32.size →
      ∀ p d, g.Link p d → (UInt32.ofNat (depth p) + 1).toNat = depth p + 1) ∧
    g.IsLevels (.ofGraph g compare) depth levels := by
  have sound := made.sound
  have ranks := Ranking.order_perm g compare
  obtain ⟨order, scheduled, isSchedule⟩ := exists_schedule sound ranks acyclic
  have isHeight := isSchedule.isHeight sound.distinct
  have few {v : TaskId} (hv : v ∈ g.ids) :
      ((g.depthsFrom [] order).lookup v).getD 0 < g.tasks.length := by
    obtain ⟨a, steps⟩ := isHeight.exists_steps sound hv rfl
    exact sound.lt_length_of_steps acyclic steps hv
  refine ⟨_, _, ?_, ?_, fun v hv => ⟨isHeight.isDepth sound hv, few hv⟩, fun short p d link => ?_,
    isLevels_levels isHeight sound ranks⟩
  · rw [depths, scheduled]
    rfl
  · rw [levels, scheduled]
    rfl
  · have less := isHeight.lt_of_link sound link
    have := few (sound.mem_of_link link).2
    rw [UInt32.toNat_add, UInt32.toNat_ofNat_of_lt' (by omega), UInt32.toNat_one]
    exact Nat.mod_eq_of_lt (by unfold UInt32.size at short; omega)

theorem levels_are_longest_chains_on_waiting : waiting.Made ∧ waiting.Acyclic ∧
    ∃ depth levels, waiting.levels (.ofGraph waiting TieBreak.id.compare) = .ok levels ∧
      waiting.IsLevels (.ofGraph waiting TieBreak.id.compare) depth levels := by
  have made : waiting.Made := .lenient _ _
  obtain ⟨depth, levels, -, leveled, -, -, isLevels⟩ :=
    levels_are_longest_chains made acyclic_waiting TieBreak.id.compare
  exact ⟨made, acyclic_waiting, depth, levels, leveled, isLevels⟩

end Precedence.Graph

import Mathlib.Data.Set.Card
import Precedence.Proofs.Building
import Precedence.Proofs.Cycle
import Precedence.Proofs.Ranking
import Precedence.Proofs.Steps
/-!
Walks find distances. The layers of a walk are the tasks at distance one, two and so on from the
seed, also where there are cycles, so a walk that stops at a depth lists what is no further than
that, and counts what is one step further.
-/
namespace Precedence.Graph

/-! Layers -/

section

variable {next : TaskId → List TaskId} {seed v : TaskId} {ids seen frontier : List TaskId}
    {n fuel : Nat}

/-- What was met is no further than a distance, and what is at this distance is on the frontier. -/
structure Surrounds (next : TaskId → List TaskId) (seed : TaskId) (n : Nat)
    (seen frontier : List TaskId) : Prop where
  seen : ∀ v, v ∈ seen ↔ ∃ m ≤ n, IsDistance (Search.Follows next) seed v m
  frontier : ∀ v, v ∈ frontier ↔ IsDistance (Search.Follows next) seed v n

theorem surrounds_seed (next : TaskId → List TaskId) (seed : TaskId) :
    Surrounds next seed 0 [seed] [seed] := by
  have here (v : TaskId) : v ∈ [seed] ↔ IsDistance (Search.Follows next) seed v 0 := by
    rw [List.mem_singleton]
    constructor
    · rintro rfl
      exact .self _ v
    · rintro ⟨_ | _, -⟩
      rfl
  refine ⟨fun v => ?_, here⟩
  rw [here]
  simp

theorem Surrounds.mem_frontierAfter (h : Surrounds next seed n seen frontier) :
    v ∈ frontierAfter next seen frontier ↔ IsDistance (Search.Follows next) seed v (n + 1) := by
  rw [Graph.mem_frontierAfter, h.seen]
  constructor
  · rintro ⟨⟨u, hu, last⟩, new⟩
    refine ⟨((h.frontier u).1 hu).1.succ last, fun m steps => ?_⟩
    obtain ⟨k, le, distance⟩ := IsDistance.exists_of_steps steps
    by_contra less
    exact new ⟨k, by omega, distance⟩
  · intro distance
    obtain ⟨u, before, last⟩ := distance.exists_before
    refine ⟨⟨u, (h.frontier u).2 before, last⟩, ?_⟩
    rintro ⟨m, le, nearer⟩
    have := nearer.unique distance
    omega

theorem Surrounds.step (h : Surrounds next seed n seen frontier) :
    Surrounds next seed (n + 1) (seen ++ frontierAfter next seen frontier)
      (frontierAfter next seen frontier) where
  seen v := by
    rw [List.mem_append, h.seen, h.mem_frontierAfter]
    constructor
    · rintro (⟨m, le, distance⟩ | distance)
      · exact ⟨m, Nat.le_succ_of_le le, distance⟩
      · exact ⟨n + 1, Nat.le_refl _, distance⟩
    · rintro ⟨m, le, distance⟩
      rcases Nat.lt_or_eq_of_le le with less | rfl
      · exact .inl ⟨m, Nat.le_of_lt_succ less, distance⟩
      · exact .inr distance
  frontier v := h.mem_frontierAfter

theorem layersFrom_succ (next : TaskId → List TaskId) (fuel : Nat) (seen frontier : List TaskId) :
    layersFrom next (fuel + 1) seen frontier =
      if frontierAfter next seen frontier = [] then []
      else frontierAfter next seen frontier :: layersFrom next fuel
        (seen ++ frontierAfter next seen frontier) (frontierAfter next seen frontier) := by
  rw [layersFrom]
  cases frontierAfter next seen frontier <;> rfl

/-- Behind a frontier, the layers are what is at one distance after the other. -/
theorem Surrounds.mem_layersFrom (h : Surrounds next seed n seen frontier)
    (inside : ∀ v, ∀ w ∈ next v, w ∈ ids) (enough : ids.countP (· ∉ seen) ≤ fuel) (k : Nat) :
    v ∈ (layersFrom next fuel seen frontier)[k]?.getD [] ↔
      IsDistance (Search.Follows next) seed v (n + 1 + k) := by
  induction fuel generalizing n seen frontier k with
  | zero =>
    -- All tasks were met, so there is none at a greater distance.
    refine iff_of_false List.not_mem_nil fun distance => ?_
    rw [Nat.add_right_comm] at distance
    obtain ⟨u, -, last⟩ := distance.exists_before
    have all := List.countP_eq_zero.1 (Nat.le_zero.1 enough) v (inside u v last)
    obtain ⟨m, le, nearer⟩ := (h.seen v).1 (by simpa using all)
    have := nearer.unique distance
    omega
  | succ fuel ih =>
    rw [layersFrom_succ]
    split
    · next empty =>
      -- Where nothing is at the next distance, nothing is at a greater one.
      refine iff_of_false List.not_mem_nil fun distance => ?_
      obtain ⟨u, first, -⟩ := distance.exists_between
      rw [← h.mem_frontierAfter, empty] at first
      exact List.not_mem_nil first
    · next nonempty =>
      cases k with
      | zero => exact h.mem_frontierAfter
      | succ k =>
        have less := countP_unseen_lt inside nonempty
        rw [List.getElem?_cons_succ, ih h.step (by omega) k, Nat.add_right_comm (n + 1)]
        rfl

end

variable {g : Graph} {r : Ranking} {direction : Direction} {seed v w : TaskId} {k maxDepth : Nat}

/-- The layers of a walk are the tasks at the distances from one on. -/
theorem Sound.mem_layers (h : g.Sound) :
    v ∈ (g.layers direction seed)[k]?.getD [] ↔
      IsDistance (g.linkAlong direction) seed v (k + 1) := by
  have along : Search.Follows (g.neighbours direction) = g.linkAlong direction := by
    funext a b
    exact propext h.mem_neighbours
  have inside (a b : TaskId) (hb : b ∈ g.neighbours direction a) : b ∈ g.ids :=
    mem_ids_of_mem_neighbours direction hb
  have enough : g.ids.countP (· ∉ [seed]) ≤ g.tasks.length := by
    rw [← g.length_ids]
    exact List.countP_le_length
  rw [layers, (surrounds_seed _ seed).mem_layersFrom inside enough, along, Nat.zero_add,
    Nat.add_comm]

theorem nodup_layer (g : Graph) (direction : Direction) (seed : TaskId) {layer : List TaskId}
    (h : layer ∈ g.layers direction seed) : layer.Nodup :=
  (List.nodup_flatten.1 (List.nodup_cons.1 (g.nodup_closure direction seed)).2).1 layer h

theorem nodup_getD_layers (g : Graph) (direction : Direction) (seed : TaskId) (k : Nat) :
    ((g.layers direction seed)[k]?.getD []).Nodup := by
  cases e : (g.layers direction seed)[k]? with
  | none => exact List.nodup_nil
  | some layer => exact g.nodup_layer direction seed (List.mem_of_getElem? e)

theorem Sound.coe_layer (h : g.Sound) :
    (((g.layers direction seed)[k]?.getD []).toFinset : Set TaskId) =
    {v | IsDistance (g.linkAlong direction) seed v (k + 1)} := by
  ext v
  rw [List.coe_toFinset]
  exact h.mem_layers

/-! Walks -/

/-- What a walk returns: the tasks that are at distances up to a limit, each once and the seed not
among them, by distance and then by rank, and the number of those that are one step further. -/
structure Surveys (g : Graph) (r : Ranking) (direction : Direction) (seed : TaskId) (maxDepth : Nat)
    (w : Relatives) : Prop where
  seed_eq : w.seed = seed
  maxDepth_eq : w.maxDepth = maxDepth
  mem_tasks : ∀ v k, ⟨v, k⟩ ∈ w.tasks ↔
    IsDistance (g.linkAlong direction) seed v k ∧ 1 ≤ k ∧ k ≤ maxDepth
  once : w.ids.Nodup
  seed_off : seed ∉ w.ids
  sorted : w.tasks.Pairwise fun x y =>
    x.depth < y.depth ∨ x.depth = y.depth ∧ r.rank x.id < r.rank y.id
  beyond : {v | IsDistance (g.linkAlong direction) seed v (maxDepth + 1)}.encard = w.beyondLimit

def relativesAt (r : Ranking) (i : Nat) (layer : List TaskId) : List Relative :=
  (r.sort layer).map fun id => ⟨id, i + 1⟩

/-- The tasks that a walk lists. -/
def walked (g : Graph) (r : Ranking) (direction : Direction) (seed : TaskId) (maxDepth : Nat) :
    List Relative :=
  (((g.layers direction seed).take maxDepth).mapIdx (relativesAt r)).flatten

theorem walk_of_mem (hs : seed ∈ g.ids) : g.walk r direction seed maxDepth = .ok
    { seed, maxDepth
      tasks := g.walked r direction seed maxDepth
      beyondLimit := ((g.layers direction seed)[maxDepth]?.getD []).length } := by
  rw [walk, require, if_pos ((contains_iff g seed).2 hs)]
  rfl

@[simp] theorem mem_relativesAt {i : Nat} {layer : List TaskId} {x : Relative} :
    x ∈ relativesAt r i layer ↔ x.id ∈ layer ∧ x.depth = i + 1 := by
  rw [relativesAt, List.mem_map]
  constructor
  · rintro ⟨v, hv, rfl⟩
    exact ⟨Ranking.mem_sort.1 hv, rfl⟩
  · rintro ⟨hx, e⟩
    exact ⟨x.id, Ranking.mem_sort.2 hx, by rw [← e]⟩

theorem Sound.mem_walked (h : g.Sound) {x : Relative} : x ∈ g.walked r direction seed maxDepth ↔
    IsDistance (g.linkAlong direction) seed x.id x.depth ∧ 1 ≤ x.depth ∧ x.depth ≤ maxDepth := by
  rw [walked, List.mem_flatten]
  constructor
  · rintro ⟨_, hl, hx⟩
    obtain ⟨i, hi, rfl⟩ := List.mem_mapIdx.1 hl
    obtain ⟨hv, e⟩ := mem_relativesAt.1 hx
    rw [List.length_take] at hi
    have there : x.id ∈ (g.layers direction seed)[i]?.getD [] := by
      rw [List.getElem_take] at hv
      rwa [List.getElem?_eq_getElem (by omega)]
    rw [e]
    exact ⟨h.mem_layers.1 there, by omega, by omega⟩
  · rintro ⟨distance, one, le⟩
    obtain ⟨i, e⟩ := Nat.exists_eq_add_of_le' one
    have there := h.mem_layers.2 (e ▸ distance)
    have hi := lt_length_of_mem there
    rw [List.getElem?_eq_getElem hi] at there
    refine ⟨_, List.mem_mapIdx.2 ⟨i, by rw [List.length_take]; omega, rfl⟩,
      mem_relativesAt.2 ⟨?_, e⟩⟩
    rwa [List.getElem_take]

theorem pairwise_walked (g : Graph) (ranks : r.order.Perm g.ids) (direction : Direction)
    (seed : TaskId) (maxDepth : Nat) : (g.walked r direction seed maxDepth).Pairwise fun x y =>
      x.depth < y.depth ∨ x.depth = y.depth ∧ r.rank x.id < r.rank y.id := by
  refine List.pairwise_flatten.2 ⟨fun l hl => ?_, ?_⟩
  · obtain ⟨i, hi, rfl⟩ := List.mem_mapIdx.1 hl
    have layer := List.mem_of_mem_take (List.getElem_mem hi)
    have sorted := r.pairwise_sort_lt (g.nodup_layer direction seed layer) fun v hv =>
      ranks.mem_iff.2 (mem_ids_of_mem_layers layer hv)
    exact List.pairwise_map.2 (sorted.imp fun less => .inr ⟨rfl, less⟩)
  · rw [List.pairwise_iff_getElem]
    intro i j hi hj less x hx y hy
    rw [List.getElem_mapIdx, mem_relativesAt] at hx hy
    exact .inl (by omega)

theorem Sound.surveys (h : g.Sound) (ranks : r.order.Perm g.ids) (direction : Direction)
    (hs : seed ∈ g.ids) (maxDepth : Nat) :
    ∃ w, g.walk r direction seed maxDepth = .ok w ∧ g.Surveys r direction seed maxDepth w := by
  have sorted := g.pairwise_walked ranks direction seed maxDepth
  refine ⟨_, walk_of_mem hs, ⟨rfl, rfl, fun v k => h.mem_walked, ?_, ?_, sorted, ?_⟩⟩
  -- A task is at one distance only, so it is listed for this one and under one rank.
  · refine List.pairwise_map.2 (sorted.imp_of_mem fun {x y} hx hy before same => ?_)
    have depth := (same ▸ (h.mem_walked.1 hx).1).unique (h.mem_walked.1 hy).1
    rw [same] at before
    omega
  · rintro hv
    obtain ⟨x, hx, rfl⟩ := List.mem_map.1 hv
    obtain ⟨distance, one, -⟩ := h.mem_walked.1 hx
    have := distance.unique (.self _ x.id)
    omega
  · rw [← h.coe_layer, Set.encard_coe_eq_coe_finsetCard,
      List.toFinset_card_of_nodup (nodup_getD_layers g direction seed maxDepth)]

/-! The reversed graph -/

/-- The graph on the same tasks with every link the other way round. -/
def reversed (g : Graph) : Graph :=
  (buildLenient g.tasks (g.links.map fun e => ⟨e.prerequisite, e.dependent⟩)).1

theorem Sound.tasks_reversed (h : g.Sound) : g.reversed.tasks = g.tasks := by
  rw [reversed, buildLenient, foldl_addTask_distinct h.distinct, addEdges_eq]

theorem Sound.link_reversed (h : g.Sound) : g.reversed.Link v w ↔ g.Link w v := by
  rw [reversed, link_buildLenient, List.mem_map]
  constructor
  · rintro ⟨⟨e, he, same⟩, -⟩
    cases same
    exact he
  · intro link
    exact ⟨⟨_, link, rfl⟩, h.ne_of_link link, h.mem_of_link link⟩

theorem filter_eq_filter {l l' : List TaskId} (e : l = l') {p q : TaskId → Bool}
    (same : ∀ v, v ∈ l.filter p ↔ v ∈ l'.filter q) : l.filter p = l'.filter q := by
  subst e
  refine List.filter_congr fun v hv => Bool.eq_iff_iff.2 ?_
  simpa [List.mem_filter, hv] using same v

/-- Neighbours are listed in load order, so it is enough that they are the same tasks. -/
theorem Sound.neighbours_reversed (h : g.Sound) :
    g.reversed.neighbours .down = g.neighbours .up ∧
      g.reversed.neighbours .up = g.neighbours .down := by
  have sound : g.reversed.Sound := sound_buildLenient _ _
  have ids : g.reversed.ids = g.ids := congrArg (List.map Task.id) h.tasks_reversed
  constructor
  · funext v
    refine filter_eq_filter ids fun w => ?_
    exact sound.mem_dependents.trans (h.link_reversed.trans h.mem_prerequisites.symm)
  · funext v
    refine filter_eq_filter ids fun w => ?_
    exact sound.mem_prerequisites.trans (h.link_reversed.trans h.mem_dependents.symm)

theorem Sound.walk_reversed (h : g.Sound) (r : Ranking) {direction direction' : Direction}
    (turned : g.reversed.neighbours direction' = g.neighbours direction) (seed : TaskId)
    (maxDepth : Nat) :
    g.reversed.walk r direction' seed maxDepth = g.walk r direction seed maxDepth := by
  rw [walk, require, contains, layers, turned, h.tasks_reversed]
  rfl

/-- All walks through a graph, whether or not it has a cycle, find distances: along prerequisites
and along dependents, from any loaded task and to any depth. So one task is an ancestor of another
at a depth exactly if that is its descendant at this depth, and to walk up is to walk down in the
reversed graph. -/
theorem walks_find_distances {g : Graph} (made : g.Made) (compare : Comparison) (maxDepth : Nat) :
    (∀ seed ∈ g.ids, ∀ direction, ∃ w,
      g.walk (.ofGraph g compare) direction seed maxDepth = .ok w ∧
        g.Surveys (.ofGraph g compare) direction seed maxDepth w) ∧
    (∀ a ∈ g.ids, ∀ b ∈ g.ids, ∃ ancestors descendants,
      g.walk (.ofGraph g compare) .up a maxDepth = .ok ancestors ∧
        g.walk (.ofGraph g compare) .down b maxDepth = .ok descendants ∧
          ∀ k, ⟨b, k⟩ ∈ ancestors.tasks ↔ ⟨a, k⟩ ∈ descendants.tasks) ∧
    (∀ seed, g.walk (.ofGraph g compare) .up seed maxDepth =
      g.reversed.walk (.ofGraph g.reversed compare) .down seed maxDepth) ∧
    ∀ seed, g.walk (.ofGraph g compare) .down seed maxDepth =
      g.reversed.walk (.ofGraph g.reversed compare) .up seed maxDepth := by
  have h := made.sound
  have ranks := Ranking.order_perm g compare
  have ranking : Ranking.ofGraph g.reversed compare = .ofGraph g compare := by
    rw [Ranking.ofGraph, h.tasks_reversed, Ranking.ofGraph]
  refine ⟨fun seed hs direction => h.surveys ranks direction hs maxDepth, fun a ha b hb => ?_,
    fun seed => ?_, fun seed => ?_⟩
  · obtain ⟨up, walked, above⟩ := h.surveys ranks .up ha maxDepth
    obtain ⟨down, walked', below⟩ := h.surveys ranks .down hb maxDepth
    refine ⟨up, down, walked, walked', fun k => ?_⟩
    rw [above.mem_tasks, below.mem_tasks]
    exact and_congr_left' IsDistance.swap_iff
  · rw [ranking, h.walk_reversed _ h.neighbours_reversed.1]
  · rw [ranking, h.walk_reversed _ h.neighbours_reversed.2]

open TaskMap in
theorem walks_find_distances_on_pair : pair.Made ∧ a ∈ pair.ids ∧
    ∃ w, pair.walk (.ofGraph pair TieBreak.id.compare) .up a 3 = .ok w ∧
      pair.Surveys (.ofGraph pair TieBreak.id.compare) .up a 3 w := by
  have made : pair.Made := .lenient _ _
  have loaded : a ∈ pair.ids := by decide +kernel
  exact ⟨made, loaded, (walks_find_distances made TieBreak.id.compare 3).1 a loaded .up⟩

end Precedence.Graph

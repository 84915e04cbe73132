import Precedence.Project
import Precedence.Proofs.Change
import Precedence.Proofs.Levels
import Precedence.Proofs.Store
/-!
Bringing recorded depths up to date, whatever stored tasks name. Where the edges between stored
tasks go round, nothing is touched; else each task records its depth, and nothing but depths is
touched. What is done is told by the depths alone.
-/
namespace Precedence

open Relation

def Task.withoutDepth (t : Task) : Task := { t with depth := 0 }

/-- Stored tasks after their depths were brought up to date: nothing else has changed, and each
records its depth, as far as its word counts. With a cycle among them not even depths have
changed. -/
structure Refreshed (tasks tasks' : List Task) : Prop where
  frame : tasks'.map Task.withoutDepth = tasks.map Task.withoutDepth
  settled : (∀ v, ¬ TransGen (Feeds tasks') v v) → ∀ t ∈ tasks', ∃ n < tasks'.length,
    IsDepth (Feeds tasks') t.id n ∧ t.depth.toNat = min greatestDepth n
  kept : (¬ ∀ v, ¬ TransGen (Feeds tasks') v v) → tasks' = tasks

/-- The depths of stored tasks: from each on, that many steps up make a longest chain. -/
def Deep (tasks : List Task) (depth : TaskId → Nat) : Prop :=
  ∀ t ∈ tasks, IsDepth (Feeds tasks) t.id (depth t.id)

section

variable {tasks tasks' : List Task}

@[simp] theorem needs_withoutDepth : Needs (tasks.map Task.withoutDepth) = Needs tasks := by
  funext d p
  exact propext (needs_map (f := Task.withoutDepth) fun _ _ => rfl)

theorem ids_of_frame (frame : tasks'.map Task.withoutDepth = tasks.map Task.withoutDepth) :
    tasks'.map Task.id = tasks.map Task.id := by
  rw [← ids_map (f := Task.withoutDepth) fun _ _ => rfl, frame,
    ids_map (f := Task.withoutDepth) fun _ _ => rfl]

/-- Depths play no part in what feeds what. -/
theorem feeds_of_frame (frame : tasks'.map Task.withoutDepth = tasks.map Task.withoutDepth) :
    Feeds tasks' = Feeds tasks := by
  have needs : Needs tasks' = Needs tasks := by
    rw [← needs_withoutDepth, frame, needs_withoutDepth]
  funext p d
  rw [Feeds, needs, ids_of_frame frame, Feeds]

end

/-- A task that records its depth, as far as its word counts. -/
def Task.deepened (depth : TaskId → Nat) (t : Task) : Task :=
  { t with depth := .ofNat (min greatestDepth (depth t.id)) }

/-- How many tasks record another depth than theirs. -/
def outdated (tasks : List Task) (depth : TaskId → Nat) : Nat :=
  tasks.countP fun t => t.depth ≠ (t.deepened depth).depth

/-- Stored tasks, each with its depth. -/
def TaskMap.deepened (m : TaskMap) (depth : TaskId → Nat) : TaskMap where
  entries := m.entries.map (Task.deepened depth)
  distinct := by
    rw [ids_map (f := Task.deepened depth) fun _ _ => rfl]
    exact m.distinct

section

variable {tasks : List Task} {depth : TaskId → Nat}

@[simp] theorem toNat_deepened (t : Task) :
    (t.deepened depth).depth.toNat = min greatestDepth (depth t.id) :=
  UInt32.toNat_ofNat_of_lt' (Nat.lt_of_le_of_lt (Nat.min_le_left _ _) (by decide))

theorem deepened_of_eq {t : Task} {n : Nat} (h : depth t.id = n) :
    t.deepened depth = { t with depth := .ofNat (min greatestDepth n) } := by
  rw [← h]
  rfl

theorem deepen_heights {t : Task} (ht : t ∈ tasks) :
    Project.deepen (heights tasks depth) t =
      (t.deepened depth, t.depth != (t.deepened depth).depth) := by
  rw [Project.deepen, lookup_heights ht]
  rfl

theorem map_deepen : (tasks.map (Project.deepen (heights tasks depth))).map (·.1) =
    tasks.map (Task.deepened depth) := by
  rw [List.map_map]
  exact List.map_congr_left fun t ht => congrArg Prod.fst (deepen_heights ht)

theorem countP_deepen :
    (tasks.map (Project.deepen (heights tasks depth))).countP (·.2) = outdated tasks depth := by
  rw [List.countP_map]
  refine List.countP_congr fun t ht => ?_
  simp [deepen_heights ht]

theorem map_deepened_of_quiet (quiet : outdated tasks depth = 0) :
    tasks.map (Task.deepened depth) = tasks := by
  refine (List.map_congr_left fun t ht => ?_).trans (List.map_id tasks)
  have same : t.depth = (t.deepened depth).depth := by
    simpa using List.countP_eq_zero.1 quiet t ht
  show ({ t with depth := (t.deepened depth).depth } : Task) = t
  rw [← same]

@[simp] theorem Task.withoutDepth_deepened (t : Task) :
    (t.deepened depth).withoutDepth = t.withoutDepth := rfl

theorem frame_deepened :
    (tasks.map (Task.deepened depth)).map Task.withoutDepth = tasks.map Task.withoutDepth := by
  simp

theorem Deep.deepened (deep : Deep tasks depth) : Deep (tasks.map (Task.deepened depth)) depth := by
  intro u hu
  obtain ⟨t, ht, rfl⟩ := List.mem_map.1 hu
  rw [feeds_of_frame frame_deepened]
  exact deep t ht

/-- What has been brought up to date is. -/
@[simp] theorem outdated_deepened : outdated (tasks.map (Task.deepened depth)) depth = 0 := by
  refine List.countP_eq_zero.2 fun u hu => ?_
  obtain ⟨t, -, rfl⟩ := List.mem_map.1 hu
  simp [Task.deepened]

end

section

variable {tasks : List Task} {depth : TaskId → Nat}

theorem refreshed_self (cyclic : ∃ v, TransGen (Feeds tasks) v v) : Refreshed tasks tasks where
  frame := rfl
  settled acyclic := by
    obtain ⟨v, round⟩ := cyclic
    exact absurd round (acyclic v)
  kept _ := rfl

theorem refreshed_deepened (acyclic : ∀ v, ¬ TransGen (Feeds tasks) v v) (deep : Deep tasks depth)
    (few : ∀ t ∈ tasks, depth t.id < tasks.length) :
    Refreshed tasks (tasks.map (Task.deepened depth)) where
  frame := frame_deepened
  settled _ u hu := by
    obtain ⟨t, ht, rfl⟩ := List.mem_map.1 hu
    rw [feeds_of_frame frame_deepened, List.length_map]
    exact ⟨depth t.id, few t ht, deep t ht, toNat_deepened t⟩
  kept cyclic := by
    rw [feeds_of_frame frame_deepened] at cyclic
    exact absurd acyclic cyclic

namespace Tidy

variable (h : Tidy tasks)

include h

theorem feeds_iff {p d : TaskId} : Feeds tasks p d ↔ Needs tasks d p := by
  rw [← link_graphOf]
  exact h.link_iff

theorem acyclic_feeds (v : TaskId) : ¬ TransGen (Feeds tasks) v v := by
  rw [← link_graphOf]
  exact h.graph_acyclic v

theorem height_of_deep (deep : Deep tasks depth) : Height tasks depth := by
  intro t ht n
  have before (p : TaskId) (feeds : Feeds tasks p t.id) : IsDepth (Feeds tasks) p (depth p) := by
    obtain ⟨u, hu, rfl⟩ := List.mem_map.1 feeds.2.2
    exact deep u hu
  rw [(deep t ht).le_iff before]
  exact forall_congr' fun p => imp_congr_left (h.feeds_iff.trans (needs_iff h.distinct ht))

/-- Depths are nothing that tidiness asks for, and with those the tasks have, they are settled. -/
theorem deepened (deep : Deep tasks depth) :
    Tidy (tasks.map (Task.deepened depth)) ∧ Settled (tasks.map (Task.deepened depth)) := by
  refine ⟨h.map_sublist (fun _ _ => rfl) (fun _ _ => rfl) fun _ _ => .refl _,
    depth, (h.height_of_deep deep).map (fun _ _ => rfl) fun _ _ => rfl, fun u hu => ?_⟩
  obtain ⟨t, -, rfl⟩ := List.mem_map.1 hu
  exact toNat_deepened t

end Tidy

end

section

variable {m : TaskMap} {compare : Comparison}

theorem exists_deep (acyclic : ∀ v, ¬ TransGen (Feeds m.entries) v v) :
    ∃ depth, Deep m.entries depth ∧ ∀ t ∈ m.entries, depth t.id < m.entries.length := by
  rw [← link_graphOf] at acyclic
  have sound := sound_graphOf m.entries
  obtain ⟨height, isHeight, -⟩ := Graph.exists_depths sound
    (Ranking.order_perm (graphOf m.entries) fun _ _ => .eq) acyclic
  have there {t : Task} (ht : t ∈ m.entries) : t.id ∈ (graphOf m.entries).ids :=
    ids_graphOf m.distinct ▸ List.mem_map_of_mem ht
  refine ⟨height, fun t ht => ?_, fun t ht => ?_⟩
  · rw [← link_graphOf]
    exact isHeight.isDepth sound (there ht)
  · obtain ⟨a, steps⟩ := isHeight.exists_steps sound (there ht) rfl
    have few := sound.lt_length_of_steps acyclic steps (there ht)
    rwa [← Graph.length_ids, ids_graphOf m.distinct, List.length_map] at few

/-- The depths that a graph finds, whatever its tasks are ranked by. -/
theorem depths_of_deep {depth : TaskId → Nat} (acyclic : ∀ v, ¬ TransGen (Feeds m.entries) v v)
    (deep : Deep m.entries depth) :
    (graphOf m.entries).depths (.ofGraph (graphOf m.entries) compare) =
      .ok (heights m.entries depth) := by
  rw [← link_graphOf] at acyclic
  have sound := sound_graphOf m.entries
  obtain ⟨height, isHeight, found⟩ := Graph.exists_depths sound
    (Ranking.order_perm (graphOf m.entries) compare) acyclic
  rw [found, ids_graphOf m.distinct, List.map_map]
  refine congrArg Except.ok (List.map_congr_left fun t ht => ?_)
  have there : t.id ∈ (graphOf m.entries).ids := ids_graphOf m.distinct ▸ List.mem_map_of_mem ht
  have isDepth := isHeight.isDepth sound there
  rw [link_graphOf] at isDepth
  exact congrArg (Prod.mk t.id) (isDepth.unique (deep t ht))

end

namespace Project

open Precedence.Action

variable {p : Project} {d : Disk} {m : TaskMap} {depth : TaskId → Nat}

theorem refreshDepths_of_cyclic (loaded : p.store.load d = .ok m.entries)
    (cyclic : ∃ v, TransGen (Feeds m.entries) v v) : p.refreshDepths d = (.ok (0, p), d) := by
  rw [refreshDepths, bind_ok (Store.readAll_run loaded)]
  dsimp only
  rw [← graphOf]
  cases found : (graphOf m.entries).depths
      (.ofGraph (graphOf m.entries) p.settings.analysis.tieBreak.compare) with
  | error _ => rfl
  | ok depths =>
    obtain ⟨v, round⟩ := cyclic
    rw [← link_graphOf] at round
    exact absurd round (Graph.acyclic_of_depths (sound_graphOf _) (Ranking.order_perm _ _) found v)

/-- What is done is told by the depths, however ties are broken. -/
theorem refreshDepths_of_deep (acyclic : ∀ v, ¬ TransGen (Feeds m.entries) v v)
    (deep : Deep m.entries depth) (loaded : p.store.load d = .ok m.entries) :
    p.refreshDepths d = (if outdated m.entries depth = 0 then pure (0, p) else do
      p.store.writeAll (m.entries.map (Task.deepened depth))
      pure (outdated m.entries depth, { p with shared := p.shared.invalidate })) d := by
  rw [refreshDepths, bind_ok (Store.readAll_run loaded)]
  dsimp only
  rw [← graphOf, depths_of_deep acyclic deep]
  dsimp only
  rw [map_deepen, countP_deepen]

/-- Where there is no cycle, a store that can be written shows every task with its depth
afterwards. -/
theorem refreshDepths_deepens (acyclic : ∀ v, ¬ TransGen (Feeds m.entries) v v)
    (deep : Deep m.entries depth) (shows : p.store.Shows d m) (ready : p.store.Ready d) :
    Ends p.refreshDepths d (fun _ d' => p.store.Shows d' (m.deepened depth)) fun _ => False := by
  refine Ends.congr ?_ (refreshDepths_of_deep acyclic deep shows.load)
  split
  · next quiet =>
    have same : m.deepened depth = m := TaskMap.ext (map_deepened_of_quiet quiet)
    rw [same]
    exact ends_pure shows
  · exact .bind ((Store.writeEntries_ends ready.off shows (m.deepened depth)).mono
      (fun _ d' written => ends_pure written.1) fun _ failed => failed.2 ready)

/-- Bringing depths up to date does not fail where the store shows a map and can be written. -/
theorem refreshDepths_ends (shows : p.store.Shows d m) (ready : p.store.Ready d) :
    Ends p.refreshDepths d (fun _ d' => ∃ m', p.store.Shows d' m' ∧ Refreshed m.entries m'.entries)
      fun _ => False := by
  by_cases acyclic : ∀ v, ¬ TransGen (Feeds m.entries) v v
  · obtain ⟨depth, deep, few⟩ := exists_deep acyclic
    exact (refreshDepths_deepens acyclic deep shows ready).mono
      (fun _ _ deepened => ⟨_, deepened, refreshed_deepened acyclic deep few⟩) fun _ => id
  · push Not at acyclic
    refine Ends.congr (b := pure (0, p)) ?_ (refreshDepths_of_cyclic shows.load acyclic)
    exact ends_pure ⟨m, shows, refreshed_self acyclic⟩

end Project

end Precedence

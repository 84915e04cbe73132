import Precedence.Proofs.Rewiring
/-!
Depths set to what they are. Bringing them up to date gives each task the length of the longest
chain above it and touches nothing else. Nothing is written where there is no news, so a second time
nothing is; and how ties are broken plays no part.
-/
namespace Precedence

open Relation

namespace Project

open Precedence.Action

/-- What becomes of bringing depths up to date. Where no task is outdated nothing is done; else all
tasks are written with their depths, and then there is nothing to do any more, however ties are
broken. It fails only where the disk is not ready, and leaves the file as it is. -/
structure SetsDepths (p : Project) (tasks : List Task) (depth : TaskId → Nat) (d : Disk) :
    Prop where
  quiet : outdated tasks depth = 0 → p.refreshDepths d = (.ok (0, p), d)
  ends : Ends p.refreshDepths d
    (fun r d' => r.1 = outdated tasks depth ∧ r.2.root = p.root ∧
      p.store.load d' = .ok (tasks.map (Task.deepened depth)) ∧
      ∀ q : Project, q.root = p.root → q.refreshDepths d' = (.ok (0, q), d'))
    fun d' => ¬ p.store.Ready d ∧ Disk.Spares p.store.place d d'

section

variable {p q : Project} {d : Disk} {m : TaskMap} {depth : TaskId → Nat}

theorem load_of_root (root : q.root = p.root) : q.store.load d = p.store.load d :=
  congrArg (fun r => (Store.ofRoot r).load d) root

variable (acyclic : ∀ v, ¬ TransGen (Feeds m.entries) v v) (deep : Deep m.entries depth)

include acyclic deep

theorem refreshDepths_of_quiet (loaded : p.store.load d = .ok m.entries)
    (quiet : outdated m.entries depth = 0) : p.refreshDepths d = (.ok (0, p), d) := by
  rw [refreshDepths_of_deep acyclic deep loaded, if_pos quiet, pure_run]

/-- Depths that have been brought up to date stay as they are. -/
theorem refreshDepths_again (loaded : p.store.load d = .ok (m.entries.map (Task.deepened depth))) :
    p.refreshDepths d = (.ok (0, p), d) := by
  have acyclic' : ∀ v, ¬ TransGen (Feeds (m.deepened depth).entries) v v := by
    rw [TaskMap.deepened, feeds_of_frame frame_deepened]
    exact acyclic
  exact refreshDepths_of_quiet acyclic' deep.deepened loaded outdated_deepened

theorem refreshDepths_written (loaded : p.store.load d = .ok m.entries)
    (news : outdated m.entries depth ≠ 0) : Ends p.refreshDepths d
      (fun r d' => r.1 = outdated m.entries depth ∧ r.2.root = p.root ∧
        p.store.load d' = .ok (m.entries.map (Task.deepened depth)))
      fun d' => ¬ p.store.Ready d ∧ Disk.Spares p.store.place d d' := by
  refine Ends.congr ?_ (refreshDepths_of_deep acyclic deep loaded)
  rw [if_neg news]
  have nonempty : m.entries ≠ [] := by
    intro none
    rw [none] at news
    exact news rfl
  refine .bind ((p.store.writeAll_ends _ (Store.off_of_load loaded nonempty)).mono
    (fun _ d' written => ends_pure ⟨rfl, rfl, ?_⟩) fun _ failed => failed.symm)
  rw [written.1.load]
  exact congrArg (fun m => Except.ok m.entries) (Store.view_entries (m.deepened depth))

theorem setsDepths (loaded : p.store.load d = .ok m.entries) : p.SetsDepths m.entries depth d := by
  refine ⟨refreshDepths_of_quiet acyclic deep loaded, ?_⟩
  have again {d' : Disk} (loaded' : p.store.load d' = .ok (m.entries.map (Task.deepened depth)))
      (q : Project) (root : q.root = p.root) : q.refreshDepths d' = (.ok (0, q), d') :=
    refreshDepths_again acyclic deep ((load_of_root root).trans loaded')
  by_cases news : outdated m.entries depth = 0
  · have loaded' : p.store.load d = .ok (m.entries.map (Task.deepened depth)) := by
      rw [map_deepened_of_quiet news, loaded]
    refine Ends.congr (b := pure (0, p)) ?_ (refreshDepths_of_quiet acyclic deep loaded news)
    exact ends_pure ⟨news.symm, rfl, loaded', again loaded'⟩
  · refine (refreshDepths_written acyclic deep loaded news).mono (fun r d' done => ?_) fun _ => id
    exact ⟨done.1, done.2.1, done.2.2, again done.2.2⟩

end

/-- In every store that can be loaded, whatever its tasks name and record, bringing depths up to
date sets each to the number of steps of a longest chain that ends in the task, where there is no
cycle, and touches nothing where there is one. Neither what is stored nor what is counted depends on
how ties are broken. -/
theorem depths_brought_up_to_date {p : Project} {d : Disk} {tasks : List Task}
    (loaded : p.store.load d = .ok tasks) :
    ((∀ v, ¬ TransGen (Feeds tasks) v v) → ∃ depth : TaskId → Nat,
      (∀ t ∈ tasks, IsDepth (Feeds tasks) t.id (depth t.id) ∧ depth t.id < tasks.length) ∧
      (tasks.length ≤ UInt32.size → ∀ t ∈ tasks, (t.deepened depth).depth.toNat = depth t.id) ∧
      p.SetsDepths tasks depth d) ∧
    ((∃ v, TransGen (Feeds tasks) v v) → p.refreshDepths d = (.ok (0, p), d)) ∧
    ∀ q : Project, q.root = p.root → (q.refreshDepths d).2 = (p.refreshDepths d).2 ∧
      (q.refreshDepths d).1.map Prod.fst = (p.refreshDepths d).1.map Prod.fst := by
  obtain ⟨m, rfl⟩ := Store.exists_map_of_load loaded
  refine ⟨fun acyclic => ?_, refreshDepths_of_cyclic loaded, fun q root => ?_⟩
  · obtain ⟨depth, deep, few⟩ := exists_deep acyclic
    refine ⟨depth, fun t ht => ⟨deep t ht, few t ht⟩, fun short t ht => ?_,
      setsDepths acyclic deep loaded⟩
    have := few t ht
    rw [toNat_deepened]
    exact Nat.min_eq_right (by unfold greatestDepth; omega)
  · have loaded' := (load_of_root root).trans loaded
    by_cases acyclic : ∀ v, ¬ TransGen (Feeds m.entries) v v
    · obtain ⟨depth, deep, -⟩ := exists_deep acyclic
      have store : q.store = p.store := congrArg Store.ofRoot root
      rw [refreshDepths_of_deep acyclic deep loaded, refreshDepths_of_deep acyclic deep loaded',
        store]
      split
      · exact ⟨rfl, rfl⟩
      · rw [answered_run, answered_run]
        refine ⟨rfl, ?_⟩
        cases (p.store.writeAll (m.entries.map (Task.deepened depth)) d).1 <;> rfl
    · push Not at acyclic
      rw [refreshDepths_of_cyclic loaded acyclic, refreshDepths_of_cyclic loaded' acyclic]
      exact ⟨rfl, rfl⟩

end Project

section

open TaskMap Command Precedence.Action

/-- What is named twice counts once, and what is not stored, or is the task itself, does not
count. -/
theorem feeds_tangled {v w : TaskId} : Feeds tangled.entries v w ↔ v = a ∧ w = b := by
  constructor
  · rintro ⟨⟨t, ht, rfl, named⟩, other, stored⟩
    have among : v = a ∨ v = b := by
      change v ∈ [a, b] at stored
      simpa using stored
    obtain rfl | rfl := List.mem_pair.1 ht
    · cases named
    · exact ⟨among.resolve_right other, rfl⟩
  · rintro ⟨rfl, rfl⟩
    exact ⟨⟨_, List.mem_cons_of_mem _ List.mem_cons_self, rfl, by decide⟩, by decide, by decide⟩

theorem isDepth_tangled :
    IsDepth (Feeds tangled.entries) a 0 ∧ IsDepth (Feeds tangled.entries) b 1 := by
  have climbs (v w : TaskId) (feeds : Feeds tangled.entries v w) :
      (if v = b then 1 else 0) < if w = b then 1 else 0 := by
    obtain ⟨rfl, rfl⟩ := feeds_tangled.1 feeds
    decide
  have few {v w : TaskId} {n : Nat} (steps : Steps (Feeds tangled.entries) v n w) :
      n ≤ if w = b then 1 else 0 :=
    Nat.le_trans (Nat.le_add_left _ _) (steps.add_le (f := fun v => if v = b then 1 else 0) climbs)
  exact ⟨⟨⟨a, .zero⟩, fun _ ⟨_, steps⟩ => few steps⟩,
    ⟨a, Steps.zero.succ (feeds_tangled.2 ⟨rfl, rfl⟩)⟩, fun _ ⟨_, steps⟩ => few steps⟩

/-- One depth is wrong, and is set right once. -/
theorem depths_brought_up_to_date_of_tangled : ∃ p : Project,
    p.store.load tangledDisk = .ok tangled.entries ∧
    ∃ p' d', p.refreshDepths tangledDisk = (.ok (1, p'), d') ∧
      p.store.load d' =
        .ok [sample a "x", { sample b "y" with dependsOn := [a, a, c, b], depth := 1 }] ∧
      p'.refreshDepths d' = (.ok (0, p'), d') := by
  obtain ⟨p, store, -⟩ := exists_openHere_tangledDisk
  have loaded : p.store.load tangledDisk = .ok tangled.entries := store ▸ load_tangledDisk
  have ready : p.store.Ready tangledDisk := store ▸ Store.ready_fileDisk _
  have acyclic := acyclic_of_single (fun _ _ => feeds_tangled.1) (by decide : a ≠ b)
  obtain ⟨depth, deep, -, -, ends⟩ := (Project.depths_brought_up_to_date loaded).1 acyclic
  have deepenedA : (sample a "x").deepened depth = sample a "x" :=
    deepened_of_eq (n := 0) ((deep _ List.mem_cons_self).1.unique isDepth_tangled.1)
  have deepenedB : { sample b "y" with dependsOn := [a, a, c, b], depth := 7 }.deepened depth =
      { sample b "y" with dependsOn := [a, a, c, b], depth := 1 } :=
    deepened_of_eq (n := 1)
      ((deep _ (List.mem_cons_of_mem _ List.mem_cons_self)).1.unique isDepth_tangled.2)
  have counted : outdated tangled.entries depth = 1 := by
    simp only [outdated, tangled, List.countP_cons, deepenedA, deepenedB]
    rfl
  unfold Ends at ends
  split at ends
  · next r d' e =>
    obtain ⟨count, root, loaded', again⟩ := ends
    refine ⟨p, loaded, r.2, d', ?_, ?_, again r.2 root⟩
    · rw [e, ← counted, ← count]
    · rw [loaded', ← deepenedA, ← deepenedB]
      rfl
  · exact absurd ready ends.1

end

end Precedence

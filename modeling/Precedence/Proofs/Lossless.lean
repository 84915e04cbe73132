import Precedence.Proofs.Freshness
/-!
Nothing is lost in a replica. Whatever it held before, from the moment that it is filled it gives
back the tasks that it was filled with, and holds no other rows.
-/
namespace Precedence

def Task.moments (t : Task) : List Instant := t.createdAt :: t.updatedAt :: t.completedAt.toList

theorem Instant.fitsRow_of_read {i : Instant} (h : ofRowText i.rowText = .ok i) : i.FitsRow := by
  obtain ⟨least, most⟩ := year_of_ofRowText h
  exact ⟨least, most⟩

theorem Task.fitsRow_of_moments {t : Task}
    (h : ∀ i ∈ t.moments, Instant.ofRowText i.rowText = .ok i) : t.FitsRow where
  createdAt := Instant.fitsRow_of_read (h _ List.mem_cons_self)
  updatedAt := Instant.fitsRow_of_read (h _ (by simp [moments]))
  completedAt i hi := Instant.fitsRow_of_read (h i (by simpa [moments] using .inr (.inr hi)))

/-- The rows are those of some tasks: one for each, numbered in their order, and one for each
edge. -/
structure Replica.HasRowsOf (tasks : List Task) (r : Replica) : Prop where
  taskRows : r.tasks = tasks.zipIdx.map fun (t, place) => TaskRow.ofTask place t
  edgeRows : r.edges.map EdgeRow.ends = (tasks.flatMap Task.edges).eraseDups.map Edge.texts

namespace ReplicaFile

/-- Some tasks are all that a replica holds, and it gives them back with each prerequisite named
once. -/
structure GivesBack (f : ReplicaFile) (tasks : List Task) (revision : String) (d : Disk) :
    Prop where
  loadTasks : (f.source d).loadTasks none = .ok (tasks.map Task.unrepeated)
  loadEdges : (f.source d).loadEdges none = .ok (tasks.flatMap fun t => t.unrepeated.edges)
  loadTasksOf : ∀ ids, (f.source d).loadTasks (some ids) =
    .ok ((tasks.map Task.unrepeated).filter fun t => t.id ∈ ids)
  loadEdgesOf : ∀ ids, (f.source d).loadEdges (some ids) =
    .ok ((tasks.flatMap fun t => t.unrepeated.edges).filter fun e => e.dependent ∈ ids)
  stamp : (f.source d).revision = .ok (some revision)
  rows : ∀ table, ∃ r, f.load table d = .ok r ∧ r.HasRowsOf tasks

variable {f : ReplicaFile} {d : Disk} {tasks : List Task} {revision : String}

theorem givesBack_of_load (distinct : (tasks.map Task.id).Nodup) (fits : ∀ t ∈ tasks, t.FitsRow)
    (held : ∀ table, f.load table d = .ok (.ofTasks tasks revision)) :
    f.GivesBack tasks revision d := by
  have stored : (f.source d).tasks = .ok (tasks.map Task.unrepeated) := by
    simp only [source, held, ok_bind, Replica.loadTasks_ofTasks distinct fits]
    rfl
  have named : (f.source d).edges = .ok (tasks.flatMap fun t => t.unrepeated.edges) := by
    simp only [source, held, ok_bind, Replica.loadEdges_ofTasks distinct]
    rfl
  refine ⟨?_, ?_, fun ids => ?_, fun ids => ?_, ?_, fun table => ⟨_, held table, ?_, ?_⟩⟩
  · rw [Source.loadTasks, stored]
    exact congrArg Except.ok (List.filter_eq_self.2 fun _ _ => rfl)
  · rw [Source.loadEdges, named]
    exact congrArg Except.ok (List.filter_eq_self.2 fun _ _ => rfl)
  · rw [Source.loadTasks, stored]
    exact congrArg Except.ok (List.filter_congr fun _ _ => List.contains_eq_mem ..)
  · rw [Source.loadEdges, named]
    exact congrArg Except.ok (List.filter_congr fun _ _ => List.contains_eq_mem ..)
  · simp only [source, held]
    rfl
  · exact Replica.taskRows_eq distinct
  · exact Replica.ends_edgeRows tasks

/-- A replica that is filled gives back what it was filled with, each prerequisite of a task once
and all else to the last field, if the moments of the tasks can be told from their texts in rows.
Nothing is left of what it held before. Where nothing is in the way of a replica that has been
opened, it can be filled. -/
theorem fill_gives_back (distinct : (tasks.map Task.id).Nodup)
    (legible : ∀ t ∈ tasks, ∀ i ∈ t.moments, Instant.ofRowText i.rowText = .ok i)
    (f : ReplicaFile) (revision : String) :
    (∀ d d', f.fill tasks revision d = (.ok (), d') → f.GivesBack tasks revision d') ∧
    ∀ d previous, f.Ready d → f.Holds d (some previous) →
      ∃ d', f.fill tasks revision d = (.ok (), d') ∧ f.GivesBack tasks revision d' := by
  have back (d d' : Disk) (filled : f.fill tasks revision d = (.ok (), d')) :
      f.GivesBack tasks revision d' :=
    givesBack_of_load distinct (fun t ht => Task.fitsRow_of_moments (legible t ht))
      (replace_ok filled).1
  refine ⟨back, fun d previous ready held => ?_⟩
  obtain ⟨d', filled, -⟩ := replace_run ready held (.ofTasks tasks revision)
  exact ⟨d', filled, back d d' filled⟩

open TaskMap in
/-- A prerequisite that is named twice and the greatest words, in place of the row of another
task. -/
theorem fill_gives_back_of_filled :
    let f := Project.replica .sample
    let tasks := [{ sample a "x" with
        dependsOn := [b, c, b], estimatedDuration := some 18446744073709551615,
        depth := 4294967295 },
      { sample b "y" with completedAt := some leapDay }]
    (tasks.map Task.id).Nodup ∧
      (∀ t ∈ tasks, ∀ i ∈ t.moments, Instant.ofRowText i.rowText = .ok i) ∧
      ∃ d previous d', f.Ready d ∧ f.Holds d (some previous) ∧ previous.tasks ≠ [] ∧
        f.fill tasks "2" d = (.ok (), d') ∧ f.GivesBack tasks "2" d' := by
  intro f tasks
  have distinct : (tasks.map Task.id).Nodup := by decide
  have legible : ∀ t ∈ tasks, ∀ i ∈ t.moments, Instant.ofRowText i.rowText = .ok i := by
    have same : ∀ t ∈ tasks, ∀ i ∈ t.moments, i = leapDay := by decide
    intro t ht i hi
    rw [same t ht i hi]
    exact Instant.ofRowText_rowText leapDay (by decide) (by decide)
  have unopened : f.Holds Replication.bareDisk none := by
    change Replication.bareDisk.noted? f.path.location = none
    decide +kernel
  obtain ⟨d₁, -, ready₁, held₁, -⟩ := open_run Replication.ready_bareDisk unopened
  obtain ⟨d₂, -, ready₂, held₂, -⟩ := replace_run ready₁ held₁ (.ofTasks [sample c "z"] "1")
  obtain ⟨d₃, filled, back⟩ := (fill_gives_back distinct legible f "2").2 d₂ _ ready₂ held₂
  exact ⟨distinct, legible, d₂, _, d₃, ready₂, held₂, by decide +kernel, filled, back⟩

end ReplicaFile
end Precedence

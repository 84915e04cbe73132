import Precedence.Proofs.Keeping
import Precedence.Proofs.Rewiring
/-!
Readiness. A single task is judged by all that it names, and the list of ready tasks by a graph, in
which no task depends on itself. So the two agree on every task but one that names itself.
-/
namespace Precedence

/-- A task is stored and completed. -/
def Completed (tasks : List Task) (id : TaskId) : Prop :=
  ∃ u ∈ tasks, u.id = id ∧ u.status.isComplete = true

section

variable {m : TaskMap} {t : Task} {id : TaskId}

theorem isTerminal_of_isComplete {x : Status} (h : x.isComplete = true) : x.isTerminal = true := by
  simp_all [Status.isComplete, Status.isTerminal]

theorem any_isComplete_find? :
    (m.find? id).any (·.status.isComplete) = true ↔ Completed m.entries id := by
  simp [Option.any_eq_true, Completed, and_assoc]

theorem isReadyAmong_iff : Command.isReadyAmong m.entries t = true ↔
    t.status.isTerminal = false ∧ ∀ p ∈ t.dependsOn, Completed m.entries p := by
  have told (p : TaskId) : (Command.statusOf m.entries p).any Status.isComplete = true ↔
      Completed m.entries p := by
    rw [← any_isComplete_find?, Command.statusOf, Option.any_map]
    rfl
  simp [Command.isReadyAmong, told]

theorem tasks_graphOf_entries (m : TaskMap) : (graphOf m.entries).tasks = m.entries := by
  rw [graphOf, Graph.buildLenient, Graph.foldl_addTask_distinct m.distinct, Graph.addEdges_eq]

@[simp] theorem isComplete_graphOf :
    (graphOf m.entries).isComplete id = true ↔ Completed m.entries id := by
  rw [← any_isComplete_find?, Graph.isComplete, Graph.task?, tasks_graphOf_entries]
  rfl

theorem isReady_graphOf (ht : t ∈ m.entries) : (graphOf m.entries).isReady t = true ↔
    t.status.isTerminal = false ∧ ∀ p ∈ t.dependsOn, p ≠ t.id → Completed m.entries p := by
  have named (p : TaskId) : Needs m.entries t.id p ↔ p ∈ t.dependsOn := needs_iff m.distinct ht
  simp only [Graph.isReady, Bool.and_eq_true, Bool.not_eq_true', List.isEmpty_iff,
    List.eq_nil_iff_forall_not_mem, mem_missing_graphOf, List.all_eq_true,
    mem_prerequisites_graphOf, isComplete_graphOf, Feeds, named, and_assoc, and_congr_right_iff]
  intro _
  constructor
  · rintro ⟨none, complete⟩ p hp other
    by_cases stored : p ∈ m.entries.map Task.id
    · exact complete p ⟨hp, other, stored⟩
    · exact absurd ⟨hp, other, stored⟩ (none p)
  · intro complete
    constructor
    · rintro p ⟨hp, other, absent⟩
      obtain ⟨u, hu, rfl, -⟩ := complete p hp other
      exact absent (List.mem_map_of_mem hu)
    · rintro p ⟨hp, other, -⟩
      exact complete p hp other

theorem mem_ready_graphOf (ht : t ∈ m.entries) :
    t.id ∈ (graphOf m.entries).ready ↔ (graphOf m.entries).isReady t = true := by
  apply Graph.mem_ids_kept_iff (sound_graphOf _).distinct
  rwa [tasks_graphOf_entries]

/-- A task that has to be completed before itself is not ready by its own account. -/
theorem isReadyAmong_iff_mem_ready (ht : t ∈ m.entries) : Command.isReadyAmong m.entries t = true ↔
    t.id ∈ (graphOf m.entries).ready ∧ t.id ∉ t.dependsOn := by
  rw [mem_ready_graphOf ht, isReady_graphOf ht, isReadyAmong_iff]
  constructor
  · rintro ⟨unfinished, complete⟩
    refine ⟨⟨unfinished, fun p hp _ => complete p hp⟩, fun self => ?_⟩
    obtain ⟨u, hu, same, done⟩ := complete t.id self
    obtain rfl := List.inj_on_of_nodup_map m.distinct hu ht same
    rw [isTerminal_of_isComplete done] at unfinished
    cases unfinished
  · rintro ⟨⟨unfinished, complete⟩, apart⟩
    refine ⟨unfinished, fun p hp => complete p hp ?_⟩
    rintro rfl
    exact apart hp

end

/-! What is told of stored tasks -/

section

open Precedence.Action Command

variable {env : Environment} {p : Project} {d : Disk} {tasks : List Task} {t : Task} {raw : String}

theorem describe_run (here : Project.openHere env d = (.ok p, d))
    (loaded : p.store.load d = .ok tasks)
    (ht : t ∈ tasks) (typed : TaskId.ofParameter raw = .ok t.id) (clock : Clock)
    (backend : Option Backend) :
    run env clock backend (.task (.describe raw)) d = (.ok (details tasks t), d) := by
  obtain ⟨m, rfl⟩ := Store.exists_map_of_load loaded
  have read := Store.readAll_run loaded
  have found : stored m.entries t.id d = (.ok t, d) := by rw [stored_of_mem ht, pure_run]
  show runDescribe env raw d = _
  rw [runDescribe, bind_ok here, bind_ok (typedId_run typed d), bind_ok read, bind_ok found,
    pure_run]

theorem load_source (loaded : p.store.load d = .ok tasks) (options : AnalysisOptions) :
    Analyzer.load (p.store.source d) options = .ok (.ofSnapshot (.ofTasks tasks) options) := by
  rw [Analyzer.load, Store.snapshot_source loaded]
  rfl

theorem mem_ready_ofSnapshot {m : TaskMap} {options : AnalysisOptions} {id : TaskId} :
    id ∈ (Analyzer.ofSnapshot (.ofTasks m.entries) options).ready ↔
      id ∈ (graphOf m.entries).ready :=
  Ranking.mem_sort

/-- A stored task is told to be ready if it is not finished and all that it names is stored and
completed. It is among the ready tasks even if it names itself. -/
theorem readiness_told (here : Project.openHere env d = (.ok p, d))
    (loaded : p.store.load d = .ok tasks) (ht : t ∈ tasks)
    (typed : TaskId.ofParameter raw = .ok t.id) (clock : Clock) (backend : Option Backend)
    (options : AnalysisOptions) : ∃ answer dependents isReady document a,
      run env clock backend (.task (.describe raw)) d = (.ok answer, d) ∧
      answer.value = .table [("dependents", dependents), ("is_ready", .boolean isReady),
        ("task", document)] ∧
      Analyzer.load (p.store.source d) options = .ok a ∧
      (isReady = true ↔ t.status.isTerminal = false ∧ ∀ q ∈ t.dependsOn, Completed tasks q) ∧
      (t.id ∈ a.ready ↔
        t.status.isTerminal = false ∧ ∀ q ∈ t.dependsOn, q ≠ t.id → Completed tasks q) ∧
      (isReady = true ↔ t.id ∈ a.ready ∧ t.id ∉ t.dependsOn) := by
  have told := describe_run here loaded ht typed clock backend
  have held := load_source loaded options
  obtain ⟨m, rfl⟩ := Store.exists_map_of_load loaded
  refine ⟨_, _, _, _, _, told, rfl, held, isReadyAmong_iff, ?_, ?_⟩
  · rw [mem_ready_ofSnapshot, mem_ready_graphOf ht, isReady_graphOf ht]
  · rw [mem_ready_ofSnapshot]
    exact isReadyAmong_iff_mem_ready ht

open TaskMap in
theorem readiness_told_of_tangled : ∃ p answer dependents document a',
    Project.openHere (CommandLine.sample []).env tangledDisk = (.ok p, tangledDisk) ∧
      run (CommandLine.sample []).env (CommandLine.sample []).clock none (.task (.describe "a"))
        tangledDisk = (.ok answer, tangledDisk) ∧
      answer.value = .table [("dependents", dependents), ("is_ready", .boolean true),
        ("task", document)] ∧
      Analyzer.load (p.store.source tangledDisk) {} = .ok a' ∧ a ∈ a'.ready := by
  obtain ⟨p, store, here⟩ := exists_openHere_tangledDisk
  have loaded : p.store.load tangledDisk = .ok tangled.entries := store ▸ load_tangledDisk
  have typed : TaskId.ofParameter "a" = .ok a := by decide +kernel
  obtain ⟨answer, dependents, isReady, document, a', told, value, held, ready, -, both⟩ :=
    readiness_told here loaded List.mem_cons_self typed (CommandLine.sample []).clock none {}
  obtain rfl : isReady = true := ready.2 ⟨rfl, List.forall_mem_nil _⟩
  exact ⟨p, answer, dependents, document, a', here, told, value, held, (both.1 rfl).1⟩

open TaskMap in
/-- A task that names itself. -/
def inward : TaskMap := ⟨[{ sample a "x" with dependsOn := [a] }], by decide⟩

open TaskMap in
/-- It is told not to be ready, and is among the ready tasks. -/
theorem readiness_told_twice : ∃ (d : Disk) (p : Project) (answer : Answer) (a' : Analyzer),
    Project.openHere (CommandLine.sample []).env d = (.ok p, d) ∧
      p.store.load d = .ok inward.entries ∧
      run (CommandLine.sample []).env (CommandLine.sample []).clock none (.task (.describe "a")) d =
        (.ok answer, d) ∧
      answer.value = .table [("dependents", .list [.text "a"]), ("is_ready", .boolean false),
        ("task", { sample a "x" with dependsOn := [a] }.document.sortKeys)] ∧
      Analyzer.load (p.store.source d) {} = .ok a' ∧ a ∈ a'.ready := by
  obtain ⟨p, store, here⟩ := exists_openHere_fileDisk (Store.encode inward.entries)
  have loaded : p.store.load (Store.fileDisk (Store.encode inward.entries)) = .ok inward.entries :=
    store ▸ (Store.shows_fileDisk inward).load
  have typed : TaskId.ofParameter "a" = .ok a := by decide +kernel
  have ready : a ∈ (graphOf inward.entries).ready := by decide +kernel
  exact ⟨_, p, _, _, here, loaded, describe_run here loaded List.mem_cons_self typed _ none, rfl,
    load_source loaded {}, mem_ready_ofSnapshot.2 ready⟩

end

end Precedence

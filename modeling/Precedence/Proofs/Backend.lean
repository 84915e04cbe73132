import Precedence.Proofs.Bare
import Precedence.Proofs.Building
import Precedence.Proofs.Refill
/-!
The two backends. An analyzer of the store and one of a replica that was filled from it answer every
question alike; only, in a replica no edge is repeated, and so no unsound edge is reported twice.
-/
namespace Precedence

namespace Graph

/-- Repeated edges make no difference to a graph, and each is found fault with again. -/
theorem buildLenient_unrepeated {tasks : List Task} (distinct : (tasks.map Task.id).Nodup)
    (es : List Edge) :
    (buildLenient (tasks.map Task.unrepeated) es.eraseDups).1.bare =
      (buildLenient tasks es).1.bare ∧
      (buildLenient (tasks.map Task.unrepeated) es.eraseDups).2 =
        (buildLenient tasks es).2.eraseDups := by
  have distinct' : ((tasks.map Task.unrepeated).map Task.id).Nodup := by
    rwa [List.map_map]
  have contains : contains { tasks := tasks.map Task.unrepeated } = contains { tasks } :=
    funext fun _ => List.any_map
  have linkable : isLinkable { tasks := tasks.map Task.unrepeated } = isLinkable { tasks } := by
    unfold isLinkable
    rw [contains]
  have unresolved :
      isUnresolved { tasks := tasks.map Task.unrepeated } = isUnresolved { tasks } := by
    unfold isUnresolved
    rw [contains]
  have fault : fault? { tasks := tasks.map Task.unrepeated } = fault? { tasks } := by
    unfold fault?
    rw [contains]
  have noted (p : Edge → Bool) :
      (es.eraseDups.filter p).foldl noteNew [] = (es.filter p).foldl noteNew [] := by
    rw [foldl_noteNew, foldl_noteNew, ← eraseDups_filter, ← eraseDups_filter,
      eraseDups_eraseDups]
  rw [buildLenient, buildLenient, foldl_addTask_distinct distinct, foldl_addTask_distinct distinct',
    addEdges_eq, addEdges_eq, linkable, unresolved, fault]
  refine ⟨?_, (eraseDups_filterMap (fault?_inj _) es).symm⟩
  unfold bare
  rw [noted, noted, List.map_map]
  rfl

end Graph

/-- One analyzer answers every question as another one does, with the same errors; only, it reports
no unsound edge twice. -/
structure Analyzer.AnswersAs (b a : Analyzer) : Prop where
  executionOrder : ∀ ids, b.executionOrder ids = a.executionOrder ids
  levels : b.levels = a.levels
  ancestors : ∀ seed maxDepth, b.ancestors seed maxDepth = a.ancestors seed maxDepth
  descendants : ∀ seed maxDepth, b.descendants seed maxDepth = a.descendants seed maxDepth
  orphans : ∀ policy, b.orphans policy = a.orphans policy
  leaves : ∀ status, b.leaves status = a.leaves status
  criticalPath : ∀ start finish, b.criticalPath start finish = a.criticalPath start finish
  depths : b.depths = a.depths
  ready : b.ready = a.ready
  blocked : b.blocked = a.blocked
  missing : ∀ id, b.graph.missing id = a.graph.missing id
  validate : ∀ ids,
    b.validate ids = { a with problems := a.problems.eraseDups : Analyzer }.validate ids

namespace Analyzer

theorem answersAs_of_bare {a b : Analyzer} (graph : b.graph.bare = a.graph.bare)
    (problems : b.problems = a.problems.eraseDups) (compare : b.compare = a.compare)
    (options : b.options = a.options) (blind : a.compare.Blind) : b.AnswersAs a := by
  have first : b.problems.head? = a.problems.head? := by rw [problems, head?_eraseDups]
  have alike : b.Alike a := ⟨graph, first, compare, options, blind⟩
  have once : b.Alike { a with problems := a.problems.eraseDups } :=
    ⟨graph, congrArg _ problems, compare, options, blind⟩
  exact ⟨alike.executionOrder, alike.levels, alike.walk .up, alike.walk .down, alike.orphans,
    alike.leaves, alike.criticalPath, alike.depths, alike.ready, alike.blocked, alike.missing,
    once.validate problems⟩

/-- Rows make the same graph as records do, and each unsound edge is found fault with once. -/
theorem ofSnapshot_unrepeated {tasks : List Task} (distinct : (tasks.map Task.id).Nodup)
    (options : AnalysisOptions) :
    let rows : Snapshot := ⟨tasks.map Task.unrepeated, tasks.flatMap fun t => t.unrepeated.edges⟩
    (ofSnapshot rows options).graph.bare = (ofSnapshot (.ofTasks tasks) options).graph.bare ∧
      (ofSnapshot rows options).problems =
        (ofSnapshot (.ofTasks tasks) options).problems.eraseDups := by
  have edges : (tasks.flatMap fun t => t.unrepeated.edges) =
      (tasks.flatMap Task.edges).eraseDups := by
    have apart : tasks.Pairwise fun t u => ∀ e ∈ t.edges, e ∉ u.edges := by
      refine (List.pairwise_map.1 distinct).imp fun {t u} other e he he' => ?_
      obtain ⟨_, -, rfl⟩ := List.mem_map.1 he
      obtain ⟨_, -, h⟩ := List.mem_map.1 he'
      exact other (congrArg Edge.dependent h).symm
    rw [eraseDups_flatMap apart]
    exact List.flatMap_congr fun t _ => t.edges_unrepeated
  rw [edges]
  exact Graph.buildLenient_unrepeated distinct (tasks.flatMap Task.edges)

theorem answersAs_unrepeated {tasks : List Task} (distinct : (tasks.map Task.id).Nodup)
    (options : AnalysisOptions) :
    (ofSnapshot
        ⟨tasks.map Task.unrepeated, tasks.flatMap fun t => t.unrepeated.edges⟩ options).AnswersAs
      (ofSnapshot (.ofTasks tasks) options) := by
  obtain ⟨graph, problems⟩ := ofSnapshot_unrepeated distinct options
  exact answersAs_of_bare graph problems rfl rfl (TieBreak.blind _)

/-- Where no task repeats a prerequisite, rows are the same as records. -/
theorem snapshot_unrepeated {tasks : List Task} (once : ∀ t ∈ tasks, t.dependsOn.Nodup) :
    (⟨tasks.map Task.unrepeated, tasks.flatMap fun t => t.unrepeated.edges⟩ : Snapshot) =
      .ofTasks tasks := by
  have same : ∀ t ∈ tasks, t.unrepeated = t := by
    intro t ht
    rw [Task.unrepeated, eraseDups_eq_self (once t ht)]
  have edges : ∀ t ∈ tasks, t.unrepeated.edges = t.edges := fun t ht => by rw [same t ht]
  rw [List.map_congr_left same, List.map_id', List.flatMap_congr edges]
  rfl

end Analyzer

namespace Project

/-- An analyzer of the store and one of the replica that was filled from it can both be loaded, and
they answer alike. They are the same where no task repeats a prerequisite. -/
theorem replica_answers_as_store {p : Project} {d : Disk} {f : ReplicaFile} {tasks : List Task}
    (filled : (p.refilledReplica d).1 = .ok f)
    (stored : p.store.load (p.refilledReplica d).2 = .ok tasks) (fits : ∀ t ∈ tasks, t.FitsRow)
    (options : AnalysisOptions) : ∃ a b,
      Analyzer.load (p.store.source (p.refilledReplica d).2) options = .ok a ∧
      Analyzer.load (f.source (p.refilledReplica d).2) options = .ok b ∧ b.AnswersAs a ∧
      ((∀ t ∈ tasks, t.dependsOn.Nodup) → b = a) := by
  obtain ⟨tasks', revision, stored', held⟩ := refilledReplica_ok (Prod.ext filled rfl)
  obtain rfl : tasks = tasks' := Except.ok.inj (stored.symm.trans stored')
  have distinct := Store.distinct_of_load stored
  refine ⟨.ofSnapshot (.ofTasks tasks) options, .ofSnapshot
    ⟨tasks.map Task.unrepeated, tasks.flatMap fun t => t.unrepeated.edges⟩ options, ?_, ?_,
    Analyzer.answersAs_unrepeated distinct options, fun once => ?_⟩
  · rw [Analyzer.load, Source.snapshot, Store.source, stored]
    rfl
  · rw [Analyzer.load, Source.snapshot, ReplicaFile.source]
    simp only [held, ok_bind]
    rw [Replica.loadTasks_ofTasks distinct fits, Replica.loadEdges_ofTasks distinct]
    rfl
  · rw [Analyzer.snapshot_unrepeated once]

def sampleDisk (dependsOn createdAt : String) : Disk :=
  let record := "\x7b\"id\":\"a\",\"description\":\"\",\"depends_on\":" ++ dependsOn ++
    ",\"created_at\":\"" ++ createdAt ++ "\",\"updated_at\":\"2024-02-29T00:00:00Z\"\x7d"
  ⟨[(["p", ".dagplan", "tasks.jsonl"], .file (Bytes.ofText record)),
    (["p", ".dagplan"], .directory), (["p"], .directory)]⟩

/-- The record names a prerequisite twice that there is no task for. -/
def repeatDisk : Disk := sampleDisk "[\"b\",\"b\"]" "2024-02-29T00:00:00Z"

/-- The record has a year of five digits. -/
def lateDisk : Disk := sampleDisk "[]" "+10000-02-29T00:00:00Z"

def faultCount (a : Except Failure Analyzer) : Option Nat :=
  a.toOption.map fun a => (a.validate none).faults.length

open TaskMap in
theorem replica_answers_as_store_on_repeat :
    (sample.refilledReplica repeatDisk).1 = .ok ⟨⟨"/p", []⟩⟩ ∧
      sample.store.load (sample.refilledReplica repeatDisk).2 =
        .ok [{ TaskMap.sample a "" with dependsOn := [b, b] }] ∧
      ∃ x y, Analyzer.load (sample.store.source (sample.refilledReplica repeatDisk).2) {} = .ok x ∧
        Analyzer.load
            (ReplicaFile.source ⟨⟨"/p", []⟩⟩ (sample.refilledReplica repeatDisk).2) {} = .ok y ∧
        y.AnswersAs x := by
  have both : (sample.refilledReplica repeatDisk).1.toOption = some ⟨⟨"/p", []⟩⟩ ∧
      (sample.store.load (sample.refilledReplica repeatDisk).2).toOption =
        some [{ TaskMap.sample a "" with dependsOn := [b, b] }] := by
    decide +kernel
  have filled := eq_ok_of_toOption both.1
  have stored := eq_ok_of_toOption both.2
  have fits : ∀ t ∈ [{ TaskMap.sample a "" with dependsOn := [b, b] }], t.FitsRow := by
    intro t ht
    obtain rfl := List.mem_singleton.1 ht
    exact ⟨⟨by decide, by decide⟩, ⟨by decide, by decide⟩, fun _ h => nomatch h⟩
  obtain ⟨x, y, hx, hy, answers, -⟩ := replica_answers_as_store filled stored fits {}
  exact ⟨filled, stored, x, y, hx, hy, answers⟩

/-- A prerequisite that is named twice is found fault with twice in the store and once in its
replica, and a replica with a year of five digits cannot be read back. -/
theorem replica_differs_from_store :
    faultCount (Analyzer.load (sample.store.source (sample.refilledReplica repeatDisk).2) {}) =
      some 2 ∧
      faultCount (Analyzer.load
        (ReplicaFile.source ⟨⟨"/p", []⟩⟩ (sample.refilledReplica repeatDisk).2) {}) = some 1 ∧
      faultCount (Analyzer.load (sample.store.source (sample.refilledReplica lateDisk).2) {}) =
        some 0 ∧
      faultCount (Analyzer.load
        (ReplicaFile.source ⟨⟨"/p", []⟩⟩ (sample.refilledReplica lateDisk).2) {}) = none := by
  decide +kernel

end Project
end Precedence

import Precedence.Proofs.Line
import Precedence.Proofs.Reordered
import Precedence.Proofs.Tidy
/-!
Several records of one task. A graph holds the last of them in the place of the first, and so does
what is read from a file. Yet in a graph that is made of all records, each of them counts for its
edges.
-/
namespace Precedence

/-- The last record of each task, in the place of the first. -/
def latest (tasks : List Task) : List Task :=
  (tasks.map Task.id).eraseDups.filterMap fun id => tasks.reverse.find? (·.id = id)

section

variable {tasks : List Task} {t : Task} {id : TaskId}

theorem find?_reverse_concat : (tasks ++ [t]).reverse.find? (·.id = id) =
    if t.id = id then some t else tasks.reverse.find? (·.id = id) := by
  rw [List.reverse_concat, List.find?_cons]
  by_cases h : t.id = id <;> simp [h]

theorem exists_find?_reverse (h : id ∈ tasks.map Task.id) :
    ∃ u, tasks.reverse.find? (·.id = id) = some u ∧ u.id = id := by
  obtain ⟨t, ht, rfl⟩ := List.mem_map.1 h
  obtain ⟨u, found⟩ : ∃ u, tasks.reverse.find? (·.id = t.id) = some u :=
    Option.isSome_iff_exists.1 (List.find?_isSome.2 ⟨t, List.mem_reverse.2 ht, by simp⟩)
  exact ⟨u, found, by simpa using List.find?_some found⟩

theorem ids_latest (tasks : List Task) :
    (latest tasks).map Task.id = (tasks.map Task.id).eraseDups := by
  have named : ∀ id ∈ (tasks.map Task.id).eraseDups,
      (tasks.reverse.find? (·.id = id)).map Task.id = some id := by
    intro id hid
    obtain ⟨u, found, rfl⟩ := exists_find?_reverse (List.mem_eraseDups.1 hid)
    rw [found, Option.map_some]
  rw [latest, List.map_filterMap, List.filterMap_congr named, List.filterMap_some]

theorem mem_ids_latest : id ∈ (latest tasks).map Task.id ↔ id ∈ tasks.map Task.id := by
  rw [ids_latest, List.mem_eraseDups]

/-- A record that is added goes where it would go in a map. -/
theorem latest_concat (tasks : List Task) (t : Task) :
    latest (tasks ++ [t]) = TaskMap.written (latest tasks) t := by
  have known : (latest tasks).any (·.id = t.id) = true ↔ t.id ∈ tasks.map Task.id := by
    rw [← mem_ids_latest]
    simp
  unfold TaskMap.written
  by_cases old : t.id ∈ tasks.map Task.id
  · have ids : ((tasks ++ [t]).map Task.id).eraseDups = (tasks.map Task.id).eraseDups := by
      rw [List.map_append]
      exact (eraseDups_concat _ _).trans (if_pos (List.mem_eraseDups.2 old))
    rw [if_pos (known.2 old), latest, ids, latest, List.map_filterMap]
    apply List.filterMap_congr
    intro id hid
    obtain ⟨u, found, rfl⟩ := exists_find?_reverse (List.mem_eraseDups.1 hid)
    rw [find?_reverse_concat, found, Option.map_some]
    by_cases same : t.id = u.id
    · rw [if_pos same, if_pos same.symm]
    · rw [if_neg same, if_neg (Ne.symm same)]
  · have ids : ((tasks ++ [t]).map Task.id).eraseDups =
        (tasks.map Task.id).eraseDups ++ [t.id] := by
      rw [List.map_append]
      exact (eraseDups_concat _ _).trans (if_neg (mt List.mem_eraseDups.1 old))
    rw [if_neg (mt known.1 old), latest, ids, latest, List.filterMap_append]
    congr 1
    · apply List.filterMap_congr
      intro id hid
      rw [find?_reverse_concat, if_neg]
      rintro rfl
      exact old (List.mem_eraseDups.1 hid)
    · simp

theorem insertAll_eq_latest (tasks : List Task) :
    (TaskMap.empty.insertAll tasks).entries = latest tasks := by
  induction tasks using List.reverseRecOn with
  | nil => rfl
  | append_singleton tasks t ih =>
    rw [TaskMap.insertAll_append, latest_concat, ← ih]
    rfl

@[simp] theorem latest_latest (tasks : List Task) : latest (latest tasks) = latest tasks := by
  rw [← insertAll_eq_latest tasks, ← insertAll_eq_latest, TaskMap.insertAll_entries]

theorem Graph.tasks_buildLenient (tasks : List Task) (edges : List Edge) :
    (buildLenient tasks edges).1.tasks = latest tasks := by
  rw [buildLenient, addEdges_eq]
  exact (foldl_addTask (g := {}) (m := .empty) rfl tasks).1.trans (insertAll_eq_latest tasks)

theorem tasks_graphOf (tasks : List Task) : (graphOf tasks).tasks = latest tasks :=
  Graph.tasks_buildLenient tasks _

theorem ids_graphOf_latest (tasks : List Task) :
    (graphOf (latest tasks)).ids = (graphOf tasks).ids := by
  rw [Graph.ids, Graph.ids, tasks_graphOf, tasks_graphOf, latest_latest]

theorem nodup_missing_graphOf (tasks : List Task) (d : TaskId) :
    ((graphOf tasks).missing d).Nodup :=
  Graph.nodup_missing_buildLenient tasks _ d

theorem needs_of_latest {d p : TaskId} (h : Needs (latest tasks) d p) : Needs tasks d p := by
  obtain ⟨u, hu, same, hp⟩ := h
  obtain ⟨id, -, found⟩ := List.mem_filterMap.1 hu
  exact ⟨u, List.mem_reverse.1 (List.mem_of_find?_eq_some found), same, hp⟩

end

/-- What an analyzer of a list of records holds, and the graph that is built of them if nothing is
wrong: the last record of each task is held, but all of them count for edges, and for what is wrong
with these. -/
structure CountsAll (tasks : List Task) (a : Analyzer) : Prop where
  held : a.graph.tasks = latest tasks
  prerequisites : ∀ d p, p ∈ a.graph.prerequisites d ↔
    Needs tasks d p ∧ p ≠ d ∧ p ∈ tasks.map Task.id
  missing : ∀ d p, p ∈ a.graph.missing d ↔ Needs tasks d p ∧ p ≠ d ∧ p ∉ tasks.map Task.id
  problems : a.problems = (tasks.flatMap Task.edges).filterMap (Graph.fault? { tasks })
  built : a.problems = [] → Graph.ofTasks tasks = .ok a.graph
  refused : ∀ problem rest, a.problems = problem :: rest → Graph.ofTasks tasks = .error problem

/-- The same tasks, edges and missing prerequisites, and the same things wrong. -/
structure Analyzer.Matches (a b : Analyzer) : Prop where
  tasks : a.graph.tasks = b.graph.tasks
  prerequisites : ∀ d, a.graph.prerequisites d = b.graph.prerequisites d
  missing : ∀ d, (a.graph.missing d).Perm (b.graph.missing d)
  problems : ∀ problem, problem ∈ a.problems ↔ problem ∈ b.problems

section

variable (tasks : List Task) (options : AnalysisOptions)

theorem countsAll : CountsAll tasks (.ofSnapshot (.ofTasks tasks) options) where
  held := tasks_graphOf tasks
  prerequisites _ _ := mem_prerequisites_graphOf
  missing _ _ := mem_missing_graphOf
  problems := Graph.problems_buildLenient tasks _
  built none := Graph.build_eq_ok_iff.2 ⟨none, rfl⟩
  refused _ _ some := Graph.build_eq_error_iff.2 (congrArg List.head? some)

/-- What is wrong with the edges of records, told one by one. -/
theorem mem_problems_iff {problem : GraphFault} :
    problem ∈ (Analyzer.ofSnapshot (.ofTasks tasks) options).problems ↔
      ∃ d p, Needs tasks d p ∧ Graph.fault? { tasks } ⟨d, p⟩ = some problem := by
  rw [(countsAll tasks options).problems, List.mem_filterMap]
  constructor
  · rintro ⟨⟨d, p⟩, he, wrong⟩
    exact ⟨d, p, mem_edges.1 he, wrong⟩
  · rintro ⟨d, p, needs, wrong⟩
    exact ⟨⟨d, p⟩, mem_edges.2 needs, wrong⟩

theorem fault?_latest : Graph.fault? { tasks := latest tasks } = Graph.fault? { tasks } := by
  apply Graph.fault?_congr
  ext id
  rw [Bool.eq_iff_iff, Graph.contains_iff, Graph.contains_iff]
  exact mem_ids_latest

theorem prerequisites_congr {g h : Graph} {d : TaskId} (ids : g.ids = h.ids)
    (same : ∀ p, p ∈ g.prerequisites d ↔ p ∈ h.prerequisites d) :
    g.prerequisites d = h.prerequisites d := by
  simp only [Graph.prerequisites, ids, List.mem_filter] at same ⊢
  apply List.filter_congr
  intro p hp
  simpa [hp] using same p

/-- Whether records that are superseded count makes a difference just if they name what the last one
of their task does not. -/
theorem matches_latest_iff : (Analyzer.ofSnapshot (.ofTasks tasks) options).Matches
    (.ofSnapshot (.ofTasks (latest tasks)) options) ↔
      ∀ d p, Needs tasks d p → Needs (latest tasks) d p := by
  have all := countsAll tasks options
  have last := countsAll (latest tasks) options
  constructor
  · intro same d p needs
    by_cases self : p = d
    · subst self
      have wrong {g : Graph} : g.fault? ⟨p, p⟩ = some (.selfDependency p) := by
        simp [Graph.fault?, Edge.isSelf]
      obtain ⟨d, q, needs', wrong'⟩ := (mem_problems_iff _ _).1
        ((same.problems _).1 ((mem_problems_iff tasks options).2 ⟨p, p, needs, wrong⟩))
      obtain ⟨rfl, rfl⟩ := Edge.mk.inj (Graph.fault?_inj _ _ _ _ wrong wrong')
      exact needs'
    · by_cases stored : p ∈ tasks.map Task.id
      · have named := (all.prerequisites d p).2 ⟨needs, self, stored⟩
        rw [same.prerequisites] at named
        exact ((last.prerequisites d p).1 named).1
      · have named := (all.missing d p).2 ⟨needs, self, stored⟩
        rw [(same.missing d).mem_iff] at named
        exact ((last.missing d p).1 named).1
  · intro named
    have same (d p : TaskId) : Needs tasks d p ↔ Needs (latest tasks) d p :=
      ⟨named d p, needs_of_latest⟩
    refine ⟨?_, fun d => ?_, fun d => ?_, fun problem => ?_⟩
    · rw [all.held, last.held, latest_latest]
    · apply prerequisites_congr
      · exact (ids_graphOf_latest tasks).symm
      · simp [all.prerequisites, last.prerequisites, same, mem_ids_latest]
    · apply (List.perm_ext_iff_of_nodup (nodup_missing_graphOf _ d) (nodup_missing_graphOf _ d)).2
      intro p
      change p ∈ (graphOf tasks).missing d ↔ p ∈ (graphOf (latest tasks)).missing d
      simp only [mem_missing_graphOf, same, mem_ids_latest]
    · simp [mem_problems_iff, fault?_latest, same]

/-- Of several records of a task the last one is held, and is the one that is read from a file of
them; but what a graph of all of them links, misses and finds wrong is told by every one. That is
what the last records alone make just if the others name nothing more. -/
theorem every_record_counts (tasks : List Task) (options : AnalysisOptions) :
    CountsAll tasks (.ofSnapshot (.ofTasks tasks) options) ∧
    Store.decode (Store.encode tasks) = .ok (latest tasks) ∧
    ((Analyzer.ofSnapshot (.ofTasks tasks) options).Matches
        (.ofSnapshot (.ofTasks (latest tasks)) options) ↔
      ∀ d p, Needs tasks d p → Needs (latest tasks) d p) := by
  refine ⟨countsAll tasks options, ?_, matches_latest_iff tasks options⟩
  rw [Store.decode_encode]
  exact congrArg Except.ok (insertAll_eq_latest tasks)

open TaskMap in
/-- A prerequisite that the last record of a task does not name any more. -/
theorem dropped_prerequisite_counts :
    latest [{ sample a "x" with dependsOn := [b] }, sample b "y", sample a "x"] =
        [sample a "x", sample b "y"] ∧
      ∃ g, Graph.ofTasks [{ sample a "x" with dependsOn := [b] }, sample b "y", sample a "x"] =
          .ok g ∧
        g.task? a = some (sample a "x") ∧ g.prerequisites a = [b] ∧ g.ready = [b] ∧
        ∃ g', Graph.ofTasks [sample a "x", sample b "y"] = .ok g' ∧ g'.prerequisites a = [] ∧
          g'.ready = [a, b] := by
  exact ⟨by decide +kernel, _, rfl, by decide +kernel, by decide +kernel, by decide +kernel,
    _, rfl, by decide +kernel, by decide +kernel⟩

end

end Precedence

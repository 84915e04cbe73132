import Precedence.Proofs.Graph
import Precedence.Proofs.Repeats
/-!
Graphs as they are built. Whether an edge can be added depends on the loaded tasks alone, so all
edges can be judged at once.
-/
namespace Precedence.Graph

/-- What is wrong with an edge. -/
def fault? (g : Graph) (e : Edge) : Option GraphFault :=
  if e.isSelf then some (.selfDependency e.dependent)
  else if !g.contains e.dependent then some (.brokenReference e.dependent e)
  else if !g.contains e.prerequisite then some (.brokenReference e.prerequisite e)
  else none

def isLinkable (g : Graph) (e : Edge) : Bool :=
  !e.isSelf && g.contains e.dependent && g.contains e.prerequisite

def isUnresolved (g : Graph) (e : Edge) : Bool :=
  !e.isSelf && g.contains e.dependent && !g.contains e.prerequisite

theorem addEdge_eq (g : Graph) (e : Edge) : g.addEdge e =
    ({ g with
        links := if g.isLinkable e then noteNew g.links e else g.links
        unresolved := if g.isUnresolved e then noteNew g.unresolved e else g.unresolved },
      g.fault? e) := by
  unfold fault? isLinkable isUnresolved addEdge
  cases e.isSelf <;> cases g.contains e.dependent <;> cases g.contains e.prerequisite <;> rfl

/-- Edges that are added one after the other. Whether one can be added depends on the loaded tasks
alone. -/
theorem addEdges_eq (g : Graph) (es : List Edge) : g.addEdges es =
    ({ g with
        links := (es.filter g.isLinkable).foldl noteNew g.links
        unresolved := (es.filter g.isUnresolved).foldl noteNew g.unresolved },
      es.filterMap g.fault?) := by
  induction es generalizing g with
  | nil => rfl
  | cons e es ih =>
    have rest := ih (g.addEdge e).1
    rw [addEdge_eq] at rest
    rw [addEdges, addEdge_eq]
    simp only [rest]
    refine Prod.ext ?_ ?_
    · simp only [List.filter_cons]
      congr 1
      · cases g.isLinkable e <;> rfl
      · cases g.isUnresolved e <;> rfl
    · simp only [List.filterMap_cons]
      cases g.fault? e <;> rfl

/-- What is wrong with an edge that does not join two loaded tasks. A self edge is wrong whether its
task is loaded or not. If both ends of another edge are missing, it is blamed on the dependent. -/
inductive Blame (loaded : List TaskId) : Edge → GraphFault → Prop where
  | self (id : TaskId) : Blame loaded ⟨id, id⟩ (.selfDependency id)
  | dependent {e : Edge} (other : e.dependent ≠ e.prerequisite) (missing : e.dependent ∉ loaded) :
    Blame loaded e (.brokenReference e.dependent e)
  | prerequisite {e : Edge} (other : e.dependent ≠ e.prerequisite) (known : e.dependent ∈ loaded)
    (missing : e.prerequisite ∉ loaded) : Blame loaded e (.brokenReference e.prerequisite e)

theorem blame_of_fault? {g : Graph} {e : Edge} {problem : GraphFault}
    (h : g.fault? e = some problem) : Blame g.ids e problem := by
  unfold fault? at h
  split at h
  · next self =>
    obtain ⟨dependent, prerequisite⟩ := e
    obtain rfl : dependent = prerequisite := beq_iff_eq.1 self
    exact Option.some.inj h ▸ .self dependent
  next other =>
  rw [Edge.isSelf, beq_iff_eq] at other
  split at h
  · next missing =>
    rw [Bool.not_eq_true', ← Bool.not_eq_true, contains_iff] at missing
    exact Option.some.inj h ▸ .dependent other missing
  next known =>
  rw [Bool.not_eq_true', Bool.not_eq_false, contains_iff] at known
  split at h
  · next missing =>
    rw [Bool.not_eq_true', ← Bool.not_eq_true, contains_iff] at missing
    exact Option.some.inj h ▸ .prerequisite other known missing
  · contradiction

theorem fault?_cases {g : Graph} {e : Edge} {problem : GraphFault} (h : g.fault? e = some problem) :
    (∃ id, problem = .selfDependency id ∧ e = ⟨id, id⟩) ∨
      ∃ missing, problem = .brokenReference missing e := by
  cases blame_of_fault? h with
  | self id => exact .inl ⟨id, rfl, rfl⟩
  | dependent | prerequisite => exact .inr ⟨_, rfl⟩

theorem fault?_inj (g : Graph) (e f : Edge) (problem : GraphFault) (he : g.fault? e = some problem)
    (hf : g.fault? f = some problem) : e = f := by
  rcases fault?_cases he with ⟨i, rfl, rfl⟩ | ⟨m, rfl⟩ <;>
    rcases fault?_cases hf with ⟨j, h, rfl⟩ | ⟨n, h⟩
  · rw [GraphFault.selfDependency.inj h]
  · contradiction
  · contradiction
  · exact (GraphFault.brokenReference.inj h).2

@[simp] theorem fault?_eq_none_iff {g : Graph} {e : Edge} : g.fault? e = none ↔
    e.dependent ≠ e.prerequisite ∧ e.dependent ∈ g.ids ∧ e.prerequisite ∈ g.ids := by
  rw [← contains_iff, ← contains_iff, fault?, Edge.isSelf]
  cases g.contains e.dependent <;> cases g.contains e.prerequisite <;>
    by_cases same : e.dependent = e.prerequisite <;> simp [same]

@[simp] theorem mem_ids_foldl_addTask {tasks : List Task} {id : TaskId} :
    id ∈ (tasks.foldl addTask {}).ids ↔ id ∈ tasks.map Task.id := by
  obtain ⟨entries, -, -⟩ := foldl_addTask (g := {}) (m := .empty) rfl tasks
  rw [ids, entries, TaskMap.mem_ids_insertAll]
  simp [TaskMap.empty]

@[simp] theorem mem_ids_buildLenient {tasks : List Task} {es : List Edge} {id : TaskId} :
    id ∈ (buildLenient tasks es).1.ids ↔ id ∈ tasks.map Task.id := by
  rw [← mem_ids_foldl_addTask, buildLenient, addEdges_eq]
  rfl

/-- What is wrong with edges is judged by the tasks that are loaded, however often each is named. -/
theorem problems_buildLenient (tasks : List Task) (es : List Edge) :
    (buildLenient tasks es).2 = es.filterMap (fault? { tasks }) := by
  have contains : (tasks.foldl addTask {}).contains = contains { tasks } := by
    ext id
    rw [Bool.eq_iff_iff, contains_iff, contains_iff]
    exact mem_ids_foldl_addTask
  rw [buildLenient, addEdges_eq]
  unfold fault?
  rw [contains]

theorem foldl_addTask_distinct {tasks : List Task} (distinct : (tasks.map Task.id).Nodup) :
    tasks.foldl addTask {} = { tasks } := by
  obtain ⟨entries, links, unresolved⟩ := foldl_addTask (g := {}) (m := .empty) rfl tasks
  rw [show tasks = (⟨tasks, distinct⟩ : TaskMap).entries from rfl,
    TaskMap.insertAll_entries] at entries
  cases h : tasks.foldl addTask {} with
  | mk t l u =>
    rw [h] at entries links unresolved
    cases entries
    cases links
    cases unresolved
    rfl

theorem ids_buildLenient {tasks : List Task} (distinct : (tasks.map Task.id).Nodup)
    (es : List Edge) : (buildLenient tasks es).1.ids = tasks.map Task.id := by
  rw [buildLenient, foldl_addTask_distinct distinct, addEdges_eq]
  rfl

theorem links_buildLenient (tasks : List Task) (es : List Edge) :
    (buildLenient tasks es).1.links =
      (es.filter (tasks.foldl addTask {}).isLinkable).eraseDups := by
  have none : (tasks.foldl addTask {}).links = [] :=
    (foldl_addTask (g := {}) (m := .empty) rfl tasks).2.1
  rw [buildLenient, addEdges_eq]
  simp [none, foldl_noteNew]

/-- The links are the edges between two different loaded tasks. -/
@[simp] theorem link_buildLenient {tasks : List Task} {es : List Edge} {p d : TaskId} :
    (buildLenient tasks es).1.Link p d ↔
      ⟨d, p⟩ ∈ es ∧ d ≠ p ∧ d ∈ tasks.map Task.id ∧ p ∈ tasks.map Task.id := by
  rw [Link, links_buildLenient, List.mem_eraseDups]
  simp [isLinkable, Edge.isSelf, and_assoc]

theorem unresolved_buildLenient (tasks : List Task) (es : List Edge) :
    (buildLenient tasks es).1.unresolved =
      (es.filter (tasks.foldl addTask {}).isUnresolved).eraseDups := by
  have none : (tasks.foldl addTask {}).unresolved = [] :=
    (foldl_addTask (g := {}) (m := .empty) rfl tasks).2.2
  rw [buildLenient, addEdges_eq]
  simp [none, foldl_noteNew]

theorem mem_missing {g : Graph} {p d : TaskId} : p ∈ g.missing d ↔ ⟨d, p⟩ ∈ g.unresolved := by
  simp only [missing, List.mem_map, List.mem_filter, beq_iff_eq]
  constructor
  · rintro ⟨⟨_, _⟩, ⟨noted, rfl⟩, rfl⟩
    exact noted
  · intro noted
    exact ⟨⟨d, p⟩, ⟨noted, rfl⟩, rfl⟩

/-- What a graph notes as unresolved is named by a loaded task and not loaded itself, and is noted
once. -/
structure NotesMissing (g : Graph) : Prop where
  dependent_mem : ∀ e ∈ g.unresolved, e.dependent ∈ g.ids
  absent : ∀ e ∈ g.unresolved, e.prerequisite ∉ g.ids
  once : g.unresolved.Nodup

theorem NotesMissing.nodup_missing {g : Graph} (h : g.NotesMissing) (d : TaskId) :
    (g.missing d).Nodup := by
  refine List.Nodup.map_on ?_ (h.once.filter _)
  rintro ⟨_, _⟩ hx ⟨_, _⟩ hy rfl
  simp only [List.mem_filter, beq_iff_eq] at hx hy
  rw [hx.2, hy.2]

theorem notesMissing_buildLenient (tasks : List Task) (es : List Edge) :
    (buildLenient tasks es).1.NotesMissing := by
  have noted {e : Edge} (he : e ∈ (buildLenient tasks es).1.unresolved) :
      (tasks.foldl addTask {}).isUnresolved e = true := by
    rw [unresolved_buildLenient, List.mem_eraseDups] at he
    exact (List.mem_filter.1 he).2
  simp only [isUnresolved, Bool.and_eq_true, Bool.not_eq_true', ← Bool.not_eq_true,
    contains_iff, mem_ids_foldl_addTask] at noted
  refine ⟨fun e he => ?_, fun e he => ?_, ?_⟩
  · exact mem_ids_buildLenient.2 (noted he).1.2
  · exact mt mem_ids_buildLenient.1 (noted he).2
  · rw [unresolved_buildLenient]
    exact nodup_eraseDups _

theorem NotesMissing.induced {g : Graph} (h : g.NotesMissing) (keep : TaskId → Bool) :
    (g.induced keep).NotesMissing := by
  have kept {e : Edge} (he : e ∈ (g.induced keep).unresolved) :
      e ∈ g.unresolved ∧ keep e.dependent := List.mem_filter.1 he
  refine ⟨fun e he => ?_, fun e he => ?_, h.once.filter _⟩
  · exact mem_ids_induced.2 ⟨h.dependent_mem e (kept he).1, (kept he).2⟩
  · exact fun there => h.absent e (kept he).1 (mem_ids_induced.1 there).1

theorem Made.notesMissing {g : Graph} (h : g.Made) : g.NotesMissing :=
  h.induction notesMissing_buildLenient fun _ keep notes => notes.induced keep

/-- What is missing is what edges of loaded tasks name and is not loaded. -/
@[simp] theorem mem_missing_buildLenient {tasks : List Task} {es : List Edge} {p d : TaskId} :
    p ∈ (buildLenient tasks es).1.missing d ↔
      ⟨d, p⟩ ∈ es ∧ d ≠ p ∧ d ∈ tasks.map Task.id ∧ p ∉ tasks.map Task.id := by
  rw [mem_missing, unresolved_buildLenient, List.mem_eraseDups]
  simp [isUnresolved, Edge.isSelf, ← Bool.not_eq_true, and_assoc]

theorem nodup_missing_buildLenient (tasks : List Task) (es : List Edge) (d : TaskId) :
    ((buildLenient tasks es).1.missing d).Nodup :=
  (notesMissing_buildLenient tasks es).nodup_missing d

/-! Building strictly -/

theorem build_eq_ok_iff {tasks : List Task} {es : List Edge} {g : Graph} : build tasks es = .ok g ↔
    (buildLenient tasks es).2 = [] ∧ g = (buildLenient tasks es).1 := by
  rw [build]
  split
  · next e => simp [e, eq_comm]
  · next e => simp [e]

theorem build_eq_error_iff {tasks : List Task} {es : List Edge} {fault : GraphFault} :
    build tasks es = .error fault ↔ (buildLenient tasks es).2.head? = some fault := by
  rw [build]
  split
  · next e => simp [e]
  · next e => simp [e]

end Precedence.Graph

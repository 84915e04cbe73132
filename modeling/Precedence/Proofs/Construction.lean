import Mathlib.Data.Set.Card
import Precedence.Proofs.Superseded
import Precedence.Proofs.Validity
/-!
What a graph that is built of records and edges holds, and what is reported of them: each part of a
graph is a closed form of both lists. The order of the edges makes a difference only to what is
reported and to the order of what is missing.
-/
namespace Precedence

instance (e : Edge) (tasks : List Task) : Decidable (e.Joins tasks) := by
  unfold Edge.Joins
  infer_instance

theorem forall₂_filterMap {α β : Type} {f : α → Option β} {R : α → β → Prop}
    (h : ∀ a b, f a = some b → R a b) (l : List α) :
    List.Forall₂ R (l.filter fun a => (f a).isSome) (l.filterMap f) := by
  induction l with
  | nil => exact .nil
  | cons a l ih =>
    cases e : f a with
    | none => simpa [e] using ih
    | some b => simpa [e] using ⟨h a b e, ih⟩

namespace Graph

/-- What a graph of some records and edges holds. -/
structure Represents (g : Graph) (tasks : List Task) (edges : List Edge) : Prop where
  ids : g.ids = (tasks.map Task.id).eraseDups
  task? : ∀ id, g.task? id = tasks.reverse.find? (·.id = id)
  prerequisites : ∀ d, g.prerequisites d =
    g.ids.filter fun p => (⟨d, p⟩ : Edge) ∈ edges ∧ (⟨d, p⟩ : Edge).Joins tasks
  dependents : ∀ p, g.dependents p =
    g.ids.filter fun d => (⟨d, p⟩ : Edge) ∈ edges ∧ (⟨d, p⟩ : Edge).Joins tasks
  edgeCount : g.edgeCount = {e | e ∈ edges ∧ e.Joins tasks}.ncard
  missing : ∀ d ∈ tasks.map Task.id, g.missing d =
    ((edges.filter fun e => e.dependent = d ∧ e.prerequisite ∉ tasks.map Task.id).map
      Edge.prerequisite).eraseDups

section

variable (tasks : List Task) (edges : List Edge)

theorem ids_buildLenient_eq :
    (buildLenient tasks edges).1.ids = (tasks.map Task.id).eraseDups := by
  rw [ids, tasks_buildLenient, ids_latest]

theorem task?_buildLenient (id : TaskId) :
    (buildLenient tasks edges).1.task? id = tasks.reverse.find? (·.id = id) := by
  have sound := sound_buildLenient tasks edges
  by_cases stored : id ∈ tasks.map Task.id
  · obtain ⟨u, found, same⟩ := exists_find?_reverse stored
    rw [found, task?_eq_some_iff sound.distinct, tasks_buildLenient]
    exact ⟨List.mem_filterMap.2 ⟨id, List.mem_eraseDups.2 stored, found⟩, same⟩
  · have unknown : ∀ u ∈ tasks.reverse, ¬ decide (u.id = id) = true := by
      intro u hu same
      exact stored (decide_eq_true_iff.1 same ▸ List.mem_map_of_mem (List.mem_reverse.1 hu))
    rw [List.find?_eq_none.2 unknown, Option.eq_none_iff_forall_ne_some]
    intro u found
    obtain ⟨hu, rfl⟩ := (task?_eq_some_iff sound.distinct).1 found
    exact stored (mem_ids_buildLenient.1 (List.mem_map_of_mem hu))

theorem edgeCount_buildLenient :
    (buildLenient tasks edges).1.edgeCount = {e | e ∈ edges ∧ e.Joins tasks}.ncard := by
  have links : {e | e ∈ edges ∧ e.Joins tasks} = {e | e ∈ (buildLenient tasks edges).1.links} := by
    ext ⟨d, p⟩
    exact link_buildLenient.symm
  rw [links, ← List.coe_toFinset, Set.ncard_coe_finset,
    List.toFinset_card_of_nodup (sound_buildLenient tasks edges).links_distinct, edgeCount]

theorem missing_buildLenient {d : TaskId} (loaded : d ∈ tasks.map Task.id) :
    (buildLenient tasks edges).1.missing d =
      ((edges.filter fun e => e.dependent = d ∧ e.prerequisite ∉ tasks.map Task.id).map
        Edge.prerequisite).eraseDups := by
  have own : (edges.filter (tasks.foldl addTask {}).isUnresolved).filter (·.dependent == d) =
      edges.filter fun e => e.dependent = d ∧ e.prerequisite ∉ tasks.map Task.id := by
    rw [List.filter_filter]
    apply List.filter_congr
    rintro ⟨d', p⟩ _
    rw [Bool.eq_iff_iff, decide_eq_true_iff]
    simp only [isUnresolved, Edge.isSelf, Bool.and_eq_true, Bool.not_eq_true', beq_iff_eq,
      ← Bool.not_eq_true, contains_iff, mem_ids_foldl_addTask]
    constructor
    · rintro ⟨rfl, -, unknown⟩
      exact ⟨rfl, unknown⟩
    · rintro ⟨rfl, unknown⟩
      exact ⟨rfl, ⟨ne_of_mem_of_not_mem loaded unknown, loaded⟩, unknown⟩
  rw [missing, unresolved_buildLenient, ← eraseDups_filter, own, eraseDups_map_on]
  rintro ⟨_, _⟩ hx ⟨_, _⟩ hy rfl
  simp only [List.mem_filter, decide_eq_true_iff] at hx hy
  rw [hx.2.1, hy.2.1]

theorem represents_buildLenient : (buildLenient tasks edges).1.Represents tasks edges where
  ids := ids_buildLenient_eq tasks edges
  task? := task?_buildLenient tasks edges
  prerequisites d := by
    rw [prerequisites_eq_filter]
    simp only [link_buildLenient]
    rfl
  dependents p := by
    rw [dependents_eq_filter]
    simp only [link_buildLenient]
    rfl
  edgeCount := edgeCount_buildLenient tasks edges
  missing _ loaded := missing_buildLenient tasks edges loaded

/-- One thing is reported for each edge that does not join two tasks, in the order of the edges. -/
theorem blamed_buildLenient : List.Forall₂ (Blame (tasks.map Task.id))
    (edges.filter fun e => ¬ e.Joins tasks) (buildLenient tasks edges).2 := by
  have unsound : edges.filter (fun e => ¬ e.Joins tasks) =
      edges.filter fun e => (fault? { tasks } e).isSome := by
    apply List.filter_congr
    intro e _
    rw [Bool.eq_iff_iff, decide_eq_true_iff, Option.isSome_iff_ne_none, Edge.joins_iff]
  rw [unsound, problems_buildLenient]
  apply forall₂_filterMap
  exact fun e fault found => blame_of_fault? found

end

/-- Of the edges it is only of concern to the neighbours which there are. -/
theorem Represents.neighbours_eq {g g' : Graph} {tasks : List Task} {edges edges' : List Edge}
    (h : g.Represents tasks edges) (h' : g'.Represents tasks edges')
    (same : ∀ e, e ∈ edges' ↔ e ∈ edges) (id : TaskId) :
    g'.prerequisites id = g.prerequisites id ∧ g'.dependents id = g.dependents id := by
  rw [h.prerequisites, h'.prerequisites, h.dependents, h'.dependents, h.ids, h'.ids]
  simp only [same, true_and]

/-- A graph is what its records and edges make it. Its tasks are the last records in the order of
the first ones, linked by the edges that join two of them; what is missing is told by the others,
and each of these is reported in turn. The order of the edges does not matter to the neighbours.
Strictly, the same graph is built if nothing is reported, and the first report is the error
otherwise. -/
theorem construction_exact (tasks : List Task) (edges : List Edge) :
    (buildLenient tasks edges).1.Represents tasks edges ∧
    List.Forall₂ (Blame (tasks.map Task.id)) (edges.filter fun e => ¬ e.Joins tasks)
      (buildLenient tasks edges).2 ∧
    (∀ edges', (∀ e, e ∈ edges' ↔ e ∈ edges) → ∀ id,
      (buildLenient tasks edges').1.prerequisites id =
        (buildLenient tasks edges).1.prerequisites id ∧
      (buildLenient tasks edges').1.dependents id = (buildLenient tasks edges).1.dependents id) ∧
    (∀ g, build tasks edges = .ok g ↔
      (buildLenient tasks edges).2 = [] ∧ g = (buildLenient tasks edges).1) ∧
    ∀ fault, build tasks edges = .error fault ↔ (buildLenient tasks edges).2.head? = some fault :=
  ⟨represents_buildLenient tasks edges, blamed_buildLenient tasks edges,
    fun edges' same => (represents_buildLenient tasks edges).neighbours_eq
      (represents_buildLenient tasks edges') same,
    fun _ => build_eq_ok_iff, fun _ => build_eq_error_iff⟩

open TaskMap in
example : (buildLenient [sample b "y", sample a "x", sample b "z"]
    [⟨c, c⟩, ⟨a, b⟩, ⟨a, c⟩, ⟨a, b⟩, ⟨a, c⟩, ⟨c, a⟩]).2 =
      [.selfDependency c, .brokenReference c ⟨a, c⟩, .brokenReference c ⟨a, c⟩,
        .brokenReference c ⟨c, a⟩] := by
  decide +kernel

end Graph
end Precedence

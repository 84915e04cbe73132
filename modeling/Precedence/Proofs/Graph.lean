import Mathlib.Logic.Relation
import Precedence.Graph.Schedule
import Precedence.Proofs.TaskMap
/-!
Graphs as they are made: loaded tasks under distinct identifiers, and links between two different
ones of them. What a graph says of its links is said here as a relation.
-/
namespace Precedence

theorem countP_lt_countP {α : Type} {p q : α → Bool} {l : List α} {a : α} (mem : a ∈ l)
    (sub : ∀ x ∈ l, p x → q x) (out : p a = false) (old : q a = true) :
    l.countP p < l.countP q := by
  obtain ⟨before, after, rfl⟩ := List.append_of_mem mem
  have before_le : before.countP p ≤ before.countP q :=
    List.countP_mono_left fun x hx => sub x (List.mem_append_left _ hx)
  have after_le : after.countP p ≤ after.countP q :=
    List.countP_mono_left fun x hx => sub x (List.mem_append_right _ (List.mem_cons_of_mem _ hx))
  rw [List.countP_append, List.countP_append, List.countP_cons_of_neg (by simp [out]),
    List.countP_cons_of_pos old]
  omega

namespace Graph

open Relation

/-- The first task is a prerequisite of the second. -/
def Link (g : Graph) (p d : TaskId) : Prop := (⟨d, p⟩ : Edge) ∈ g.links

def Acyclic (g : Graph) : Prop := ∀ v, ¬ TransGen g.Link v v

/-- A list of at least two distinct tasks, each linked to the next and the last to the first. -/
structure IsCycle (link : TaskId → TaskId → Prop) (c : List TaskId) : Prop where
  two_le : 2 ≤ c.length
  distinct : c.Nodup
  chain : c.IsChain link
  closed : ∀ a ∈ c.getLast?, ∀ b ∈ c.head?, link a b

structure Sound (g : Graph) : Prop where
  distinct : g.ids.Nodup
  dependent_mem : ∀ e ∈ g.links, e.dependent ∈ g.ids
  prerequisite_mem : ∀ e ∈ g.links, e.prerequisite ∈ g.ids
  noSelf : ∀ e ∈ g.links, e.dependent ≠ e.prerequisite
  links_distinct : g.links.Nodup

inductive Made : Graph → Prop where
  | empty : Made {}
  | lenient (tasks : List Task) (edges : List Edge) : Made (buildLenient tasks edges).1
  | strict {tasks : List Task} {edges : List Edge} {g : Graph} (h : build tasks edges = .ok g) :
    Made g
  | ofTasks {tasks : List Task} {g : Graph} (h : ofTasks tasks = .ok g) : Made g
  | induced {g : Graph} (h : Made g) (keep : TaskId → Bool) : Made (g.induced keep)
  | subgraph {g s : Graph} {ids : List TaskId} (h : Made g) (h' : g.subgraph ids = .ok s) : Made s

@[simp] theorem contains_iff (g : Graph) (id : TaskId) : g.contains id = true ↔ id ∈ g.ids := by
  simp [contains, ids]

/-! Making a graph -/

@[simp] theorem addTask_tasks (g : Graph) (t : Task) :
    (g.addTask t).tasks = TaskMap.written g.tasks t := by
  unfold addTask TaskMap.written
  split
  · next h => exact (if_pos h).symm
  · next h => exact (if_neg h).symm

@[simp] theorem addTask_links (g : Graph) (t : Task) : (g.addTask t).links = g.links := by
  unfold addTask
  split <;> rfl

@[simp] theorem addTask_unresolved (g : Graph) (t : Task) :
    (g.addTask t).unresolved = g.unresolved := by
  unfold addTask
  split <;> rfl

/-- Tasks are loaded into a graph as they are written to a map. -/
theorem foldl_addTask {g : Graph} {m : TaskMap} (h : g.tasks = m.entries) (tasks : List Task) :
    (tasks.foldl addTask g).tasks = (m.insertAll tasks).entries ∧
      (tasks.foldl addTask g).links = g.links ∧
      (tasks.foldl addTask g).unresolved = g.unresolved := by
  induction tasks generalizing g m with
  | nil => exact ⟨h, rfl, rfl⟩
  | cons t tasks ih =>
    have added : (g.addTask t).tasks = (m.insert t).entries := by
      rw [addTask_tasks, h]
      rfl
    obtain ⟨entries, links, unresolved⟩ := ih added
    exact ⟨entries, links.trans (addTask_links g t), unresolved.trans (addTask_unresolved g t)⟩

theorem sound_of_noLinks {g : Graph} (distinct : g.ids.Nodup) (h : g.links = []) : g.Sound where
  distinct
  dependent_mem := by simp [h]
  prerequisite_mem := by simp [h]
  noSelf := by simp [h]
  links_distinct := by simp [h]

@[simp] theorem mem_insertEdge {e f : Edge} {es : List Edge} :
    f ∈ insertEdge e es ↔ f = e ∨ f ∈ es := by
  unfold insertEdge
  split
  · constructor
    · exact .inr
    · rintro (rfl | h) <;> assumption
  · simp [or_comm]

theorem nodup_insertEdge {e : Edge} {es : List Edge} (h : es.Nodup) : (insertEdge e es).Nodup := by
  unfold insertEdge
  split
  · exact h
  · next new =>
    refine List.nodup_append.2 ⟨h, List.nodup_singleton _, fun f hf f' hf' => ?_⟩
    rintro rfl
    exact new (List.mem_singleton.1 hf' ▸ hf)

theorem Sound.addEdge {g : Graph} (h : g.Sound) (e : Edge) : (g.addEdge e).1.Sound := by
  obtain ⟨distinct, dependent, prerequisite, noSelf, links⟩ := h
  unfold Graph.addEdge
  split
  · exact ⟨distinct, dependent, prerequisite, noSelf, links⟩
  · next other =>
    split
    · exact ⟨distinct, dependent, prerequisite, noSelf, links⟩
    · next hd =>
      split
      · exact ⟨distinct, dependent, prerequisite, noSelf, links⟩
      · next hp =>
        rw [Bool.not_eq_true', Bool.not_eq_false, contains_iff] at hd hp
        refine ⟨distinct, ?_, ?_, ?_, nodup_insertEdge links⟩
        all_goals
          intro f hf
          rcases mem_insertEdge.1 hf with rfl | hf
        · exact hd
        · exact dependent f hf
        · exact hp
        · exact prerequisite f hf
        · simpa [Edge.isSelf] using other
        · exact noSelf f hf

theorem Sound.addEdges {g : Graph} (h : g.Sound) (es : List Edge) : (g.addEdges es).1.Sound := by
  induction es generalizing g with
  | nil => exact h
  | cons e es ih => exact ih (h.addEdge e)

@[simp] theorem sound_buildLenient (tasks : List Task) (edges : List Edge) :
    (buildLenient tasks edges).1.Sound := by
  obtain ⟨entries, links, -⟩ := foldl_addTask (g := {}) (m := .empty) rfl tasks
  refine Sound.addEdges (sound_of_noLinks ?_ links) edges
  rw [ids, entries]
  exact (TaskMap.empty.insertAll tasks).distinct

theorem eq_buildLenient_of_build {tasks : List Task} {edges : List Edge} {g : Graph}
    (h : build tasks edges = .ok g) : g = (buildLenient tasks edges).1 := by
  unfold build at h
  split at h
  · next e => rw [e, Except.ok.inj h]
  · contradiction

@[simp] theorem ids_induced (g : Graph) (keep : TaskId → Bool) :
    (g.induced keep).ids = g.ids.filter keep := by
  rw [ids, ids, List.filter_map]
  rfl

theorem mem_ids_induced {g : Graph} {keep : TaskId → Bool} {v : TaskId} :
    v ∈ (g.induced keep).ids ↔ v ∈ g.ids ∧ keep v := by simp

@[simp] theorem link_induced {g : Graph} {keep : TaskId → Bool} {p d : TaskId} :
    (g.induced keep).Link p d ↔ g.Link p d ∧ keep d ∧ keep p := by
  simp [Link, induced]

theorem Sound.induced {g : Graph} (h : g.Sound) (keep : TaskId → Bool) :
    (g.induced keep).Sound := by
  have kept {e : Edge} (he : e ∈ (g.induced keep).links) :
      e ∈ g.links ∧ keep e.dependent ∧ keep e.prerequisite := link_induced.1 he
  refine ⟨?_, fun e he => ?_, fun e he => ?_, fun e he => h.noSelf e (kept he).1, ?_⟩
  · simpa using h.distinct.filter keep
  · exact mem_ids_induced.2 ⟨h.dependent_mem e (kept he).1, (kept he).2.1⟩
  · exact mem_ids_induced.2 ⟨h.prerequisite_mem e (kept he).1, (kept he).2.2⟩
  · exact h.links_distinct.filter _

theorem eq_induced_of_subgraph {g p : Graph} {ids : List TaskId} (h : g.subgraph ids = .ok p) :
    p = g.induced ids.contains := by
  rw [subgraph] at h
  cases known : ids.forM g.require with
  | error fault => rw [known] at h; contradiction
  | ok _ => rw [known] at h; exact (Except.ok.inj h).symm

/-- What holds of graphs that are built leniently, and of a part if it holds of the whole, holds of
all graphs. -/
theorem Made.induction {motive : Graph → Prop}
    (lenient : ∀ tasks edges, motive (buildLenient tasks edges).1)
    (induced : ∀ g keep, motive g → motive (g.induced keep)) {g : Graph} (h : g.Made) :
    motive g := by
  induction h with
  | empty => exact lenient [] []
  | lenient tasks edges => exact lenient tasks edges
  | strict h =>
    rw [eq_buildLenient_of_build h]
    exact lenient _ _
  | ofTasks h =>
    rw [eq_buildLenient_of_build h]
    exact lenient _ _
  | induced h keep ih => exact induced _ keep ih
  | subgraph h h' ih =>
    rw [eq_induced_of_subgraph h']
    exact induced _ _ ih

theorem Made.sound {g : Graph} (h : g.Made) : g.Sound :=
  h.induction sound_buildLenient fun _ keep sound => sound.induced keep

/-! Loaded tasks -/

section

variable {g : Graph} {t : Task}

theorem task?_eq_some_iff (distinct : g.ids.Nodup) {id : TaskId} :
    g.task? id = some t ↔ t ∈ g.tasks ∧ t.id = id :=
  TaskMap.find?_eq_some_iff (m := ⟨g.tasks, distinct⟩)

theorem mem_ids_of_kept {keep : Task → Bool} {v : TaskId}
    (h : v ∈ (g.tasks.filter keep).map Task.id) : v ∈ g.ids := by
  obtain ⟨t, ht, rfl⟩ := List.mem_map.1 h
  exact List.mem_map_of_mem (List.mem_filter.1 ht).1

/-- A loaded task is among those of a kind by its identifier just if it is of that kind. -/
theorem mem_ids_kept_iff (distinct : g.ids.Nodup) {keep : Task → Bool} (ht : t ∈ g.tasks) :
    t.id ∈ (g.tasks.filter keep).map Task.id ↔ keep t = true := by
  simp only [List.mem_map, List.mem_filter]
  constructor
  · rintro ⟨u, ⟨hu, kept⟩, same⟩
    rwa [← List.inj_on_of_nodup_map distinct hu ht same]
  · intro kept
    exact ⟨t, ⟨ht, kept⟩, rfl⟩

end

/-! Neighbours -/

section

variable {g : Graph} {v w : TaskId}

instance (g : Graph) : DecidableRel g.Link := fun p d =>
  inferInstanceAs (Decidable ((⟨d, p⟩ : Edge) ∈ g.links))

theorem dependents_eq_filter (g : Graph) (v : TaskId) :
    g.dependents v = g.ids.filter fun d => g.Link v d := by
  apply List.filter_congr
  intro d _
  rw [Bool.eq_iff_iff, List.contains_iff_mem, decide_eq_true_iff]
  simp only [Link, List.mem_map, List.mem_filter, beq_iff_eq]
  constructor
  · rintro ⟨⟨d, p⟩, ⟨he, rfl⟩, rfl⟩
    exact he
  · intro link
    exact ⟨_, ⟨link, rfl⟩, rfl⟩

theorem prerequisites_eq_filter (g : Graph) (v : TaskId) :
    g.prerequisites v = g.ids.filter fun p => g.Link p v := by
  apply List.filter_congr
  intro p _
  rw [Bool.eq_iff_iff, List.contains_iff_mem, decide_eq_true_iff]
  simp only [Link, List.mem_map, List.mem_filter, beq_iff_eq]
  constructor
  · rintro ⟨⟨d, p⟩, ⟨he, rfl⟩, rfl⟩
    exact he
  · intro link
    exact ⟨_, ⟨link, rfl⟩, rfl⟩

@[simp] theorem Sound.mem_dependents (h : g.Sound) : w ∈ g.dependents v ↔ g.Link v w := by
  rw [dependents_eq_filter, List.mem_filter, decide_eq_true_iff]
  exact and_iff_right_of_imp (h.dependent_mem _)

@[simp] theorem Sound.mem_prerequisites (h : g.Sound) : w ∈ g.prerequisites v ↔ g.Link w v := by
  rw [prerequisites_eq_filter, List.mem_filter, decide_eq_true_iff]
  exact and_iff_right_of_imp (h.prerequisite_mem _)

theorem Sound.mem_of_link (h : g.Sound) (link : g.Link v w) : v ∈ g.ids ∧ w ∈ g.ids :=
  ⟨h.prerequisite_mem _ link, h.dependent_mem _ link⟩

theorem Sound.ne_of_link (h : g.Sound) (link : g.Link v w) : v ≠ w := Ne.symm (h.noSelf _ link)

theorem Sound.nodup_dependents (h : g.Sound) (v : TaskId) : (g.dependents v).Nodup :=
  h.distinct.filter _

theorem Sound.nodup_prerequisites (h : g.Sound) (v : TaskId) : (g.prerequisites v).Nodup :=
  h.distinct.filter _

@[simp] theorem length_ids (g : Graph) : g.ids.length = g.tasks.length := List.length_map _

end

end Graph

namespace Ranking

/-- A ranking ranks the loaded tasks of a graph, whatever it compares them by. -/
theorem order_perm (g : Graph) (compare : Comparison) : (ofGraph g compare).order.Perm g.ids :=
  (List.mergeSort_perm _ _).map _

theorem sort_perm (r : Ranking) (l : List TaskId) : (r.sort l).Perm l := List.mergeSort_perm _ _

@[simp] theorem mem_sort {r : Ranking} {l : List TaskId} {v : TaskId} : v ∈ r.sort l ↔ v ∈ l :=
  (r.sort_perm l).mem_iff

theorem task?_rank {r : Ranking} {v : TaskId} (h : v ∈ r.order) : r.task? (r.rank v) = some v :=
  List.getElem?_idxOf h

theorem rank_inj {r : Ranking} {v w : TaskId} (h : v ∈ r.order) (e : r.rank v = r.rank w) :
    v = w := (List.idxOf_inj h).1 e

end Ranking
end Precedence

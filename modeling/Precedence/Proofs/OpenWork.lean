import Precedence.Analyzer.Basic
import Precedence.Proofs.Building
import Precedence.Proofs.Ranking
/-!
Open work. A task that is not finished is ready or blocked and never both: it is blocked as long as
there is something that it waits for. What it waits for are tasks that are not completed and
prerequisites that are not loaded, each named once.
-/
namespace Precedence

/-- Lists some tasks, each one once and from the best rank on. -/
structure Ranking.Lists (r : Ranking) (listed ids : List TaskId) : Prop where
  perm : listed.Perm ids
  distinct : listed.Nodup
  sorted : listed.Pairwise fun v w => r.rank v < r.rank w

namespace Graph

variable {g : Graph} {t : Task} {p d : TaskId}

theorem isEmpty_blockers :
    (g.blockers d).isEmpty = ((g.missing d).isEmpty && (g.prerequisites d).all g.isComplete) := by
  rw [Bool.eq_iff_iff]
  simp [blockers, and_comm]

/-- Ready is what is not finished and waits for nothing. -/
theorem isReady_eq (g : Graph) (t : Task) :
    g.isReady t = (!t.status.isTerminal && (g.blockers t.id).isEmpty) := by
  rw [isEmpty_blockers, isReady, Bool.and_assoc]

/-- Blocked is what is not finished and waits for something. -/
theorem isBlocked_eq (g : Graph) (t : Task) :
    g.isBlocked t = (!t.status.isTerminal && !(g.blockers t.id).isEmpty) := by
  rw [isEmpty_blockers, isBlocked, Bool.not_and, List.not_all_eq_any_not]

theorem Sound.mem_ready (h : g.Sound) (ht : t ∈ g.tasks) :
    t.id ∈ g.ready ↔ t.status.isTerminal = false ∧ g.blockers t.id = [] := by
  rw [ready, mem_ids_kept_iff h.distinct ht, isReady_eq]
  simp

theorem Sound.mem_blocked (h : g.Sound) (ht : t ∈ g.tasks) :
    t.id ∈ g.blocked ↔ t.status.isTerminal = false ∧ g.blockers t.id ≠ [] := by
  rw [blocked, mem_ids_kept_iff h.distinct ht, isBlocked_eq]
  simp

theorem mem_blockers :
    p ∈ g.blockers d ↔ p ∈ g.prerequisites d ∧ g.isComplete p = false ∨ p ∈ g.missing d := by
  simp [blockers]

/-- A prerequisite is loaded and a missing one is not, so none is named as both. -/
theorem nodup_blockers (sound : g.Sound) (notes : g.NotesMissing) (d : TaskId) :
    (g.blockers d).Nodup := by
  refine List.nodup_append.2 ⟨(sound.nodup_prerequisites d).filter _, notes.nodup_missing d, ?_⟩
  rintro p hp q hq rfl
  exact notes.absent _ (mem_missing.1 hq) (List.mem_filter.1 (List.mem_filter.1 hp).1).1

theorem not_isComplete_of_mem_blockers (sound : g.Sound) (notes : g.NotesMissing)
    (ht : t ∈ g.tasks) (waits : t.id ∈ g.blockers d) : t.status.isComplete = false := by
  rcases mem_blockers.1 waits with ⟨-, incomplete⟩ | missing
  · rwa [isComplete, (task?_eq_some_iff sound.distinct).2 ⟨ht, rfl⟩] at incomplete
  · exact absurd (List.mem_map_of_mem ht) (notes.absent _ (mem_missing.1 missing))

/-- Some of the loaded tasks, sorted by their ranks, are listed once each. -/
theorem Sound.lists_sort (h : g.Sound) (compare : Comparison) (keep : Task → Bool) :
    (Ranking.ofGraph g compare).Lists
      ((Ranking.ofGraph g compare).sort ((g.tasks.filter keep).map Task.id))
      ((g.tasks.filter keep).map Task.id) := by
  have kept : ((g.tasks.filter keep).map Task.id).Sublist g.ids := List.filter_sublist.map _
  have perm := (Ranking.ofGraph g compare).sort_perm ((g.tasks.filter keep).map Task.id)
  refine ⟨perm, perm.nodup_iff.2 (h.distinct.sublist kept), ?_⟩
  apply Ranking.pairwise_sort_lt _ (h.distinct.sublist kept)
  exact fun v hv => (Ranking.order_perm g compare).mem_iff.2 (mem_ids_of_kept hv)

/-- Ready and blocked tasks part the open work, in a graph with cycles and missing prerequisites and
in every part of it. An unfinished task is blocked just if it waits for something; nothing it waits
for is named twice or completed. An analyzer lists both kinds by rank. -/
theorem open_work_parted {g : Graph} (made : g.Made) :
    (∀ t ∈ g.tasks, t.status.isTerminal = false → (t.id ∈ g.ready ↔ t.id ∉ g.blocked)) ∧
    (∀ t ∈ g.tasks, t.status.isTerminal = true → t.id ∉ g.ready ∧ t.id ∉ g.blocked) ∧
    g.ready ⊆ g.ids ∧ g.blocked ⊆ g.ids ∧
    (∀ t ∈ g.tasks, t.status.isTerminal = false → (t.id ∈ g.blocked ↔ g.blockers t.id ≠ [])) ∧
    (∀ d, (g.blockers d).Nodup ∧ ∀ t ∈ g.tasks, t.id ∈ g.blockers d → t.status.isComplete = false) ∧
    ∀ a : Analyzer, a.graph = g →
      a.ranking.Lists a.ready g.ready ∧ a.ranking.Lists a.blocked g.blocked := by
  have sound := made.sound
  have notes := made.notesMissing
  refine ⟨fun t ht unfinished => ?_, fun t ht finished => ?_, fun v hv => mem_ids_of_kept hv,
    fun v hv => mem_ids_of_kept hv, fun t ht unfinished => ?_, fun d => ⟨?_, fun t ht waits => ?_⟩,
    fun a same => ?_⟩
  · rw [sound.mem_ready ht, sound.mem_blocked ht]
    simp [unfinished]
  · rw [sound.mem_ready ht, sound.mem_blocked ht]
    simp [finished]
  · rw [sound.mem_blocked ht]
    exact and_iff_right unfinished
  · exact nodup_blockers sound notes d
  · exact not_isComplete_of_mem_blockers sound notes ht waits
  · subst same
    exact ⟨sound.lists_sort a.compare _, sound.lists_sort a.compare _⟩

open TaskMap in
/-- Two tasks that wait for each other, and one of them for a third that is not loaded. -/
def waitingPair : Graph := (buildLenient [sample a "x", sample b "y"] [⟨a, b⟩, ⟨b, a⟩, ⟨b, c⟩]).1

open TaskMap in
theorem open_work_parted_of_half :
    let g := waitingPair.induced (· == b)
    g.Made ∧ sample b "y" ∈ g.tasks ∧ g.blockers b = [c] ∧ b ∈ g.blocked ∧ b ∉ g.ready := by
  intro g
  have made : g.Made := .induced (.lenient _ _) _
  have loaded : sample b "y" ∈ g.tasks := by decide +kernel
  have waits : g.blockers b = [c] := by decide +kernel
  obtain ⟨either, -, -, -, told, -⟩ := open_work_parted made
  have blocked : b ∈ g.blocked := (told _ loaded rfl).2 (waits ▸ List.cons_ne_nil c [])
  exact ⟨made, loaded, waits, blocked, fun ready => (either _ loaded rfl).1 ready blocked⟩

end Graph
end Precedence

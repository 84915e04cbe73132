import Precedence.Proofs.Backend
import Precedence.Proofs.Validity
/-!
Analyzers of the same tasks, read from the records of a store or from the rows of its replica. They
answer alike whatever they were asked before; only, how often an unsound edge is reported depends on
where it was read.
-/
namespace Precedence

def Question.isReport : {α : Type} → Question α → Bool
  | _, .validate _ => true
  | _, _ => false

/-- Whatever one analyzer was asked before, it answers as another one that was not asked anything.
Both have found the same problems in the same order, but perhaps not equally often, and their
reports differ in nothing else. -/
structure Analyzer.AnswersLike (a b : Analyzer) : Prop where
  answer : ∀ earlier {α : Type} (q : Question α), q.isReport = false →
    ((Consultation.after ⟨a, none⟩ earlier).ask q).1 = b.answer q
  problems : a.problems.eraseDups = b.problems.eraseDups
  report : ∀ earlier ids, ((Consultation.after ⟨a, none⟩ earlier).ask (.validate ids)).1 =
    { b with problems := a.problems : Analyzer }.validate ids

namespace Analyzer

variable {a b : Analyzer}

theorem Alike.answer (h : a.Alike b) {α : Type} (q : Question α) (other : q.isReport = false) :
    a.answer q = b.answer q := by
  cases q with
  | executionOrder ids => exact h.executionOrder ids
  | levels => exact h.levels
  | walk direction seed maxDepth => exact h.walk direction seed maxDepth
  | orphans policy => exact h.orphans policy
  | leaves status => exact h.leaves status
  | criticalPath start finish => exact h.criticalPath start finish
  | depths => exact h.depths
  | ready => exact h.ready
  | blocked => exact h.blocked
  | missing id => exact h.missing id
  | validate ids => contradiction

/-- Repeated problems make repeated faults of a report. -/
theorem faults_validate_congr (a : Analyzer) {problems : List GraphFault}
    (once : a.problems.eraseDups = problems.eraseDups) (ids : Option (List TaskId)) :
    (a.validate ids).faults.eraseDups = ({ a with problems }.validate ids).faults.eraseDups := by
  cases ids with
  | none => exact eraseDups_append_congr once [] _
  | some ids =>
    have concerning : (a.problems.filter (concerns ids)).eraseDups =
        (problems.filter (concerns ids)).eraseDups := by
      rw [eraseDups_filter, once, eraseDups_filter]
    exact eraseDups_append_congr concerning _ _

theorem Alike.answersLike (h : a.Alike b) (once : a.problems.eraseDups = b.problems.eraseDups) :
    a.AnswersLike b where
  answer earlier _ q other := (Consultation.ask_after a earlier q).trans (h.answer q other)
  problems := once
  report earlier ids := by
    have same : a.Alike { b with problems := a.problems } :=
      ⟨h.graph, rfl, h.compare, h.options, h.blind⟩
    exact (Consultation.ask_after a earlier (.validate ids)).trans (same.validate rfl ids)

/-- Reports of analyzers that answer alike name the same faults in the same order. -/
theorem AnswersLike.faults (h : a.AnswersLike b) (earlier : List ((α : Type) × Question α))
    (ids : Option (List TaskId)) :
    ((Consultation.after ⟨a, none⟩ earlier).ask (.validate ids)).1.faults.eraseDups =
      (b.validate ids).faults.eraseDups := by
  rw [h.report earlier ids]
  exact (b.faults_validate_congr h.problems.symm ids).symm

/-- An analyzer of some tasks, wherever they were read. -/
structure Presents (tasks : List Task) (options : AnalysisOptions) (a : Analyzer) : Prop where
  graph : a.graph.bare = (ofSnapshot (.ofTasks tasks) options).graph.bare
  problems : a.problems.eraseDups = (ofSnapshot (.ofTasks tasks) options).problems.eraseDups
  compare : a.compare = options.tieBreak.compare
  options_eq : a.options = options
  same : (∀ t ∈ tasks, t.dependsOn.Nodup) → a = ofSnapshot (.ofTasks tasks) options

variable {tasks : List Task} {options : AnalysisOptions}

theorem presents_records (tasks : List Task) (options : AnalysisOptions) :
    Presents tasks options (ofSnapshot (.ofTasks tasks) options) :=
  ⟨rfl, rfl, rfl, rfl, fun _ => rfl⟩

theorem presents_rows (distinct : (tasks.map Task.id).Nodup) (options : AnalysisOptions) :
    Presents tasks options (ofSnapshot
      ⟨tasks.map Task.unrepeated, tasks.flatMap fun t => t.unrepeated.edges⟩ options) := by
  obtain ⟨graph, problems⟩ := ofSnapshot_unrepeated distinct options
  refine ⟨graph, ?_, rfl, rfl, fun once => by rw [snapshot_unrepeated once]⟩
  rw [problems, eraseDups_eraseDups]

theorem Presents.answersLike (h : Presents tasks options a) (h' : Presents tasks options b) :
    a.AnswersLike b := by
  have once := h.problems.trans h'.problems.symm
  have alike : a.Alike b :=
    { graph := h.graph.trans h'.graph.symm
      problem := by rw [← head?_eraseDups, once, head?_eraseDups]
      compare := h.compare.trans h'.compare.symm
      options := h.options_eq.trans h'.options_eq.symm
      blind := by
        rw [h'.compare]
        exact TieBreak.blind _ }
  exact alike.answersLike once

end Analyzer

end Precedence

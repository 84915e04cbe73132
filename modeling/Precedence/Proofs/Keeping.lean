import Precedence.Proofs.Descent
import Precedence.Proofs.Likeness
import Precedence.Proofs.Sharing
/-!
What a project keeps. Its store and its replica share one cache of an analyzer, under revisions that
they have in common; whatever the cache keeps, it hands out an analyzer of the tasks that the file
holds now.
-/
namespace Precedence

theorem Replication.State.distinct_of_tasks {x : State} {tasks : List Task}
    (h : x.tasks = .ok tasks) :
    (tasks.map Task.id).Nodup := by
  rw [State.tasks] at h
  cases content : x.content with
  | none =>
    rw [content] at h
    obtain rfl := Except.ok.inj h
    exact List.nodup_nil
  | some b =>
    rw [content] at h
    obtain ⟨m, rfl⟩ := Store.exists_map_of_decode h
    exact m.distinct

/-! What is supplied -/

/-- What a replica supplies, wherever it is. -/
def Replica.supply (r : Replica) : Source Failure where
  tasks := r.loadTasks.mapError .replica
  edges := r.loadEdges.mapError .replica
  revision := .ok r.revision

theorem Replica.snapshot_supply {tasks : List Task} (distinct : (tasks.map Task.id).Nodup)
    (fits : ∀ t ∈ tasks, t.FitsRow) (revision : String) :
    (ofTasks tasks revision).supply.snapshot =
      .ok ⟨tasks.map Task.unrepeated, tasks.flatMap fun t => t.unrepeated.edges⟩ := by
  rw [Source.snapshot, supply, loadTasks_ofTasks distinct fits, loadEdges_ofTasks distinct]
  rfl

theorem Replica.fits_of_snapshot {tasks : List Task} (distinct : (tasks.map Task.id).Nodup)
    {revision : String} {s : Snapshot} (h : (ofTasks tasks revision).supply.snapshot = .ok s) :
    ∀ t ∈ tasks, t.FitsRow := by
  obtain ⟨ts, read, -⟩ := exists_of_bind_eq_ok h
  exact fits_of_loadTasks distinct (eq_ok_of_mapError read)

theorem Store.snapshot_source {s : Store} {d : Disk} {tasks : List Task}
    (h : s.load d = .ok tasks) :
    (s.source d).snapshot = .ok (.ofTasks tasks) := by
  rw [Source.snapshot, source, h]
  rfl

theorem ReplicaFile.source_eq {f : ReplicaFile} {r : Replica} {d : Disk}
    (held : ∀ t, f.load t d = .ok r) : f.source d = r.supply := by
  unfold source
  simp only [held]
  rfl

/-- An analyzer of some tasks, from their records or from the rows of a replica that was filled with
them. -/
inductive Reads (tasks : List Task) (options : AnalysisOptions) : Analyzer → Prop where
  | records : Reads tasks options (.ofSnapshot (.ofTasks tasks) options)
  | rows {revision : String} {s : Snapshot}
    (read : (Replica.ofTasks tasks revision).supply.snapshot = .ok s) :
    Reads tasks options (.ofSnapshot s options)

theorem Reads.presents {tasks : List Task} {options : AnalysisOptions} {a : Analyzer}
    (h : Reads tasks options a) (distinct : (tasks.map Task.id).Nodup) :
    a.Presents tasks options := by
  cases h with
  | records => exact Analyzer.presents_records tasks options
  | rows read =>
    have fits := Replica.fits_of_snapshot distinct read
    rw [Replica.snapshot_supply distinct fits] at read
    obtain rfl := Except.ok.inj read
    exact Analyzer.presents_rows distinct options

/-- A source of what the file holds now. As far as it has a revision, that is the one of the file,
and it gives the tasks of the file or none at all. -/
structure Source.Supplies (x : Replication.State) (source : Source Failure) : Prop where
  revision : ∀ {r}, source.revision = .ok r → r = some x.revision
  snapshot : ∀ {r s}, source.revision = .ok r → source.snapshot = .ok s → ∃ tasks,
    x.tasks = .ok tasks ∧ ∀ options, Reads tasks options (.ofSnapshot s options)

/-- The tasks of the file can be had from a source. -/
def Source.Provides (x : Replication.State) (source : Source Failure) : Prop :=
  ∀ {r tasks}, source.revision = .ok r → x.tasks = .ok tasks → ∃ s, source.snapshot = .ok s

section

variable {f : ReplicaFile} {d : Disk}

theorem ReplicaFile.load_of_revision {r : Option String}
    (identified : (f.store.source d).revision = .ok r) :
    r = some (f.state d).revision ∧ f.store.load d = (f.state d).tasks := by
  obtain ⟨revision, current, rfl⟩ := exists_of_map_eq_ok identified
  obtain ⟨rfl, here⟩ := revision_eq_ok current
  exact ⟨rfl, here⟩

theorem ReplicaFile.supplies_store (f : ReplicaFile) (d : Disk) :
    (f.store.source d).Supplies (f.state d) where
  revision identified := (load_of_revision identified).1
  snapshot := by
    intro r s identified read
    obtain ⟨tasks, loaded, -⟩ := exists_of_bind_eq_ok read
    rw [Store.snapshot_source loaded] at read
    obtain rfl := Except.ok.inj read
    exact ⟨tasks, (load_of_revision identified).2.symm.trans loaded, fun _ => .records⟩

theorem ReplicaFile.provides_store (f : ReplicaFile) (d : Disk) :
    (f.store.source d).Provides (f.state d) := by
  intro r tasks identified read
  exact ⟨_, Store.snapshot_source ((load_of_revision identified).2.trans read)⟩

theorem ReplicaFile.IsCurrent.supplies (h : f.IsCurrent d) : (f.source d).Supplies (f.state d) := by
  obtain ⟨tasks, here, held⟩ := h
  rw [source_eq held]
  exact ⟨fun same => (Except.ok.inj same).symm,
    fun _ read => ⟨tasks, here, fun options => .rows read⟩⟩

theorem ReplicaFile.IsCurrent.provides (h : f.IsCurrent d)
    (fits : ∀ tasks, (f.state d).tasks = .ok tasks → ∀ t ∈ tasks, t.FitsRow) :
    (f.source d).Provides (f.state d) := by
  obtain ⟨tasks, here, held⟩ := h
  rw [source_eq held]
  intro _ _ _ _
  exact ⟨_, Replica.snapshot_supply (Replication.State.distinct_of_tasks here) (fits tasks here) _⟩

end

/-! What is kept -/

/-- A cache that keeps nothing but an analyzer of what the file held at some time, under the
revision that it had then. -/
structure AnalyzerCache.Keeps (seen : Option Bytes → Prop) (options : AnalysisOptions)
    (c : AnalyzerCache) : Prop where
  options_eq : c.options = options
  entry : ∀ e ∈ c.entry, ∃ content tasks, seen content ∧
    Replication.State.tasks ⟨content, none⟩ = .ok tasks ∧
      e.1 = Replication.State.revision ⟨content, none⟩ ∧ Reads tasks options e.2.analyzer

/-- Two attempts at an analyzer that fail alike, or give analyzers that answer alike. -/
inductive AlikeOutcomes : Except Failure Analyzer → Except Failure Analyzer → Prop where
  | failed (e : Failure) : AlikeOutcomes (.error e) (.error e)
  | given {a b : Analyzer} (like : a.AnswersLike b) : AlikeOutcomes (.ok a) (.ok b)

namespace AnalyzerCache

variable {seen : Option Bytes → Prop} {options : AnalysisOptions} {x : Replication.State}
  {c c' : AnalyzerCache} {source : Source Failure}

theorem keeps_new (seen : Option Bytes → Prop) (options : AnalysisOptions) :
    Keeps seen options { options } :=
  ⟨rfl, fun _ kept => nomatch kept⟩

theorem Keeps.invalidate (h : Keeps seen options c) : Keeps seen options c.invalidate :=
  ⟨h.options_eq, fun _ kept => nomatch kept⟩

theorem Keeps.get (h : Keeps seen options c) (supplies : source.Supplies x) (now : seen x.content) :
    Keeps seen options (c.get source).2 := by
  obtain ⟨loads, serves⟩ := c.serves_get source
  generalize c.get source = outcome at serves ⊢
  obtain ⟨answer, c'⟩ := outcome
  cases serves with
  | unidentified => exact h
  | kept => exact h
  | unloaded => exact h
  | built identified _ loaded =>
    obtain rfl := supplies.revision identified
    obtain ⟨tasks, read, reads⟩ := supplies.snapshot identified loaded
    refine ⟨(c.generation_issue _ _).2.trans h.options_eq, fun e there => ?_⟩
    rcases mem_entry_issue there with old | ⟨stamp, new⟩
    · exact h.entry e old
    · refine ⟨x.content, tasks, now, read, (Option.some.inj stamp).symm, ?_⟩
      rw [new, ← h.options_eq]
      exact reads c.options

/-- What a cache hands out is an analyzer of the tasks of the file, where contents are told
apart. -/
theorem Keeps.reads (h : Keeps seen options c) (supplies : source.Supplies x) (now : seen x.content)
    (apart : Set.InjOn Store.revisionOf {b | seen (some b)}) {issue : Issue}
    (given : (c.get source).1 = .ok issue) : (∃ r, source.revision = .ok r) ∧
      ∃ tasks, x.tasks = .ok tasks ∧ Reads tasks options issue.analyzer := by
  obtain ⟨loads, serves⟩ := c.serves_get source
  generalize c.get source = outcome at serves given
  obtain ⟨answer, c'⟩ := outcome
  dsimp only at serves given
  subst given
  cases serves with
  | kept identified found =>
    obtain ⟨revision, rfl, there⟩ := lookup?_eq_some.1 found
    obtain ⟨content, tasks, was, read, stamp, reads⟩ := h.entry _ there
    have here := Option.some.inj (supplies.revision identified)
    obtain rfl := Replication.content_eq_of_revision apart now was (here.symm.trans stamp)
    exact ⟨⟨_, identified⟩, tasks, read, reads⟩
  | built identified _ loaded =>
    obtain ⟨tasks, read, reads⟩ := supplies.snapshot identified loaded
    rw [issue_fst, ← h.options_eq]
    exact ⟨⟨_, identified⟩, tasks, read, reads c.options⟩

/-- Where the tasks of the file can be had, a cache fails exactly as its source does. -/
theorem Keeps.get_eq_error_iff (h : Keeps seen options c) (supplies : source.Supplies x)
    (now : seen x.content) (apart : Set.InjOn Store.revisionOf {b | seen (some b)})
    (provides : source.Provides x) {e : Failure} : (c.get source).1 = .error e ↔
      source.revision = .error e ∨ (∃ r, source.revision = .ok r) ∧ source.snapshot = .error e := by
  obtain ⟨loads, serves⟩ := c.serves_get source
  cases outcome : (c.get source).1 with
  | error e' =>
    rw [outcome] at serves
    constructor
    · intro same
      exact Except.error.inj same ▸ serves.fails
    · intro fails
      rcases serves.fails with failed | ⟨⟨r, identified⟩, failed⟩
      · rw [failed] at fails
        simpa using fails
      · rw [identified, failed] at fails
        simpa using fails
  | ok issue =>
    obtain ⟨⟨r, identified⟩, tasks, read, -⟩ := h.reads supplies now apart outcome
    obtain ⟨s, loaded⟩ := provides identified read
    rw [identified, loaded]
    simp

/-- Whatever two caches keep, they hand out analyzers that answer alike, or fail alike. -/
theorem Keeps.alike (h : Keeps seen options c) (h' : Keeps seen options c')
    (supplies : source.Supplies x) (now : seen x.content)
    (apart : Set.InjOn Store.revisionOf {b | seen (some b)}) (provides : source.Provides x) :
    AlikeOutcomes ((c.get source).1.map (·.analyzer)) ((c'.get source).1.map (·.analyzer)) ∧
      ((∀ tasks, x.tasks = .ok tasks → ∀ t ∈ tasks, t.dependsOn.Nodup) →
        (c.get source).1.map (·.analyzer) = (c'.get source).1.map (·.analyzer)) := by
  have same {e : Failure} : (c.get source).1 = .error e ↔ (c'.get source).1 = .error e :=
    (h.get_eq_error_iff supplies now apart provides).trans
      (h'.get_eq_error_iff supplies now apart provides).symm
  cases outcome : (c.get source).1 with
  | error e =>
    rw [same.1 outcome]
    exact ⟨.failed e, fun _ => rfl⟩
  | ok issue =>
    cases outcome' : (c'.get source).1 with
    | error e =>
      rw [same.2 outcome'] at outcome
      contradiction
    | ok issue' =>
      obtain ⟨-, tasks, read, reads⟩ := h.reads supplies now apart outcome
      obtain ⟨-, tasks', read', reads'⟩ := h'.reads supplies now apart outcome'
      obtain rfl := Except.ok.inj (read.symm.trans read')
      have distinct := Replication.State.distinct_of_tasks read
      have presents := reads.presents distinct
      have presents' := reads'.presents distinct
      refine ⟨.given (presents.answersLike presents'), fun once => ?_⟩
      exact congrArg Except.ok
        ((presents.same (once tasks read)).trans (presents'.same (once tasks read)).symm)

end AnalyzerCache

end Precedence

import Mathlib.Data.List.Induction
import Precedence.Proofs.Refresh
/-!
What is done to tasks, one change after the other. A task tells when it was completed last, for as
long as it is not reopened. Only being reopened takes the time away, so a task that is given another
status after it was completed goes on to tell the time.
-/
namespace Precedence

namespace Task

/-- What can be done to a task. -/
inductive Change where
  | start
  | complete
  | fail
  | cancel
  | block
  | markReady
  | reopen
  | addDependency (p : TaskId)
  | removeDependency (p : TaskId)
  | setPriority (p : Priority)
  | setDuration (seconds : Option UInt64)
  | setDescription (description : String)
  deriving DecidableEq

namespace Change

def apply : Change → Task → Instant → Task
  | start => Task.start
  | complete => Task.complete
  | fail => Task.fail
  | cancel => Task.cancel
  | block => Task.block
  | markReady => Task.markReady
  | reopen => Task.reopen
  | addDependency p => fun t now => (t.addDependency? p now).getD t
  | removeDependency p => fun t now => (t.removeDependency? p now).getD t
  | setPriority p => fun t => t.setPriority p
  | setDuration seconds => fun t => t.setDuration seconds
  | setDescription description => fun t => t.setDescription description

/-- The status that a task gets, if it gets one. -/
def status? : Change → Option Status
  | start => some .running
  | complete => some .completed
  | fail => some .failed
  | cancel => some .cancelled
  | block => some .blocked
  | markReady => some .ready
  | reopen => some .pending
  | _ => none

end Change

/-- Changes and when they are made, the first one first. -/
abbrev Log := List (Change × Instant)

/-- For each task the change that it goes through, if it does, and when. -/
abbrev Changes := TaskId → Option (Change × Instant)

def after (t : Task) (log : Log) : Task := log.foldl (fun t x => x.1.apply t x.2) t

/-- The task was completed at a moment, and of what has been done since nothing completed it again
or reopened it. -/
structure Log.Completed (log : Log) (c : Instant) (since : Log) : Prop where
  split : ∃ before, log = before ++ (.complete, c) :: since
  standing : ∀ x ∈ since, x.1 ≠ .complete ∧ x.1 ≠ .reopen

/-- What a task tells of what has been done to it. Its completion time is that of the completion
that stands. Its status is that of a completed task as long as no other one was given since, and as
long as that is so, and no longer, the two go together. -/
structure Tells (t : Task) (log : Log) : Prop where
  completedAt_iff : ∀ c, t.completedAt = some c ↔ ∃ since, log.Completed c since
  completed_iff : t.status = .completed ↔
    ∃ c since, log.Completed c since ∧ ∀ x ∈ since, x.1.status? = none
  agree_iff : (t.completedAt.isSome ↔ t.status = .completed) ↔
    ∀ c since, log.Completed c since → ∀ x ∈ since, x.1.status? = none

section

variable {t u : Task} {log since since' : Log} {x : Change × Instant} {c c' : Instant}

/-- What is done last completes the task, or an earlier completion stands because it does not reopen
it either. -/
theorem completed_concat : Log.Completed (log ++ [x]) c since ↔ x = (.complete, c) ∧ since = [] ∨
    (x.1 ≠ .complete ∧ x.1 ≠ .reopen) ∧ ∃ rest, since = rest ++ [x] ∧ log.Completed c rest := by
  constructor
  · rintro ⟨⟨before, split⟩, standing⟩
    rcases List.eq_nil_or_concat' since with rfl | ⟨rest, y, rfl⟩
    · obtain ⟨-, last⟩ := List.append_inj' split rfl
      exact .inl ⟨List.singleton_inj.1 last, rfl⟩
    · rw [← List.cons_append, ← List.append_assoc] at split
      obtain ⟨earlier, last⟩ := List.append_inj' split rfl
      obtain rfl := List.singleton_inj.1 last
      obtain ⟨standing, kept⟩ := List.forall_mem_append.1 standing
      exact .inr ⟨kept x List.mem_cons_self, rest, rfl, ⟨before, earlier⟩, standing⟩
  · rintro (⟨rfl, rfl⟩ | ⟨kept, rest, rfl, ⟨before, rfl⟩, standing⟩)
    · exact ⟨⟨log, rfl⟩, fun _ hx => absurd hx List.not_mem_nil⟩
    · refine ⟨⟨before, List.append_assoc _ _ _⟩, ?_⟩
      exact List.forall_mem_append.2 ⟨standing, List.forall_mem_singleton.2 kept⟩

theorem not_completed_nil : ¬ Log.Completed [] c since := by
  rintro ⟨⟨before, split⟩, -⟩
  simp at split

theorem Log.Completed.unique (h : log.Completed c since) (h' : log.Completed c' since') :
    c = c' ∧ since = since' := by
  induction log using List.reverseRecOn generalizing since since' with
  | nil => exact absurd h not_completed_nil
  | append_singleton log x ih =>
    rcases completed_concat.1 h with ⟨rfl, rfl⟩ | ⟨kept, rest, rfl, earlier⟩
    · rcases completed_concat.1 h' with ⟨same, rfl⟩ | ⟨kept, -⟩
      · exact ⟨(Prod.mk.inj same).2, rfl⟩
      · exact absurd rfl kept.1
    · rcases completed_concat.1 h' with ⟨rfl, -⟩ | ⟨-, rest', rfl, earlier'⟩
      · exact absurd rfl kept.1
      · obtain ⟨same, rfl⟩ := ih earlier earlier'
        exact ⟨same, rfl⟩

/-- That a completed task has a completion time makes the two agree but for later changes of
status. -/
theorem tells_of (completedAt_iff : ∀ c, t.completedAt = some c ↔ ∃ since, log.Completed c since)
    (completed_iff : t.status = .completed ↔
      ∃ c since, log.Completed c since ∧ ∀ x ∈ since, x.1.status? = none) : t.Tells log where
  completedAt_iff
  completed_iff
  agree_iff := by
    constructor
    · intro agree c since stands
      have told := (completedAt_iff c).2 ⟨since, stands⟩
      obtain ⟨c', since', stands', quiet⟩ := completed_iff.1 (agree.1 (told ▸ rfl))
      obtain ⟨-, rfl⟩ := stands.unique stands'
      exact quiet
    · intro quiet
      constructor
      · intro told
        obtain ⟨c, told⟩ := Option.isSome_iff_exists.1 told
        obtain ⟨since, stands⟩ := (completedAt_iff c).1 told
        exact completed_iff.2 ⟨c, since, stands, quiet c since stands⟩
      · intro completed
        obtain ⟨c, since, stands, -⟩ := completed_iff.1 completed
        exact (completedAt_iff c).2 ⟨since, stands⟩ ▸ rfl

/-- The part of a task that its completion time and its status make. -/
def stage (t : Task) : Status × Option Instant := (t.status, t.completedAt)

theorem stage_apply (x : Change) (t : Task) (now : Instant) : (x.apply t now).stage =
    (x.status?.getD t.status,
      if x = .complete then some now else if x = .reopen then none else t.completedAt) := by
  cases x with
  | addDependency p =>
    unfold Change.apply Task.addDependency?
    dsimp only
    split <;> rfl
  | removeDependency p =>
    unfold Change.apply Task.removeDependency?
    dsimp only
    split <;> rfl
  | _ => rfl

theorem Tells.congr (h : t.Tells log) (same : u.stage = t.stage) : u.Tells log := by
  obtain ⟨status, completedAt⟩ := Prod.mk.inj same
  obtain ⟨completedAt_iff, completed_iff, -⟩ := h
  rw [← completedAt] at completedAt_iff
  rw [← status] at completed_iff
  exact tells_of completedAt_iff completed_iff

theorem tells_nil (new : t.stage = (.pending, none)) : t.Tells [] := by
  obtain ⟨status, completedAt⟩ := Prod.mk.inj new
  refine tells_of (fun c => ?_) ?_
  · rw [completedAt]
    exact iff_of_false nofun fun ⟨_, stands⟩ => not_completed_nil stands
  · rw [status]
    exact iff_of_false nofun fun ⟨_, _, stands, _⟩ => not_completed_nil stands

theorem status?_eq_completed {x : Change} (h : x.status? = some .completed) : x = .complete := by
  cases x <;> first | rfl | cases h

/-- Completing sets the time, reopening takes it away, and any other change leaves the completion
that stands where it is. -/
theorem Tells.step (h : t.Tells log) (x : Change × Instant) :
    (x.1.apply t x.2).Tells (log ++ [x]) := by
  obtain ⟨x, now⟩ := x
  obtain ⟨status, completedAt⟩ := Prod.mk.inj (stage_apply x t now)
  by_cases completes : x = .complete
  · subst completes
    have stands (c : Instant) (since : Log) :
        Log.Completed (log ++ [(.complete, now)]) c since ↔ now = c ∧ since = [] := by
      simp [completed_concat]
    refine tells_of (fun c => ?_) ?_
    · simp [completedAt, stands]
    · simp [status, stands, Change.status?]
  by_cases reopens : x = .reopen
  · subst reopens
    have fallen (c : Instant) (since : Log) :
        ¬ Log.Completed (log ++ [(.reopen, now)]) c since := by
      simp [completed_concat]
    refine tells_of (fun c => ?_) ?_
    · simp [completedAt, fallen]
    · simp [status, fallen, Change.status?]
  have stands (c : Instant) (since : Log) : Log.Completed (log ++ [(x, now)]) c since ↔
      ∃ rest, since = rest ++ [(x, now)] ∧ log.Completed c rest := by
    simp [completed_concat, completes, reopens]
  rw [if_neg completes, if_neg reopens] at completedAt
  refine tells_of (fun c => ?_) ?_
  · rw [completedAt, h.completedAt_iff]
    simp [stands]
  · rw [status]
    cases given : x.status? with
    | none =>
      rw [Option.getD_none, h.completed_iff]
      simp [stands, or_imp, forall_and, given]
    | some y =>
      have other : y ≠ .completed := by
        rintro rfl
        exact completes (status?_eq_completed given)
      simp [stands, other, or_imp, forall_and, given]

theorem Tells.after (h : t.Tells log) (more : Log) : (t.after more).Tells (log ++ more) := by
  induction more generalizing t log with
  | nil => rwa [List.append_nil]
  | cons x more ih =>
    rw [← List.singleton_append, ← List.append_assoc]
    exact ih (h.step x)

end

end Task

/-! Maps of tasks -/

namespace TaskMap

variable {m m' m'' : TaskMap} {change? : Task.Changes} {t u : Task}

/-- How a map is passed on: each task that is known has been changed as it is said, and tasks that
come in are new. -/
structure Passes (m m' : TaskMap) (change? : Task.Changes) : Prop where
  kept : ∀ id ∈ m.entries.map Task.id, id ∈ m'.entries.map Task.id
  known : ∀ id x, change? id = some x → id ∈ m.entries.map Task.id
  each : ∀ u ∈ m'.entries, u.id ∉ m.entries.map Task.id ∧ u.stage = (.pending, none) ∨
    ∃ t ∈ m.entries, t.id = u.id ∧ u.stage = (t.after (change? u.id).toList).stage

theorem passes_refl (m : TaskMap) : m.Passes m fun _ => none where
  kept _ h := h
  known _ _ h := nomatch h
  each u hu := .inr ⟨u, hu, rfl, rfl⟩

theorem passes_add (new : t.id ∉ m.entries.map Task.id) (stage : t.stage = (.pending, none)) :
    m.Passes (m.insert t) fun _ => none where
  kept _ h := mem_ids_insert.2 (.inl h)
  known _ _ h := nomatch h
  each u hu := by
    rw [m.entries_insert_new new] at hu
    rcases List.mem_append.1 hu with hu | hu
    · exact .inr ⟨u, hu, rfl, rfl⟩
    · obtain rfl := List.mem_singleton.1 hu
      exact .inl ⟨new, stage⟩

theorem passes_insert (ht : t ∈ m.entries) (id : u.id = t.id)
    (stage : u.stage = (t.after (change? t.id).toList).stage)
    (others : ∀ i ≠ t.id, change? i = none) : m.Passes (m.insert u) change? where
  kept _ h := mem_ids_insert.2 (.inl h)
  known i x h := by
    by_cases same : i = t.id
    · rw [same]
      exact List.mem_map_of_mem ht
    · rw [others i same] at h
      cases h
  each v hv := by
    rw [insert_entries ht id] at hv
    obtain ⟨w, hw, rfl⟩ := List.mem_map.1 hv
    rcases replacing_cases m.distinct ht id hw with ⟨rfl, e⟩ | ⟨other, e⟩
    · rw [e, id]
      exact .inr ⟨w, hw, rfl, stage⟩
    · have quiet := others w.id fun same => other (List.inj_on_of_nodup_map m.distinct hw ht same)
      rw [e, quiet]
      exact .inr ⟨w, hw, rfl, rfl⟩

theorem Passes.frame (h : m.Passes m' change?)
    (frame : m''.entries.map Task.withoutDepth = m'.entries.map Task.withoutDepth) :
    m.Passes m'' change? where
  kept i hi := ids_of_frame frame ▸ h.kept i hi
  known := h.known
  each u hu := by
    obtain ⟨v, hv, same⟩ := List.mem_map.1 (frame ▸ List.mem_map_of_mem (f := Task.withoutDepth) hu)
    have id : v.id = u.id := (congrArg Task.id same :)
    have stage : v.stage = u.stage := (congrArg Task.stage same :)
    rw [← id, ← stage]
    exact h.each v hv

/-- A map is shown that this one is passed on to. -/
def Passed (m : TaskMap) (shown : TaskMap → Prop) (change? : Task.Changes) : Prop :=
  ∃ m', shown m' ∧ m.Passes m' change?

variable {shown shown' : TaskMap → Prop}

theorem passed_self (here : shown m) : m.Passed shown fun _ => none := ⟨m, here, m.passes_refl⟩

theorem Passed.mono (h : m.Passed shown change?) (all : ∀ m, shown m → shown' m) :
    m.Passed shown' change? := by
  obtain ⟨m', here, passes⟩ := h
  exact ⟨m', all m' here, passes⟩

/-- The tasks of a map tell what has been done to them, and nothing has been done to others. -/
structure Tells (m : TaskMap) (log : TaskId → Task.Log) : Prop where
  each : ∀ t ∈ m.entries, t.Tells (log t.id)
  unknown : ∀ id ∉ m.entries.map Task.id, log id = []

theorem tells_empty : empty.Tells fun _ => [] :=
  ⟨fun _ ht => absurd ht List.not_mem_nil, fun _ _ => rfl⟩

theorem Tells.pass {log : TaskId → Task.Log} (h : m.Tells log) (passes : m.Passes m' change?) :
    m'.Tells fun id => log id ++ (change? id).toList := by
  have quiet {id : TaskId} (unknown : id ∉ m.entries.map Task.id) :
      log id ++ (change? id).toList = [] := by
    have unchanged : change? id = none :=
      Option.eq_none_iff_forall_ne_some.2 fun x e => unknown (passes.known id x e)
    rw [h.unknown id unknown, unchanged]
    rfl
  refine ⟨fun u hu => ?_, fun id unknown => quiet fun known => unknown (passes.kept id known)⟩
  rcases passes.each u hu with ⟨new, stage⟩ | ⟨t, ht, id, stage⟩
  · rw [quiet new]
    exact Task.tells_nil stage
  · rw [← id] at stage ⊢
    exact ((h.each t ht).after _).congr stage

end TaskMap

end Precedence

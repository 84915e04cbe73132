import Precedence.Proofs.Log
import Precedence.Proofs.Refusal
/-!
Completion times of stored tasks. Whatever command lines are run, a stored task tells how it was
moved by those that were not refused.
-/
namespace Precedence

/-! Commands -/

def Transition.change : Transition → Task.Change
  | start => .start
  | done => .complete
  | fail => .fail
  | cancel => .cancel
  | block => .block
  | reopen => .reopen

/-- The change of a task that a transition makes, for the identifier that is typed. -/
def Transition.change? (x : Transition) (raw : String) (now : Instant) : Task.Changes := fun id =>
  if TaskId.ofParameter raw = .ok id then some (x.change, now) else none

@[simp] theorem Transition.apply_change (x : Transition) : x.change.apply = x.apply := by
  cases x <;> rfl

namespace Command

open Precedence.Action

variable {α β : Type} {p : Project} {change? : Task.Changes} {d d' : Disk}
  {m m' : TaskMap} {tasks : List Task} {t u : Task} {now : Instant}

theorem stage_withPrerequisite {raw : String}
    (ok : withPrerequisite tasks now t raw d = (.ok u, d')) :
    u.stage = t.stage := by
  obtain ⟨p, c, -, h₁⟩ := bind_eq_ok ok
  obtain ⟨_, c₁, -, h₂⟩ := bind_eq_ok h₁
  obtain ⟨_, c₂, -, h₃⟩ := bind_eq_ok h₂
  obtain ⟨rfl, -⟩ := pure_eq_ok h₃
  exact Task.stage_apply (.addDependency p) t now

theorem stage_foldlM {raws : List String}
    (ok : raws.foldlM (withPrerequisite tasks now) t d = (.ok u, d')) : u.stage = t.stage := by
  induction raws generalizing t d with
  | nil =>
    obtain ⟨rfl, -⟩ := pure_eq_ok ok
    rfl
  | cons raw raws ih =>
    obtain ⟨v, c, first, rest⟩ := bind_eq_ok ok
    exact (ih rest).trans (stage_withPrerequisite first)

theorem stage_newTask {n : NewTask} (ok : newTask tasks now n d = (.ok t, d')) :
    t.stage = (.pending, none) := by
  obtain ⟨id, c, -, h₁⟩ := bind_eq_ok ok
  obtain ⟨_, c₁, -, h₂⟩ := bind_eq_ok h₁
  obtain ⟨priority, c₂, -, h₃⟩ := bind_eq_ok h₂
  obtain ⟨parent, c₃, -, h₄⟩ := bind_eq_ok h₃
  obtain ⟨u, c₄, linked, h₅⟩ := bind_eq_ok h₄
  obtain ⟨rfl, -⟩ := pure_eq_ok h₅
  exact stage_foldlM linked

@[simp] theorem stage_changed (priority : Option Priority) (duration : Option Nat)
    (description : Option String) (now : Instant) (t : Task) :
    (changed t priority duration description now).stage = t.stage := by
  cases priority <;> cases duration <;> cases description <;> rfl

/-- An action that, in a project, writes nothing but the store. It makes certain changes of tasks,
or fails and makes none. -/
structure Makes (p : Project) (change? : Task.Changes) (a : Action α) :
    Prop where
  within : Within p.root a
  ends : ∀ {d m}, p.store.place ∉ p.store.directory.way → p.store.Shows d m →
    Ends a d (fun _ d' => m.Passed (p.store.Shows d') change?) fun d' =>
      m.Passed (p.store.Shows d') fun _ => none

namespace Makes

theorem throw (f : Failure) : Makes p change? (throw f : Action β) where
  within := (still_throw f).within
  ends _ shows := ends_throw (TaskMap.passed_self shows)

theorem after {a : Action α} {f : α → Action β} (still : Still a)
    (rest : ∀ x, Makes p change? (f x)) :
    Makes p change? (a >>= f) where
  within := still.within.bind fun x => (rest x).within
  ends off shows := still.ends (TaskMap.passed_self shows) fun x _ => (rest x).ends off shows

theorem before {a : Action α} {f : α → Action β} (h : Makes p change? a)
    (rest : ∀ x, ∃ y, f x = Pure.pure y) : Makes p change? (a >>= f) where
  within := h.within.bind fun x => by
    obtain ⟨y, e⟩ := rest x
    rw [e]
    exact (still_pure y).within
  ends off shows := by
    refine .bind ((h.ends off shows).mono (fun x d' passed => ?_) fun _ => id)
    obtain ⟨y, e⟩ := rest x
    rw [e]
    exact ends_pure passed

theorem afterTyped {raw : String} {f : TaskId → Action β}
    (rest : ∀ id, TaskId.ofParameter raw = .ok id → Makes p change? (f id)) :
    Makes p change? (typedId raw >>= f) := by
  unfold typedId
  cases typed : TaskId.ofParameter raw with
  | error fault => exact throw _
  | ok id => exact rest id typed

end Makes

theorem makes_add (p : Project) (now : Instant) (n : NewTask) :
    Makes p (fun _ => none) (add p now n) where
  within := (careful_add p now n).within
  ends {d m} off shows := by
    refine shows.afterRead <|
      (still_newTask _ now n).ends (TaskMap.passed_self shows) fun t made => ?_
    obtain ⟨fits, -⟩ := fits_newTask made
    exact .bind ((Store.does_append off shows t).mono
      (fun _ d' done => ends_pure ⟨_, done.2.1, TaskMap.passes_add fits.new (stage_newTask made)⟩)
      fun _ failed => TaskMap.passed_self failed.1)

theorem makes_amend (p : Project) {id : TaskId} {change : Task → Task}
    (same : ∀ t, (change t).id = t.id)
    (stage : ∀ t, (change t).stage = (t.after (change? id).toList).stage)
    (others : ∀ i ≠ id, change? i = none) : Makes p change? (amend p id change) where
  within := (careful_amend p id change).within
  ends {d m} off shows := by
    refine shows.afterRead <| (still_stored _ id).ends (TaskMap.passed_self shows) fun t found => ?_
    obtain ⟨ht, rfl⟩ := mem_of_stored found
    exact .bind ((Store.updateMany_ends off shows [change t]).mono
      (fun _ d' written => ends_pure ⟨_, written.1, TaskMap.passes_insert ht (same t)
        (stage t) others⟩)
      fun _ failed => TaskMap.passed_self failed.1)

/-- Other prerequisites and other depths are nothing that a task tells of. -/
theorem rewire_passes (off : p.store.place ∉ p.store.directory.way) (shows : p.store.Shows d m)
    (ht : t ∈ m.entries) (id : u.id = t.id) (stage : u.stage = t.stage) :
    Ends (rewire p u) d (fun _ d' => m.Passed (p.store.Shows d') fun _ => none) fun d' =>
      m.Passed (p.store.Shows d') fun _ => none := by
  have passes : m.Passes (m.insert u) fun _ => none :=
    TaskMap.passes_insert ht id stage fun _ _ => rfl
  refine .bind ((Store.updateMany_ends off shows [u]).mono (fun _ d' written => ?_)
    fun _ failed => TaskMap.passed_self failed.1)
  refine .bind ((Project.refreshDepths_ends written.1 written.2).mono (fun _ d'' done => ?_)
    fun _ never => never.elim)
  obtain ⟨m', shows', refreshed⟩ := done
  exact ends_pure ⟨m', shows', passes.frame refreshed.frame⟩

theorem makes_depend (p : Project) (now : Instant) (t q : TaskId) :
    Makes p (fun _ => none) (depend p now t q) where
  within := (careful_depend p now t q).within
  ends {d m} off shows := by
    have unchanged : m.Passed (p.store.Shows d) fun _ => none :=
      TaskMap.passed_self shows
    refine shows.afterRead <| (still_settle _).ends unchanged fun cycle _ => ?_
    cases cycle with
    | some cycle => exact ends_throw unchanged
    | none =>
      refine (still_stored _ t).ends unchanged fun u found => ?_
      cases added : u.addDependency? q now with
      | none => exact ends_pure unchanged
      | some v =>
        obtain ⟨-, rfl⟩ := addDependency?_eq_some added
        exact rewire_passes off shows (mem_of_stored found).1 rfl rfl

theorem makes_undepend (p : Project) (now : Instant) (t q : TaskId) :
    Makes p (fun _ => none) (undepend p now t q) where
  within := (careful_undepend p now t q).within
  ends {d m} off shows := by
    have unchanged : m.Passed (p.store.Shows d) fun _ => none :=
      TaskMap.passed_self shows
    refine shows.afterRead <| (still_stored _ t).ends unchanged fun u found => ?_
    cases removed : u.removeDependency? q now with
    | none => exact ends_throw unchanged
    | some v =>
      obtain rfl := removeDependency?_eq_some removed
      exact rewire_passes off shows (mem_of_stored found).1 rfl rfl

end Command

/-! The project that is worked on -/

/-- Whether the store of the project that is worked on is kept in the same place. -/
def Store.isHere (s : Store) (env : Environment) (d : Disk) : Bool :=
  (Project.openHere env d).1.toOption.any fun p => d.resolve p.store.path = .ok s.place

namespace Command

open Precedence.Action

variable {α : Type} {change? : Task.Changes} {s : Store} {d : Disk}
  {m : TaskMap} {env : Environment} {backend : Option Backend}

theorem here_passes {f : Project → Action α} (h : ∀ p, Makes p change? (f p))
    (stands : s.Stands d m) :
    Ends (Project.openHere env >>= f) d
      (fun _ d' => m.Passed (s.Stands d') (if s.isHere env d then change? else fun _ => none))
      fun d' => m.Passed (s.Stands d') fun _ => none := by
  refine Project.still_openHere.ends (TaskMap.passed_self stands) fun p opened => ?_
  have isRoot := Project.isRoot_of_openHere opened
  rcases leads_or_misses s isRoot with ⟨same, there⟩ | misses
  · have isHere : s.isHere env d := by
      rw [Store.isHere, opened, same]
      exact decide_eq_true there
    have stands' : p.store.Stands d m := stands.of_noted? (by rw [same])
    rw [if_pos isHere]
    have back {d' : Disk} (m' : TaskMap) (shows : p.store.Shows d' m') : s.Stands d' m' :=
      shows.stands.of_noted? (by rw [same])
    exact ((h p).ends (off_of_free isRoot stands'.free) (stands'.shows there)).mono
      (fun _ _ passed => passed.mono back) fun _ passed => passed.mono back
  · have isElsewhere : ¬ s.isHere env d := by
      rw [Store.isHere, opened]
      intro isHere
      have there := of_decide_eq_true isHere
      exact misses.2 (Disk.eq_location_of_resolve there) (Disk.pathFault?_of_resolve there)
    rw [if_neg isElsewhere, ends_iff]
    exact TaskMap.passed_self (stands.of_noted? (((h p).within d isRoot).2 _ misses))

theorem here_keeps {f : Project → Action α} (h : ∀ p, Makes p (fun _ => none) (f p))
    (stands : s.Stands d m) :
    m.Passed (s.Stands ((Project.openHere env >>= f) d).2) fun _ => none := by
  refine ends_iff.1 ((here_passes h stands).mono (fun _ d' passed => ?_) fun _ => id)
  rwa [ite_self] at passed

theorem move_passes (env : Environment) (clock : Clock) (backend : Option Backend) (x : Transition)
    (raw : String) (stands : s.Stands d m) :
    Ends ((Command.task (.move x raw)).run env clock backend) d
      (fun _ d' => m.Passed (s.Stands d')
        (if s.isHere env d then x.change? raw clock.now else fun _ => none))
      fun d' => m.Passed (s.Stands d') fun _ => none := by
  refine here_passes (fun p => .afterTyped fun id typed => .before
    (makes_amend p (fun t => (same_apply x clock.now t).1) (fun t => ?_) fun i other => ?_)
    fun _ => ⟨_, rfl⟩) stands
  · rw [Transition.change?, if_pos typed, ← x.apply_change]
    rfl
  · rw [Transition.change?, if_neg]
    exact fun typed' => other (Except.ok.inj (typed'.symm.trans typed))

/-- A command that does not move a task lets all tasks stand as they are, and may bring a new one
in. -/
theorem run_keeps (clock : Clock) {c : Command} (other : ∀ path, c ≠ .init path)
    (stays : ∀ x raw, c ≠ .task (.move x raw)) (stands : s.Stands d m) :
    m.Passed (s.Stands (c.run env clock backend d).2) fun _ => none := by
  have asked (asks : c.asks) : m.Passed (s.Stands (c.run env clock backend d).2) fun _ => none :=
    TaskMap.passed_self (stands.of_noted? (spares_run clock asks d).same)
  cases c with
  | init path => exact absurd rfl (other path)
  | task c =>
    cases c with
    | move x raw => exact absurd rfl (stays x raw)
    | add n => exact here_keeps (fun p => (makes_add p clock.now n).before fun _ => ⟨_, rfl⟩) stands
    | set raw change =>
      exact here_keeps (fun p => .afterTyped fun id _ =>
        .after (still_mapM? fun _ => still_settle _) fun priority =>
          (makes_amend p (fun t => (same_changed priority _ _ clock.now t).1)
            (stage_changed priority _ _ clock.now) fun _ _ => rfl).before fun _ => ⟨_, rfl⟩) stands
    | depend t q =>
      exact here_keeps (fun p => .afterTyped fun t _ => .afterTyped fun q _ =>
        (makes_depend p clock.now t q).before fun _ => ⟨_, rfl⟩) stands
    | undepend t q =>
      exact here_keeps (fun p => .afterTyped fun t _ => .afterTyped fun q _ =>
        (makes_undepend p clock.now t q).before fun _ => ⟨_, rfl⟩) stands
    | _ => exact asked rfl
  | _ => exact asked rfl

end Command

/-! Command lines -/

namespace CommandLine

/-- The change of a task that a command line makes, if it moves a task that is kept in a place, and
is not refused. -/
def move? (x : CommandLine) (s : Store) (d : Disk) : Task.Changes :=
  match Arguments.parse x.args with
  | .ok { command := .task (.move y raw), .. } =>
    if s.isHere x.env d ∧ x.exitCode d = 0 then y.change? raw x.clock.now else fun _ => none
  | _ => fun _ => none

/-- How command lines move a task that is kept in a place. -/
def moves (s : Store) (id : TaskId) : Disk → List CommandLine → Task.Log
  | _, [] => []
  | d, x :: lines => (x.move? s d id).toList ++ moves s id (x.after d) lines

/-- A command line is done if its command answers, without a failure, and else it is refused. -/
theorem exit_cases {x : CommandLine} {i : Invocation} {d : Disk} {P Q : Disk → Prop}
    (parsed : Arguments.parse x.args = .ok i)
    (h : Action.Ends (i.command.run x.env x.clock i.backend) d
      (fun answer d' => answer.failure = none ∧ P d') Q) :
    x.exitCode d = 0 ∧ P (x.after d) ∨ x.exitCode d ≠ 0 ∧ Q (x.after d) := by
  rw [after_of_parse parsed, exitCode, runArguments, parsed]
  show (i.run x.env x.clock d).1.code = 0 ∧ _ ∨ (i.run x.env x.clock d).1.code ≠ 0 ∧ _
  unfold Action.Ends at h
  unfold Invocation.run
  cases run : i.command.run x.env x.clock i.backend d with
  | mk r d' =>
    rw [run] at h
    cases r with
    | ok answer =>
      obtain ⟨answers, done⟩ := h
      dsimp only
      rw [answers]
      exact .inl ⟨rfl, done⟩
    | error f => exact .inr ⟨Nat.one_ne_zero, h⟩

theorem move?_of_stays {x : CommandLine} {i : Invocation} (parsed : Arguments.parse x.args = .ok i)
    (stays : ∀ y raw, i.command ≠ .task (.move y raw)) (s : Store) (d : Disk) :
    x.move? s d = fun _ => none := by
  rw [move?, parsed]
  split
  · next e =>
    cases e
    exact absurd rfl (stays _ _)
  · rfl

theorem move?_of_init {x : CommandLine} {root : Path} (target : x.target? = some root) (s : Store)
    (d : Disk) : x.move? s d = fun _ => none := by
  unfold target? at target
  split at target
  · next path parsed =>
    apply move?_of_stays parsed
    intro y raw move
    cases move
  · contradiction

variable {s : Store} {d : Disk} {m : TaskMap}

theorem move_after {x : CommandLine} {format : Option OutputFormat} {verbose : Bool}
    {backend : Option Backend} {y : Transition} {raw : String}
    (parsed : Arguments.parse x.args = .ok ⟨format, verbose, backend, .task (.move y raw)⟩)
    (stands : s.Stands d m) : m.Passed (s.Stands (x.after d)) (x.move? s d) := by
  have passes := Command.move_passes x.env x.clock backend y raw stands
  have ends := (Command.run_ends (s := s) x.clock backend rfl d).and passes
  rw [move?, parsed]
  rcases exit_cases parsed (ends.mono (fun _ _ => id) fun _ => And.right) with
    ⟨done, passed⟩ | ⟨refused, passed⟩
  · simp only [done, and_true]
    exact passed
  · dsimp only
    rw [if_neg fun both => refused both.2]
    exact passed

theorem passes_after (x : CommandLine) (stands : s.Stands d m) :
    m.Passed (s.Stands (x.after d)) (x.move? s d) ∨
      x.covers s.place ∧ (x.after d).noted? s.place = some .directory := by
  cases target : x.target? with
  | some root =>
    rw [move?_of_init target]
    rcases spares_or_covers target s d with spares | ⟨covers, -, directory⟩
    · exact .inl (TaskMap.passed_self (stands.of_noted? spares.same))
    · exact .inr ⟨covers, directory⟩
  | none =>
    left
    cases parsed : Arguments.parse x.args with
    | error stop =>
      rw [after_of_stop parsed, move?, parsed]
      exact TaskMap.passed_self stands
    | ok i =>
      obtain ⟨format, verbose, backend, command⟩ := i
      by_cases moves : ∃ y raw, command = .task (.move y raw)
      · obtain ⟨y, raw, rfl⟩ := moves
        exact move_after parsed stands
      · have other (path : String) : command ≠ .init path := by
          rintro rfl
          rw [target?, parsed] at target
          cases target
        have stays (y : Transition) (raw : String) : command ≠ .task (.move y raw) :=
          fun e => moves ⟨y, raw, e⟩
        rw [move?_of_stays parsed stays, after_of_parse parsed]
        exact Command.run_keeps x.clock other stays stands

/-- Tasks that tell what was done to them go on to do so, or a line puts a directory in the place of
the file. -/
theorem tells_foldl (lines : List CommandLine) {log : TaskId → Task.Log} (stands : s.Stands d m)
    (tells : m.Tells log) :
    (∃ m', s.Stands (lines.foldl after d) m' ∧ m'.Tells fun id => log id ++ moves s id d lines) ∨
      (∃ x ∈ lines, x.covers s.place) ∧
        (lines.foldl after d).noted? s.place = some .directory := by
  induction lines generalizing d m log with
  | nil =>
    simp only [moves, List.append_nil]
    exact .inl ⟨m, stands, tells⟩
  | cons x lines ih =>
    rcases passes_after x stands with ⟨m', stands', passes⟩ | ⟨covers, directory⟩
    · have told := ih stands' (tells.pass passes)
      simp only [List.append_assoc] at told
      apply told.imp_right
      rintro ⟨⟨y, hy, covers⟩, directory⟩
      exact ⟨⟨y, List.mem_cons_of_mem x hy, covers⟩, directory⟩
    · exact .inr ⟨⟨x, List.mem_cons_self, covers⟩, extends_foldl s lines _ _ directory⟩

/-- A task that was just made tells whatever is done to it then, in any order. So do stored tasks,
from a disk without a file of tasks on, whatever command lines are run, where and when, and whether
or not they are refused, unless one of them put a directory in the place of the file. -/
theorem completion_told {root : Path} {d : Disk}
    (absent : d.noted? (Store.ofRoot root).path.location = none) (lines : List CommandLine) :
    (∀ id description now log, ((Task.create id description now).after log).Tells log) ∧
      ((∃ tasks, (Store.ofRoot root).load (lines.foldl after d) = .ok tasks ∧
          ∀ t ∈ tasks, t.Tells (moves (.ofRoot root) t.id d lines)) ∨
        (∃ x ∈ lines, x.covers (Store.ofRoot root).path.location) ∧
          (lines.foldl after d).noted? (Store.ofRoot root).path.location = some .directory) := by
  refine ⟨fun id description now log => (Task.tells_nil rfl).after log,
    (tells_foldl lines (.inl ⟨absent, rfl⟩) TaskMap.tells_empty).imp_left ?_⟩
  rintro ⟨m, stands, tells⟩
  rcases stands.load with loaded | loaded
  · exact ⟨m.entries, loaded, tells.each⟩
  · exact ⟨[], loaded, fun _ ht => absurd ht List.not_mem_nil⟩

def restartLines : List CommandLine :=
  [sample ["task", "add", "x", "--id", "a"], sample ["task", "done", "a"],
    sample ["task", "start", "a"]]

open TaskMap in
theorem completion_told_in_new_project :
    newProject.noted? (Store.ofRoot ⟨"/p", []⟩).path.location = none ∧
      ((Task.create a "x" leapDay).after [(.complete, leapDay), (.start, leapDay)]).Tells
        [(.complete, leapDay), (.start, leapDay)] ∧
      ∃ tasks, (Store.ofRoot ⟨"/p", []⟩).load (restartLines.foldl after newProject) = .ok tasks ∧
        ∀ t ∈ tasks, t.Tells (moves (.ofRoot ⟨"/p", []⟩) t.id newProject restartLines) := by
  have absent : newProject.noted? (Store.ofRoot ⟨"/p", []⟩).path.location = none := by
    decide +kernel
  have uncovered : ¬ ∃ x ∈ restartLines, x.covers (Store.ofRoot ⟨"/p", []⟩).path.location := by
    decide +kernel
  obtain ⟨made, stored⟩ := completion_told absent restartLines
  exact ⟨absent, made a "x" leapDay _, stored.resolve_right fun covered => uncovered covered.1⟩

open TaskMap in
/-- A task that is started again after it was completed is running, and has a completion time. -/
theorem completion_outlives_restart :
    let t := (Task.create a "x" leapDay).after [(.complete, leapDay), (.start, leapDay)]
    ¬ (t.completedAt.isSome ↔ t.status = .completed) := by
  decide

end CommandLine

end Precedence

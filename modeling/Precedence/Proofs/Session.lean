import Precedence.Proofs.Upkeep
/-!
Runs of command lines. Whatever lines are run, where and when, the tasks of a project stay
consistent. Only making another project can spoil that, by putting a directory in the place of the
file before there is one.
-/
namespace Precedence

namespace Store

variable {s : Store} {d d' : Disk} {m : TaskMap}

/-- What is noted in the place of the file stands for a map. -/
def Stands (s : Store) (d : Disk) (m : TaskMap) : Prop :=
  d.noted? s.place = none ∧ m = .empty ∨
    ∃ records, d.noted? s.place = some (.file (encode records)) ∧ view records = m

theorem Shows.stands (h : s.Shows d m) : s.Stands d m := by
  obtain ⟨records, holds, rfl⟩ := h
  rcases holds with ⟨absent, rfl⟩ | file
  · exact .inl ⟨absent, rfl⟩
  · exact .inr ⟨records, (Disk.noted?_of_look file).2, rfl⟩

theorem Stands.shows (h : s.Stands d m) (there : d.resolve s.path = .ok s.place) : s.Shows d m := by
  rcases h with ⟨absent, rfl⟩ | ⟨records, file, rfl⟩
  · exact shows_of_absent absent
  · refine ⟨records, .inr ?_, rfl⟩
    rw [Disk.look, there]
    exact congrArg Except.ok file

theorem Stands.free (h : s.Stands d m) : d.noted? s.place ≠ some .directory := by
  rcases h with ⟨absent, -⟩ | ⟨records, file, -⟩
  · rw [absent]
    rintro ⟨⟩
  · rw [file]
    rintro ⟨⟩

theorem Stands.of_noted? {s' : Store} (h : s.Stands d m)
    (same : d'.noted? s'.place = d.noted? s.place) : s'.Stands d' m := by
  rwa [Stands, same]

/-- The tasks of the map can be loaded, or there are none because no path leads to the file. -/
theorem Stands.load (h : s.Stands d m) : s.load d = .ok m.entries ∨ s.load d = .ok [] := by
  cases there : d.resolve s.path with
  | ok l =>
    obtain rfl := Disk.eq_location_of_resolve there
    exact .inl (h.shows there).load
  | error fault =>
    right
    rw [Store.load, Disk.exists?, Disk.find?, Disk.look, there]
    rfl

/-- The place of the file holds tidy tasks that record the right depths, or nothing. -/
def IsSound (s : Store) (d : Disk) : Prop := ∃ m, s.Stands d m ∧ Tidy m.entries ∧ Settled m.entries

theorem isSound_of_absent (absent : d.noted? s.place = none) : s.IsSound d :=
  ⟨.empty, .inl ⟨absent, rfl⟩, tidy_nil, settled_nil⟩

theorem IsSound.load (h : s.IsSound d) : ∃ tasks, s.load d = .ok tasks ∧ Consistent tasks := by
  obtain ⟨m, stands, tidy, settled⟩ := h
  rcases stands.load with loaded | loaded
  · exact ⟨m.entries, loaded, settled.consistent tidy⟩
  · exact ⟨[], loaded, settled_nil.consistent tidy_nil⟩

/-- One disk comes from the other by changes that keep all directories, and a sound store sound. -/
structure Follows (s : Store) (d d' : Disk) : Prop where
  keeps : d.Extends d'
  sound : s.IsSound d → s.IsSound d'

theorem follows_of_spares (h : Disk.Spares s.place d d') : s.Follows d d' :=
  ⟨h.keeps, fun ⟨m, stands, order⟩ => ⟨m, stands.of_noted? h.same, order⟩⟩

end Store

namespace Command

open Precedence.Action

variable {α β : Type} {s : Store} {env : Environment} {backend : Option Backend} {p : Project}

theorem Upholds.after {a : Action α} {f : α → Action β} (still : Still a)
    (h : ∀ x, Upholds p (f x)) : Upholds p (a >>= f) where
  within := still.within.bind fun x => (h x).within
  order order := order.after still fun x _ => (h x).order order

theorem Upholds.before {a : Action α} {f : α → Action β} (h : Upholds p a)
    (still : ∀ x, Still (f x)) : Upholds p (a >>= f) where
  within := h.within.bind fun x => (still x).within
  order order := by
    rw [snd_bind_of_still still]
    exact h.order order

/-- The file of the project that is worked on is the one that is watched, and a path leads to it, or
the one that is watched is left alone. -/
theorem leads_or_misses (s : Store) {d : Disk} (isRoot : Configuration.isRoot d p.root) :
    s.place = p.store.place ∧ d.resolve p.store.path = .ok p.store.place ∨
      p.store.Misses s.place := by
  by_cases shared : s.place = p.store.place ∧ Disk.pathFault? p.store.path = none
  · obtain ⟨same, clean⟩ := shared
    exact .inl ⟨same, Disk.resolve_join Store.isName_file (by decide +kernel) clean
      (Configuration.walk_of_isRoot isRoot) (Configuration.resolve_of_isRoot isRoot).2⟩
  · exact .inr ⟨s.place_ne_join _ Store.isName_draft (by decide),
      fun same clean => shared ⟨same, clean⟩⟩

theorem off_of_free {d : Disk} (isRoot : Configuration.isRoot d p.root)
    (free : d.noted? p.store.place ≠ some .directory) : p.store.place ∉ p.store.directory.way :=
  fun on => free (Configuration.directory_of_mem_way isRoot on)

theorem follows_here {f : Project → Action α} (h : ∀ p, Upholds p (f p)) (d : Disk) :
    s.Follows d ((Project.openHere env >>= f) d).2 := by
  apply Project.afterHere (P := s.Follows d) (Store.follows_of_spares (.refl _ d))
  intro p isRoot
  obtain ⟨keeps, untouched⟩ := (h p).within d isRoot
  refine ⟨keeps, fun ⟨m, stands, tidy, settled⟩ => ?_⟩
  rcases leads_or_misses s isRoot with ⟨same, there⟩ | misses
  · have stands' : p.store.Stands d m := stands.of_noted? (by rw [same])
    obtain ⟨m', order⟩ :=
      (h p).order ⟨off_of_free isRoot stands'.free, stands'.shows there, tidy, settled⟩
    exact ⟨m', order.shows.stands.of_noted? (by rw [same]), order.tidy, order.settled⟩
  · exact ⟨m, stands.of_noted? (untouched _ misses), tidy, settled⟩

theorem same_apply (x : Transition) (now : Instant) (t : Task) :
    (x.apply t now).id = t.id ∧ (x.apply t now).parent = t.parent ∧
      (x.apply t now).dependsOn = t.dependsOn ∧ (x.apply t now).depth = t.depth := by
  cases x <;> exact ⟨rfl, rfl, rfl, rfl⟩

theorem same_changed (priority : Option Priority) (duration : Option Nat)
    (description : Option String)
    (now : Instant) (t : Task) : (changed t priority duration description now).id = t.id ∧
      (changed t priority duration description now).parent = t.parent ∧
      (changed t priority duration description now).dependsOn = t.dependsOn ∧
      (changed t priority duration description now).depth = t.depth := by
  cases priority <;> cases duration <;> cases description <;> exact ⟨rfl, rfl, rfl, rfl⟩

theorem follows_run (clock : Clock) {c : Command} (other : ∀ path, c ≠ .init path) (d : Disk) :
    s.Follows d (c.run env clock backend d).2 := by
  have asked (asks : c.asks) : s.Follows d (c.run env clock backend d).2 :=
    Store.follows_of_spares (spares_run clock asks d)
  cases c with
  | init path => exact absurd rfl (other path)
  | task c =>
    cases c with
    | add n =>
      exact follows_here (fun p => (upholds_add p clock.now n).before fun _ => still_pure _) d
    | move x raw =>
      exact follows_here (fun p => .after (still_typedId raw) fun id =>
        (upholds_amend p id (same_apply x clock.now)).before fun _ => still_pure _) d
    | set raw change =>
      exact follows_here (fun p => .after (still_typedId raw) fun id =>
        .after (still_mapM? fun _ => still_settle _) fun priority =>
          (upholds_amend p id (same_changed priority _ _ clock.now)).before fun _ => still_pure _) d
    | depend t q =>
      exact follows_here (fun p => .after (still_typedId t) fun t =>
        .after (still_typedId q) fun q =>
          (upholds_depend p clock.now t q).before fun _ => still_pure _) d
    | undepend t q =>
      exact follows_here (fun p => .after (still_typedId t) fun t =>
        .after (still_typedId q) fun q =>
          (upholds_undepend p clock.now t q).before fun _ => still_pure _) d
    | _ => exact asked rfl
  | _ => exact asked rfl

end Command

namespace Project

open Precedence.Action

variable {s : Store} {d : Disk}

theorem spares_provide {p : Path} {deed : Deed} {content : String} (other : s.place ≠ p.location)
    (d : Disk) : Disk.Spares s.place d (provide p deed content d).2 := by
  apply still_get.after (P := Disk.Spares s.place d) (.refl _ d)
  intro c got
  split
  · unfold change
    split
    · next e => exact Disk.place_spares e other
    · exact .refl _ d
  · exact .refl _ d

theorem isName_settings : Path.IsName "config.toml" := by constructor <;> decide

theorem isName_ignores : Path.IsName ".gitignore" := by constructor <;> decide

/-- Making a project leaves the file of every store alone once its directories were made. -/
theorem spares_init (env : Environment) (root : Path) (d : Disk) :
    Disk.Spares s.place (d.makeDirectories (Configuration.dataDirectory root)).2
      (init env root d).2 := by
  refine snd_bind ?_ fun _ c h => snd_bind ?_ fun _ c h => snd_bind ?_ fun _ c h => ?_
  · unfold makeDirectories
    split
    · next e => rw [e]; exact .refl _ _
    · next e => rw [e]; exact .refl _ _
  · exact h.trans (spares_provide (s.place_ne_join _ isName_settings (by decide)) c)
  · exact h.trans (spares_provide (s.place_ne_join _ isName_ignores (by decide)) c)
  · rw [still_open root c]
    exact h

end Project

/-- A command line, and where and when it is run. -/
structure CommandLine where
  env : Environment
  clock : Clock
  args : List String

namespace CommandLine

def after (d : Disk) (x : CommandLine) : Disk := (runArguments x.env x.clock x.args d).2

def target? (x : CommandLine) : Option Path :=
  match Arguments.parse x.args with
  | .ok { command := .init path, .. } => some ⟨path, x.env.here.location⟩
  | _ => none

/-- Whether a command line makes a project whose data directory is in a place or below it. -/
def covers (x : CommandLine) (place : Location) : Bool :=
  x.target?.any fun root => (Configuration.dataDirectory root).way.contains place

theorem snd_run (i : Invocation) (env : Environment) (clock : Clock) (d : Disk) :
    (i.run env clock d).2 = (i.command.run env clock i.backend d).2 := by
  unfold Invocation.run
  cases i.command.run env clock i.backend d with
  | mk r d' =>
    cases r with
    | error f => rfl
    | ok answer =>
      dsimp only
      split <;> rfl

theorem after_of_parse {x : CommandLine} {i : Invocation} (parsed : Arguments.parse x.args = .ok i)
    (d : Disk) : x.after d = (i.command.run x.env x.clock i.backend d).2 := by
  rw [after, runArguments, parsed]
  exact snd_run i x.env x.clock d

theorem after_of_stop {x : CommandLine} {stop : Arguments.Stop}
    (parsed : Arguments.parse x.args = .error stop) (d : Disk) : x.after d = d := by
  rw [after, runArguments, parsed]
  cases stop <;> rfl

theorem follows_after {x : CommandLine} (noTarget : x.target? = none) (s : Store) (d : Disk) :
    s.Follows d (x.after d) := by
  cases parsed : Arguments.parse x.args with
  | error stop =>
    rw [after_of_stop parsed]
    exact Store.follows_of_spares (.refl _ d)
  | ok i =>
    rw [after_of_parse parsed]
    refine Command.follows_run x.clock (fun path asked => ?_) d
    obtain ⟨format, verbose, backend, command⟩ := i
    obtain rfl : command = .init path := asked
    rw [target?, parsed] at noTarget
    contradiction

theorem spares_after {x : CommandLine} {root : Path} (target : x.target? = some root) (s : Store)
    (d : Disk) : Disk.Spares s.place (d.makeDirectories (Configuration.dataDirectory root)).2
      (x.after d) := by
  unfold target? at target
  split at target
  · next path parsed =>
    obtain rfl := Option.some.inj target
    rw [after_of_parse parsed, Command.run, Action.snd_bind_of_still fun _ => Action.still_pure _]
    exact Project.spares_init x.env _ d
  · contradiction

/-- Making a project leaves the file of a store alone, or puts a directory in its place. -/
theorem spares_or_covers {x : CommandLine} {root : Path} (target : x.target? = some root)
    (s : Store) (d : Disk) : Disk.Spares s.place d (x.after d) ∨
      x.covers s.place ∧ d.Extends (x.after d) ∧ (x.after d).noted? s.place = some .directory := by
  have spares := spares_after target s d
  have keeps := (d.makeDirectories_keeps (Configuration.dataDirectory root)).trans spares.keeps
  rcases d.makeDirectories_noted? (Configuration.dataDirectory root) s.place with
    same | ⟨-, on, directory⟩
  · exact .inl ⟨keeps, spares.same.trans same⟩
  · refine .inr ⟨?_, keeps, spares.same.trans directory⟩
    rw [covers, target]
    exact List.contains_iff_mem.2 on

theorem after_cases (x : CommandLine) (s : Store) (d : Disk) : s.Follows d (x.after d) ∨
    x.covers s.place ∧ d.Extends (x.after d) ∧ (x.after d).noted? s.place = some .directory := by
  cases target : x.target? with
  | none => exact .inl (follows_after target s d)
  | some root => exact (spares_or_covers target s d).imp_left Store.follows_of_spares

theorem extends_foldl (s : Store) (lines : List CommandLine) (d : Disk) :
    d.Extends (lines.foldl after d) := by
  induction lines generalizing d with
  | nil => exact .refl d
  | cons x lines ih =>
    exact ((after_cases x s d).elim Store.Follows.keeps fun covered => covered.2.1).trans (ih _)

/-- A run of command lines keeps a sound store sound, or one of them puts a directory in the place
of the file. -/
theorem foldl_cases (lines : List CommandLine) {s : Store} {d : Disk} (sound : s.IsSound d) :
    s.IsSound (lines.foldl after d) ∨ (∃ x ∈ lines, x.covers s.place) ∧
      (lines.foldl after d).noted? s.place = some .directory := by
  induction lines generalizing d with
  | nil => exact .inl sound
  | cons x lines ih =>
    rcases after_cases x s d with follows | ⟨covers, -, directory⟩
    · apply (ih (follows.sound sound)).imp_right
      rintro ⟨⟨y, hy, covers⟩, directory⟩
      exact ⟨⟨y, List.mem_cons_of_mem x hy, covers⟩, directory⟩
    -- A directory that is in the place stays there.
    · exact .inr ⟨⟨x, List.mem_cons_self, covers⟩, extends_foldl s lines _ _ directory⟩

/-- From a disk without a file of tasks on, whatever command lines are run, where and when, and
whether or not they are refused: the tasks can be loaded and are consistent, unless one of the lines
made a project whose data directory covers the place of the file, so that a directory is there. -/
theorem tasks_stay_consistent {root : Path} {d : Disk}
    (absent : d.noted? (Store.ofRoot root).path.location = none) (lines : List CommandLine) :
    (∃ tasks, (Store.ofRoot root).load (lines.foldl after d) = .ok tasks ∧ Consistent tasks) ∨
      (∃ x ∈ lines, x.covers (Store.ofRoot root).path.location) ∧
        (lines.foldl after d).noted? (Store.ofRoot root).path.location = some .directory :=
  (foldl_cases lines (Store.isSound_of_absent absent)).imp_left Store.IsSound.load

def sample (args : List String) : CommandLine where
  env := { here := ⟨"/p", []⟩, userDirectory := none }
  clock := { now := TaskMap.leapDay, elapsed := 0 }
  args

def newProject : Disk :=
  ⟨[(["p", ".dagplan", ".gitignore"], .file (Bytes.ofText Project.ignores)),
    (["p", ".dagplan", "config.toml"], .file (Bytes.ofText Project.defaultSettings)),
    (["p", ".dagplan"], .directory), (["p"], .directory)]⟩

def sampleLines : List CommandLine :=
  [sample ["task", "add", "x", "--id", "a"],
    sample ["task", "add", "y", "--id", "b", "--after", "a"],
    sample ["task", "dep", "a", "b"], sample ["task", "done", "a"], sample ["init"],
    sample ["task", "undep", "b", "a"]]

theorem tasks_stay_consistent_in_new_project :
    newProject.noted? (Store.ofRoot ⟨"/p", []⟩).path.location = none ∧
      ∃ tasks, (Store.ofRoot ⟨"/p", []⟩).load (sampleLines.foldl after newProject) = .ok tasks ∧
        Consistent tasks := by
  have absent : newProject.noted? (Store.ofRoot ⟨"/p", []⟩).path.location = none := by
    decide +kernel
  have uncovered : ¬ ∃ x ∈ sampleLines, x.covers (Store.ofRoot ⟨"/p", []⟩).path.location := by
    decide +kernel
  exact ⟨absent, (tasks_stay_consistent absent sampleLines).resolve_right fun covered =>
    uncovered covered.1⟩

/-- A project that is made below the place of the file puts a directory there, and nothing can be
loaded from it. -/
theorem tasks_lost_to_directory :
    newProject.noted? (Store.ofRoot ⟨"/p", []⟩).path.location = none ∧
      (Store.ofRoot ⟨"/p", []⟩).load
          ([sample ["init", ".dagplan/tasks.jsonl"]].foldl after newProject) =
        .error (.disk (.readLine 1) .isDirectory) := by
  have target : (sample ["init", ".dagplan/tasks.jsonl"]).target? =
      some ⟨".dagplan/tasks.jsonl", ["p"]⟩ := by decide +kernel
  have made : (newProject.makeDirectories
      (Configuration.dataDirectory ⟨".dagplan/tasks.jsonl", ["p"]⟩)).2.isDirectory
        (Store.ofRoot ⟨"/p", []⟩).path := by decide +kernel
  have spares := spares_after target (Store.ofRoot ⟨"/p", []⟩) newProject
  refine ⟨by decide +kernel, ?_⟩
  rw [List.foldl_cons, List.foldl_nil]
  exact Store.load_of_isDirectory (spares.keeps.isDirectory made)

end CommandLine

end Precedence

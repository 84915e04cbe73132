import Precedence.Proofs.Refresh
import Precedence.Proofs.Session
/-!
Refusals. A command that is refused has not touched the file of any store, whatever that holds: a
command that writes fails before it writes, and one that writes twice cannot fail the second time.
-/
namespace Precedence

namespace Store

open Precedence.Action

variable {s : Store} {d : Disk}

/-- What is in the place of the file, unless it is a directory. -/
def content? (s : Store) (d : Disk) : Option Entry := (d.noted? s.place).filter (· ≠ .directory)

theorem content?_of_spares {d' : Disk} (h : Disk.Spares s.place d d') :
    s.content? d' = s.content? d := by
  rw [content?, h.same, content?]

theorem content?_of_directory (directory : d.noted? s.place = some .directory) :
    s.content? d = none := by
  rw [content?, directory]
  rfl

theorem append_spares (off : s.place ∉ s.directory.way) (t : Task) :
    Ends (s.append t) d (fun _ _ => True) (Disk.Spares s.place d) := by
  have spared := d.makeDirectories_spares (.inr off)
  refine .bind (ends_makeDirectories (fun d' made => ends_change (fun _ _ => trivial) fun _ _ => ?_)
    fun _ d' failed => ?_)
  · rwa [made] at spared
  · rwa [failed] at spared

/-- A task is put among those that can be loaded, or the file is left as it is; where they can be
loaded and the disk is ready it is put there. -/
theorem update_ends (off : s.place ∉ s.directory.way) (t : Task) : Ends (s.update t) d
    (fun _ d' => ∃ m : TaskMap, s.load d = .ok m.entries ∧ s.Shows d' (m.insert t) ∧ s.Ready d')
    fun d' => Disk.Spares s.place d d' ∧ ∀ tasks, s.load d = .ok tasks → ¬ s.Ready d := by
  refine .bind (ends_ask (fun tasks loaded => ?_)
    fun fault failed => ⟨.refl _ d, fun tasks loaded => ?_⟩)
  · obtain ⟨m, rfl⟩ := exists_map_of_load loaded
    rw [foldl_put_entries]
    exact (s.writeAll_ends _ off).mono
      (fun _ _ done => ⟨m, loaded, ⟨_, done.1, view_entries _⟩, done.2⟩)
      fun _ failed => ⟨failed.1, fun _ _ => failed.2⟩
  · rw [failed] at loaded
    cases loaded

end Store

namespace Project

/-- Making a project puts a directory in the place of a file, if anything, and only where nothing
is. -/
theorem content?_init {s : Store} (env : Environment) (root : Path) (d : Disk) :
    s.content? (init env root d).2 = s.content? d := by
  rw [Store.content?_of_spares (spares_init env root d)]
  rcases d.makeDirectories_noted? (Configuration.dataDirectory root) s.place with
    same | ⟨absent, -, directory⟩
  · rw [Store.content?, same, Store.content?]
  · rw [Store.content?_of_directory directory, Store.content?, absent]
    rfl

end Project

namespace Command

open Precedence.Action

variable {α β : Type} {p : Project} {P : β → Prop} {s : Store} {env : Environment} {now : Instant}

/-- An action on a project that writes nothing but the store, and gives a certain result or has left
the file alone. -/
structure Careful (p : Project) (P : α → Prop) (a : Action α) : Prop where
  within : Within p.root a
  ends : ∀ d, Ends a d (fun x _ => P x) fun d' =>
    p.store.place ∉ p.store.directory.way → Disk.Spares p.store.place d d'

namespace Careful

theorem pure {x : β} (h : P x) : Careful p P (pure x) where
  within := (still_pure x).within
  ends _ := ends_pure h

theorem throw (f : Failure) : Careful p P (throw f) where
  within := (still_throw f).within
  ends d := ends_throw fun _ => .refl _ d

theorem after {a : Action α} {f : α → Action β} (still : Still a) (rest : ∀ x, Careful p P (f x)) :
    Careful p P (a >>= f) where
  within := still.within.bind fun x => (rest x).within
  ends d := still.ends (fun _ => .refl _ d) fun x _ => (rest x).ends d

theorem before {a : Action α} {f : α → Action β} (h : Careful p (fun _ => True) a)
    (rest : ∀ x, ∃ y, f x = Pure.pure y ∧ P y) : Careful p P (a >>= f) where
  within := h.within.bind fun x => by
    obtain ⟨y, e, -⟩ := rest x
    rw [e]
    exact (still_pure y).within
  ends d := by
    refine .bind ((h.ends d).mono (fun x d' _ => ?_) fun _ => id)
    obtain ⟨y, e, result⟩ := rest x
    rw [e]
    exact ends_pure result

theorem of_ends {a : Action α} (within : Within p.root a)
    (h : p.store.place ∉ p.store.directory.way →
      ∀ d, Ends a d (fun _ _ => True) (Disk.Spares p.store.place d)) :
    Careful p (fun _ => True) a where
  within
  ends d := by
    by_cases off : p.store.place ∉ p.store.directory.way
    · exact (h off d).mono (fun _ _ _ => trivial) fun _ spared _ => spared
    · unfold Ends
      split
      · trivial
      · exact fun other => absurd other off

end Careful

theorem careful_append (p : Project) (t : Task) : Careful p (fun _ => True) (p.store.append t) :=
  .of_ends (Store.within_append t) fun off _ => Store.append_spares off t

theorem careful_update (p : Project) (t : Task) : Careful p (fun _ => True) (p.store.update t) :=
  .of_ends (Store.within_update t) fun off _ =>
    (Store.update_ends off t).mono (fun _ _ _ => trivial) fun _ failed => failed.1

/-- Depths are brought up to date only once the task was written, and then that cannot fail. -/
theorem careful_rewire (p : Project) (t : Task) : Careful p (fun _ => True) (rewire p t) := by
  refine .of_ends (within_rewire p t) fun off d => ?_
  refine .bind ((Store.update_ends off t).mono (fun _ d' written => ?_) fun _ failed => failed.1)
  obtain ⟨m, -, shows, ready⟩ := written
  exact .bind ((Project.refreshDepths_ends shows ready).mono (fun _ _ _ => ends_pure trivial)
    fun _ never => never.elim)

theorem careful_add (p : Project) (now : Instant) (n : NewTask) :
    Careful p (fun _ => True) (add p now n) :=
  .after (still_ask _) fun tasks => .after (still_newTask tasks now n) fun t =>
    (careful_append p t).before fun _ => ⟨t, rfl, trivial⟩

theorem careful_amend (p : Project) (id : TaskId) (change : Task → Task) :
    Careful p (fun _ => True) (amend p id change) :=
  .after (still_ask _) fun tasks => .after (still_stored tasks id) fun t =>
    (careful_update p (change t)).before fun _ => ⟨change t, rfl, trivial⟩

theorem careful_depend (p : Project) (now : Instant) (t q : TaskId) :
    Careful p (fun _ => True) (depend p now t q) := by
  refine .after (still_ask _) fun tasks => .after (still_settle _) fun cycle => ?_
  split
  · exact .throw _
  · refine .after (still_stored tasks t) fun u => ?_
    split
    · exact careful_rewire p _
    · exact .pure trivial

theorem careful_undepend (p : Project) (now : Instant) (t q : TaskId) :
    Careful p (fun _ => True) (undepend p now t q) := by
  refine .after (still_ask _) fun tasks => .after (still_stored tasks t) fun u => ?_
  split
  · exact careful_rewire p _
  · exact .throw _

/-- What a command answers on the project that is worked on, or else no file has changed. -/
theorem ends_here {f : Project → Action Answer}
    (h : ∀ p, Careful p (fun x : Answer => x.failure = none) (f p)) (d : Disk) :
    Ends (Project.openHere env >>= f) d (fun x _ => x.failure = none)
      fun d' => s.content? d' = s.content? d := by
  refine Project.still_openHere.ends rfl fun p opened => ?_
  have isRoot := Project.isRoot_of_openHere opened
  have wrote := (h p).within d isRoot
  refine (((h p).ends d).snd (P := fun d' => d.Extends d' ∧
    ∀ l, p.store.Misses l → d'.noted? l = d.noted? l) wrote).mono (fun _ _ => And.left) ?_
  rintro d' ⟨spared, keeps, untouched⟩
  rcases leads_or_misses s isRoot with ⟨same, -⟩ | misses
  · by_cases directory : d.noted? s.place = some .directory
    · rw [Store.content?_of_directory (keeps _ directory), Store.content?_of_directory directory]
    · apply Store.content?_of_spares
      rw [same] at directory ⊢
      exact spared (off_of_free isRoot directory)
  · rw [Store.content?, untouched _ misses, Store.content?]

/-- A command answers without a failure, or has left the file of every store alone, unless it asks
something. -/
theorem run_ends (clock : Clock) (backend : Option Backend) {c : Command} (changes : c.asks = false)
    (d : Disk) : Ends (c.run env clock backend) d (fun x _ => x.failure = none)
      fun d' => s.content? d' = s.content? d := by
  cases c with
  | init path =>
    have made := Project.content?_init (s := s) env ⟨path, env.here.location⟩ d
    have ends := ends_iff (P := fun d' => s.content? d' = s.content? d).2 made
    exact .bind (ends.mono (fun _ _ _ => ends_pure rfl) fun _ => id)
  | task c =>
    cases c with
    | add n =>
      exact ends_here (fun p => (careful_add p clock.now n).before fun _ => ⟨_, rfl, rfl⟩) d
    | move x raw =>
      exact ends_here (fun p => .after (still_typedId raw) fun id =>
        (careful_amend p id _).before fun _ => ⟨_, rfl, rfl⟩) d
    | set raw change =>
      exact ends_here (fun p => .after (still_typedId raw) fun id =>
        .after (still_mapM? fun _ => still_settle _) fun priority =>
          (careful_amend p id _).before fun _ => ⟨_, rfl, rfl⟩) d
    | depend t q =>
      exact ends_here (fun p => .after (still_typedId t) fun t => .after (still_typedId q) fun q =>
        (careful_depend p clock.now t q).before fun _ => ⟨_, rfl, rfl⟩) d
    | undepend t q =>
      exact ends_here (fun p => .after (still_typedId t) fun t => .after (still_typedId q) fun q =>
        (careful_undepend p clock.now t q).before fun _ => ⟨_, rfl, rfl⟩) d
    | _ => contradiction
  | _ => contradiction

end Command

namespace CommandLine

/-- Asks something, or is not even understood. -/
def asks (x : CommandLine) : Bool :=
  match Arguments.parse x.args with
  | .ok i => i.command.asks
  | .error _ => true

def exitCode (x : CommandLine) (d : Disk) : Nat := (runArguments x.env x.clock x.args d).1.code

theorem run_ends {i : Invocation} {env : Environment} {clock : Clock} {d : Disk} {Q : Disk → Prop}
    (h : Action.Ends (i.command.run env clock i.backend) d (fun x _ => x.failure = none) Q)
    (refused : (i.run env clock d).1.code ≠ 0) : Q (i.run env clock d).2 := by
  unfold Action.Ends at h
  unfold Invocation.run at refused ⊢
  cases run : i.command.run env clock i.backend d with
  | mk r d' =>
    rw [run] at h refused
    cases r with
    | error f => exact h
    | ok answer =>
      dsimp only at h refused
      rw [h] at refused
      exact absurd rfl refused

end CommandLine

end Precedence

import Mathlib.Data.Set.Function
import Precedence.Proofs.Opening
/-!
A replica that is not stale mirrors the store. Projects are opened, replicas are filled and emptied,
and the file of the store is changed by others in between; what is on the disk then is told by the
content of that file and the rows of the replica, and every stamp was taken with the rows beside it
from a content that the file has had.
-/
namespace Precedence

theorem Store.revisionOf_ne_absent (b : Bytes) : revisionOf b ≠ "absent" := by
  intro same
  have colon : ':' ∈ (revisionOf b).toList := by simp [revisionOf]
  rw [same] at colon
  revert colon
  decide

abbrev Project.replica (p : Project) : ReplicaFile := ⟨p.root⟩

namespace Replication

/-- What is done to a project, one after the other. -/
inductive Event where
  | opening
  | refill
  | freshen
  | clear
  /-- Somebody writes the file of the store, or takes it away. -/
  | edit (content : Option Bytes)

def Event.run (p : Project) : Event → Action Unit
  | opening => do
    let _ ← ReplicaFile.open p.root
  | refill => do
    let _ ← p.refilledReplica
  | freshen => do
    let _ ← p.freshReplica
  | clear => p.replica.clear
  | edit (some b) => modify fun d => d.put p.store.place (.file b)
  | edit none => modify fun d => d.erase p.store.place

/-- The disk after some events, whether or not they succeed. -/
def after (p : Project) (es : List Event) (d : Disk) : Disk :=
  es.foldl (fun d e => (e.run p d).2) d

/-- The file of the store, if there is one, and the rows of the replica, if it has been opened. -/
structure State where
  content : Option Bytes
  tables : Option Replica := none

namespace State

def revision (x : State) : String := x.content.elim "absent" Store.revisionOf

def tasks (x : State) : Except Failure (List Task) := x.content.elim (.ok []) Store.decode

def isFresh (x : State) : Bool := x.tables.bind Replica.revision = some x.revision

def opened (x : State) : State := { x with tables := some (x.tables.getD {}) }

def refilled (x : State) : State :=
  match x.tasks with
  | .ok tasks => { x with tables := some (.ofTasks tasks x.revision) }
  | .error _ => x.opened

def step (x : State) : Event → State
  | .opening => x.opened
  | .refill => x.refilled
  | .freshen => if x.isFresh then x else x.refilled
  | .clear => { x with tables := x.tables.map fun _ => {} }
  | .edit content => { x with content }

theorem exists_of_isFresh {x : State} (h : x.isFresh) :
    ∃ r, x.tables = some r ∧ r.revision = some x.revision :=
  Option.bind_eq_some_iff.1 (of_decide_eq_true h)

theorem opened_eq_self {x : State} {r : Replica} (h : x.tables = some r) : x.opened = x := by
  cases x
  cases h
  rfl

theorem opened_of_isFresh {x : State} (h : x.isFresh) : x.opened = x := by
  obtain ⟨r, held, -⟩ := exists_of_isFresh h
  exact opened_eq_self held

@[simp] theorem content_refilled (x : State) : x.refilled.content = x.content := by
  unfold refilled
  split <;> rfl

theorem refilled_of_error {x : State} {fault : Failure} (h : x.tasks = .error fault) :
    x.refilled = x.opened := by
  rw [refilled, h]

theorem isFresh_refilled {x : State} {tasks : List Task} (h : x.tasks = .ok tasks) :
    x.refilled.isFresh = true := by
  rw [refilled, h]
  exact decide_eq_true rfl

@[simp] theorem revision_freshen (x : State) : (x.step .freshen).revision = x.revision := by
  rw [step, revision]
  split
  · rfl
  · rw [content_refilled]
    rfl

theorem isFresh_freshen {x : State} (h : x.isFresh = true ∨ ∃ tasks, x.tasks = .ok tasks) :
    (x.step .freshen).isFresh = true := by
  rw [step]
  split
  · assumption
  · next stale =>
    obtain ⟨tasks, read⟩ := h.resolve_left stale
    exact isFresh_refilled read

end State

/-! A state on the disk -/

open Precedence.Action ReplicaFile

structure Shows (f : ReplicaFile) (d : Disk) (x : State) : Prop where
  ready : f.Ready d
  file : d.noted? f.store.place = x.content.map .file
  replica : f.Holds d x.tables

variable {p : Project} {f : ReplicaFile} {d : Disk} {x : State}

theorem Shows.look (h : Shows f d x) : d.look f.store.path = .ok (x.content.map .file) := by
  rw [Disk.look, h.ready.reach_store]
  exact congrArg Except.ok h.file

theorem Shows.exists? (h : Shows f d x) : d.exists? f.store.path = x.content.isSome := by
  rw [Disk.exists?, Disk.find?, h.look]
  cases x.content <;> rfl

theorem Shows.read {b : Bytes} (h : Shows f d x) (content : x.content = some b) :
    d.read f.store.path = .ok b := by
  apply Disk.read_of_look
  rw [h.look, content]
  rfl

theorem Shows.load (h : Shows f d x) : f.store.load d = x.tasks := by
  rw [Store.load, h.exists?, State.tasks]
  cases content : x.content with
  | none => rfl
  | some b =>
    rw [h.read content]
    rfl

theorem Shows.revision (h : Shows f d x) : f.store.revision d = .ok x.revision := by
  rw [Store.revision, h.exists?, State.revision]
  cases content : x.content with
  | none => rfl
  | some b =>
    rw [h.read content]
    rfl

/-! What is done to a replica -/

theorem Shows.opening (h : Shows f d x) :
    ∃ d', ReplicaFile.open f.root d = (.ok f, d') ∧ Shows f d' x.opened := by
  obtain ⟨d', opened, ready, replica, spared⟩ := open_run h.ready h.replica
  exact ⟨d', opened, ready, spared.same.trans h.file, replica⟩

theorem Shows.replace {r : Replica} (h : Shows f d { x with tables := some r }) (r' : Replica) :
    ∃ d', f.replace r' d = (.ok (), d') ∧ Shows f d' { x with tables := some r' } := by
  obtain ⟨d', replaced, ready, replica, spared⟩ := replace_run h.ready h.replica r'
  exact ⟨d', replaced, ready, spared.same.trans h.file, replica⟩

theorem Shows.refill (h : Shows f d x.opened) :
    ∃ d', f.refill d = (x.tasks.map fun _ => (), d') ∧ Shows f d' x.refilled := by
  have revision : f.currentRevision d = (.ok x.revision, d) := by
    rw [currentRevision, ask_run, h.revision]
    rfl
  have read : f.store.readAll d = (x.tasks, d) := by
    rw [Store.readAll, ask_run, h.load]
    rfl
  rw [ReplicaFile.refill, bind_ok revision, bind_run, read, State.refilled]
  cases x.tasks with
  | error fault => exact ⟨d, rfl, h⟩
  | ok tasks => exact h.replace (.ofTasks tasks x.revision)

theorem Shows.refilled (h : Shows p.replica d x) :
    ∃ d', p.refilledReplica d = (x.tasks.map fun _ => p.replica, d') ∧
      Shows p.replica d' x.refilled := by
  obtain ⟨c, opened, shows⟩ := h.opening
  obtain ⟨d', filled, shows'⟩ := shows.refill
  refine ⟨d', ?_, shows'⟩
  rw [Project.refilledReplica, bind_ok opened, bind_run, filled]
  cases x.tasks <;> rfl

theorem Shows.load_replica {r : Replica} (h : Shows f d { x with tables := some r })
    (t : Replica.Table) : f.load t d = .ok r := h.replica.load h.ready t

theorem Shows.isStale (h : Shows f d x.opened) : f.isStale d = (.ok !x.isFresh, d) := by
  have read : f.read .stamp d = (.ok (x.tables.getD {}), d) := by
    rw [ReplicaFile.read, ask_run, h.load_replica]
  have revision : f.currentRevision d = (.ok x.revision, d) := by
    rw [currentRevision, ask_run, h.revision]
    rfl
  have stamp : x.tables.bind Replica.revision = (x.tables.getD {}).revision := by
    cases x.tables <;> rfl
  rw [ReplicaFile.isStale, bind_ok read, State.isFresh, stamp]
  by_cases unstamped : (x.tables.getD {}).revision = none
  · rw [if_pos unstamped, unstamped]
    rfl
  · rw [if_neg unstamped, bind_ok revision, Replica.isStale, pure_run, bne, beq_eq_decide]

/-- Nothing can be read of a replica that has not been opened. -/
theorem Shows.load_unopened (h : Shows f d x) (unopened : x.tables = none) (t : Replica.Table) :
    ∃ fault, f.load t d = .error fault := by
  have absent : d.noted? f.path.location = none := by
    have replica := h.replica
    rwa [unopened] at replica
  rw [ReplicaFile.load, ReplicaFile.image, ReplicaFile.content, if_neg h.ready.short, Disk.look]
  cases there : d.resolve f.path with
  | error fault => exact ⟨_, rfl⟩
  | ok l =>
    obtain rfl := Disk.eq_location_of_resolve there
    rw [Except.map, absent]
    exact ⟨_, rfl⟩

theorem Shows.isStale_eq_false_iff (h : Shows f d x) :
    (f.isStale d).1 = .ok false ↔ x.isFresh = true := by
  cases tables : x.tables with
  | none =>
    obtain ⟨fault, failed⟩ := h.load_unopened tables .stamp
    have read : f.read .stamp d = (.error fault, d) := by
      rw [ReplicaFile.read, ask_run, failed]
    rw [ReplicaFile.isStale, bind_run, read, State.isFresh, tables]
    simp
  | some r =>
    rw [(State.opened_eq_self tables ▸ h : Shows f d x.opened).isStale]
    simp

theorem Shows.freshened (h : Shows p.replica d x) : ∃ d', p.freshReplica d =
    (if x.isFresh then .ok p.replica else x.tasks.map fun _ => p.replica, d') ∧
      Shows p.replica d' (x.step .freshen) := by
  obtain ⟨c, opened, shows⟩ := h.opening
  rw [Project.freshReplica, bind_ok opened, bind_ok shows.isStale, State.step]
  by_cases fresh : x.isFresh
  · rw [State.opened_of_isFresh fresh] at shows
    rw [fresh]
    exact ⟨c, rfl, shows⟩
  · rw [Bool.not_eq_true] at fresh
    obtain ⟨d', filled, shows'⟩ := shows.refill
    rw [fresh]
    refine ⟨d', ?_, shows'⟩
    show (p.replica.refill >>= fun _ => pure p.replica) c = _
    rw [bind_run, filled]
    cases x.tasks <;> rfl

theorem Shows.cleared (h : Shows f d x) : Shows f (f.clear d).2 (x.step .clear) := by
  cases tables : x.tables with
  | none =>
    obtain ⟨fault, failed⟩ := h.load_unopened tables .edges
    have read : f.read .edges d = (.error fault, d) := by
      rw [ReplicaFile.read, ask_run, failed]
    have still : (f.clear d).2 = d := by
      rw [ReplicaFile.clear, ReplicaFile.replace, bind_run, read]
    have absent : f.Holds d none := tables ▸ h.replica
    rw [still, State.step, tables]
    exact ⟨h.ready, h.file, absent⟩
  | some r =>
    have held : f.Holds d (some r) := tables ▸ h.replica
    have shows : Shows f d { x with tables := some r } := ⟨h.ready, h.file, held⟩
    obtain ⟨d', cleared, shows'⟩ := shows.replace {}
    rw [ReplicaFile.clear, cleared, State.step, tables]
    exact shows'

/-- Nobody who writes the file of the store or takes it away gets in the way of the replica. -/
theorem Shows.edited (h : Shows p.replica d x) (content : Option Bytes) :
    Shows p.replica ((Event.edit content).run p d).2 (x.step (.edit content)) := by
  have free : d.noted? p.store.place ≠ some .directory := by
    rw [show d.noted? p.store.place = x.content.map .file from h.file]
    cases x.content <;> simp
  have directory := p.replica.store_ne_directory
  have beside (y : Sidecar) := y.place_ne p.store p.replica
  have other := p.replica.place_ne.symm
  cases content with
  | none =>
    exact ⟨h.ready.erase free directory beside, Disk.noted?_erase_self d (Disk.ne_nil_of_free free),
      h.replica.spared (Disk.spares_erase free other)⟩
  | some b =>
    exact ⟨h.ready.put free directory beside, Disk.noted?_put_self d (Disk.ne_nil_of_free free) _,
      h.replica.spared (Disk.spares_put free other)⟩

theorem Shows.step (h : Shows p.replica d x) (e : Event) :
    Shows p.replica (e.run p d).2 (x.step e) := by
  cases e with
  | opening =>
    obtain ⟨d', opened, shows⟩ := h.opening
    rw [Event.run, bind_ok opened]
    exact shows
  | refill =>
    obtain ⟨d', refilled, shows⟩ := h.refilled
    rw [Event.run, snd_bind_of_still fun _ => still_pure _, refilled]
    exact shows
  | freshen =>
    obtain ⟨d', freshened, shows⟩ := h.freshened
    rw [Event.run, snd_bind_of_still fun _ => still_pure _, freshened]
    exact shows
  | clear => exact h.cleared
  | edit content => exact h.edited content

theorem Shows.after (h : Shows p.replica d x) (es : List Event) :
    Shows p.replica (after p es d) (es.foldl State.step x) := by
  induction es generalizing d x with
  | nil => exact h
  | cons e es ih => exact ih (h.step e)

/-! Stamps -/

variable {seen : Option Bytes → Prop}

/-- Contents that have revisions of their own are told apart by them; so is the absence of one. -/
theorem content_eq_of_revision (apart : Set.InjOn Store.revisionOf {b | seen (some b)})
    {c c' : Option Bytes} (was : seen c) (was' : seen c')
    (same : State.revision ⟨c, none⟩ = State.revision ⟨c', none⟩) : c = c' := by
  rw [State.revision, State.revision] at same
  cases c with
  | none =>
    cases c' with
    | none => rfl
    | some b => exact absurd same.symm (Store.revisionOf_ne_absent b)
  | some b =>
    cases c' with
    | none => exact absurd same (Store.revisionOf_ne_absent b)
    | some b' => exact congrArg some (apart was was' same)

/-- The rows have a stamp only if they are those of a content that the file has had, which then is
what the stamp was taken of. -/
def Descends (seen : Option Bytes → Prop) (r : Replica) : Prop :=
  r.revision ≠ none → ∃ content tasks, seen content ∧
    State.tasks ⟨content, none⟩ = .ok tasks ∧ r = .ofTasks tasks (State.revision ⟨content, none⟩)

theorem descends_empty (seen : Option Bytes → Prop) : Descends seen {} :=
  fun stamped => absurd rfl stamped

theorem descends_ofTasks {tasks : List Task} (now : seen x.content) (read : x.tasks = .ok tasks) :
    Descends seen (.ofTasks tasks x.revision) := fun _ => ⟨x.content, tasks, now, read, rfl⟩

theorem Descends.mono {seen' : Option Bytes → Prop} {r : Replica} (h : Descends seen r)
    (more : ∀ c, seen c → seen' c) : Descends seen' r := by
  intro stamped
  obtain ⟨content, tasks, was, rest⟩ := h stamped
  exact ⟨content, tasks, more content was, rest⟩

/-- Rows with the stamp of a content are those of that content, where contents are told apart. -/
theorem Descends.eq_ofTasks {r : Replica} (h : Descends seen r)
    (apart : Set.InjOn Store.revisionOf {b | seen (some b)}) (now : seen x.content)
    (stamp : r.revision = some x.revision) :
    ∃ tasks, x.tasks = .ok tasks ∧ r = .ofTasks tasks x.revision := by
  obtain ⟨content, tasks, was, read, rfl⟩ := h (by rw [stamp]; simp)
  obtain rfl := content_eq_of_revision apart was now (Option.some.inj stamp)
  exact ⟨tasks, read, rfl⟩

/-- Whatever is in the file has been there, and the rows descend from something that has. -/
structure Faithful (seen : Option Bytes → Prop) (x : State) : Prop where
  content : seen x.content
  tables : ∀ {r}, x.tables = some r → Descends seen r

theorem Faithful.opened (h : Faithful seen x) : Faithful seen x.opened := by
  refine ⟨h.content, fun {r} held => ?_⟩
  cases tables : x.tables with
  | none =>
    rw [State.opened, tables] at held
    cases held
    exact descends_empty seen
  | some r' =>
    rw [State.opened, tables] at held
    exact h.tables (tables.trans held)

theorem Faithful.refilled (h : Faithful seen x) : Faithful seen x.refilled := by
  unfold State.refilled
  split
  · next tasks read =>
    refine ⟨h.content, fun held => ?_⟩
    cases held
    exact descends_ofTasks h.content read
  · exact h.opened

theorem Faithful.step (h : Faithful seen x) {e : Event} (new : ∀ {c}, e = .edit c → seen c) :
    Faithful seen (x.step e) := by
  cases e with
  | opening => exact h.opened
  | refill => exact h.refilled
  | freshen =>
    rw [State.step]
    split
    · exact h
    · exact h.refilled
  | clear =>
    refine ⟨h.content, fun {r} held => ?_⟩
    obtain ⟨_, -, rfl⟩ := Option.map_eq_some_iff.1 held
    exact descends_empty seen
  | edit content => exact ⟨new rfl, h.tables⟩

theorem Faithful.run (h : Faithful seen x) {es : List Event} (new : ∀ {c}, .edit c ∈ es → seen c) :
    Faithful seen (es.foldl State.step x) := by
  induction es generalizing x with
  | nil => exact h
  | cons e es ih =>
    refine ih (h.step fun {c} same => ?_) fun there => new (List.mem_cons_of_mem e there)
    exact new (same ▸ List.mem_cons_self)

/-- Where contents have revisions of their own, a fresh replica has the rows of the present one. -/
theorem Faithful.exists_tasks (h : Faithful seen x)
    (apart : Set.InjOn Store.revisionOf {b | seen (some b)}) (fresh : x.isFresh) :
    ∃ tasks, x.tasks = .ok tasks ∧ x.tables = some (.ofTasks tasks x.revision) := by
  obtain ⟨r, held, stamp⟩ := State.exists_of_isFresh fresh
  obtain ⟨tasks, read, rfl⟩ := (h.tables held).eq_ofTasks apart h.content stamp
  exact ⟨tasks, read, held⟩

/-! What a replica is to its project -/

structure Mirrors (p : Project) (d : Disk) : Prop where
  /-- A replica that is not stale holds what it would be filled with. -/
  fresh : (p.replica.isStale d).1 = .ok false →
    (∃ tasks revision, p.store.load d = .ok tasks ∧ p.store.revision d = .ok revision ∧
      ∀ t, p.replica.load t d = .ok (.ofTasks tasks revision)) ∧
    ∀ t, p.replica.load t (p.refilledReplica d).2 = p.replica.load t d
  /-- A fresh replica is to be had if there is one or the store can be read, and only then. -/
  succeeds : (∃ f, (p.freshReplica d).1 = .ok f) ↔
    (p.replica.isStale d).1 = .ok false ∨ ∃ tasks, p.store.load d = .ok tasks
  freshened : ∀ {f d'}, p.freshReplica d = (.ok f, d') → (f.isStale d').1 = .ok false ∧
    p.store.revision d' = p.store.revision d ∧
      ∃ r, (∀ t, f.load t d' = .ok r) ∧ (p.store.revision d').map some = .ok r.revision
  /-- Where the store cannot be read, rows and stamp stay, and the replica stays stale. -/
  kept : ∀ {fault}, p.store.load d = .error fault →
    ∀ a ∈ [p.refilledReplica, p.freshReplica], ∃ d', a d = (.error fault, d') ∧
      ((∀ t, p.replica.load t d' = p.replica.load t d) ∨
        d.noted? p.replica.path.location = none ∧ ∀ t, p.replica.load t d' = .ok {}) ∧
      (p.replica.isStale d).1 ≠ .ok false ∧ (p.replica.isStale d').1 = .ok true

theorem Shows.loads_eq {d' : Disk} {y : State} (h : Shows f d x) (h' : Shows f d' y)
    {r : Replica} (held : x.tables = some r) (held' : y.tables = some r) (t : Replica.Table) :
    f.load t d' = f.load t d := by
  have here : f.Holds d (some r) := held ▸ h.replica
  have there : f.Holds d' (some r) := held' ▸ h'.replica
  rw [here.load h.ready, there.load h'.ready]

theorem Shows.mirrors (h : Shows p.replica d x) (faithful : Faithful seen x)
    (apart : Set.InjOn Store.revisionOf {b | seen (some b)}) : Mirrors p d where
  fresh := by
    intro notStale
    have fresh := h.isStale_eq_false_iff.1 notStale
    obtain ⟨tasks, read, held⟩ := faithful.exists_tasks apart fresh
    obtain ⟨d', refilled, shows⟩ := h.refilled
    have held' : x.refilled.tables = some (.ofTasks tasks x.revision) := by
      rw [State.refilled, read]
    have here : p.replica.Holds d (some (.ofTasks tasks x.revision)) := held ▸ h.replica
    refine ⟨⟨tasks, x.revision, h.load.trans read, h.revision, here.load h.ready⟩, ?_⟩
    rw [refilled]
    exact h.loads_eq shows held held'
  succeeds := by
    obtain ⟨d', freshened, -⟩ := h.freshened
    have load : p.store.load d = x.tasks := h.load
    rw [freshened, h.isStale_eq_false_iff, load]
    cases x.isFresh <;> cases x.tasks <;> simp [Except.map]
  freshened := by
    intro f d' done
    obtain ⟨c, freshened, shows⟩ := h.freshened
    rw [freshened, Prod.mk.injEq] at done
    obtain ⟨done, rfl⟩ := done
    obtain ⟨rfl, able⟩ : p.replica = f ∧ (x.isFresh = true ∨ ∃ tasks, x.tasks = .ok tasks) := by
      revert done
      cases x.isFresh <;> cases x.tasks <;> simp [Except.map]
    have fresh := State.isFresh_freshen able
    obtain ⟨r, held, stamp⟩ := State.exists_of_isFresh fresh
    have there : p.replica.Holds c (some r) := held ▸ shows.replica
    have revision : p.store.revision c = .ok (x.step .freshen).revision := shows.revision
    refine ⟨shows.isStale_eq_false_iff.2 fresh, ?_, r, there.load shows.ready, ?_⟩
    · rw [revision, State.revision_freshen]
      exact h.revision.symm
    · rw [revision, stamp]
      rfl
  kept := by
    intro fault unread a which
    have failed : x.tasks = .error fault := h.load.symm.trans unread
    have stale : x.isFresh = false := by
      rw [Bool.eq_false_iff]
      intro fresh
      obtain ⟨tasks, read, -⟩ := faithful.exists_tasks apart fresh
      rw [failed] at read
      contradiction
    obtain ⟨d', done, shows⟩ : ∃ d', a d = (.error fault, d') ∧ Shows p.replica d' x.opened := by
      rw [← State.refilled_of_error failed]
      rcases List.mem_pair.1 which with rfl | rfl
      · obtain ⟨d', refilled, shows⟩ := h.refilled
        rw [failed] at refilled
        exact ⟨d', refilled, shows⟩
      · obtain ⟨d', freshened, shows⟩ := h.freshened
        rw [State.step, stale] at shows
        rw [failed, stale] at freshened
        exact ⟨d', freshened, shows⟩
    refine ⟨d', done, ?_, ?_, ?_⟩
    · cases tables : x.tables with
      | some r => exact .inl (h.loads_eq shows tables (by rw [State.opened, tables]; rfl))
      | none =>
        have absent : p.replica.Holds d none := tables ▸ h.replica
        have empty : p.replica.Holds d' (some {}) := by
          have replica := shows.replica
          rwa [State.opened, tables] at replica
        exact .inr ⟨absent, empty.load shows.ready⟩
    · rw [ne_eq, h.isStale_eq_false_iff, stale]
      simp
    · rw [shows.isStale, stale]
      rfl

/-- Whatever is done to a project that had no replica, and whatever others do to its store, the
replica mirrors the store as far as it is not stale. Contents of the store are told apart by their
revisions. -/
theorem mirrors_after {p : Project} {d : Disk} {content : Option Bytes}
    (ready : p.replica.Ready d) (file : d.noted? p.store.place = content.map .file)
    (unopened : d.noted? p.replica.path.location = none) (es : List Event)
    (apart : Set.InjOn Store.revisionOf {b | content = some b ∨ .edit (some b) ∈ es}) :
    Mirrors p (after p es d) := by
  have start : Shows p.replica d ⟨content, none⟩ := ⟨ready, file, unopened⟩
  have faithful : Faithful (fun c => content = c ∨ .edit c ∈ es) ⟨content, none⟩ :=
    ⟨.inl rfl, fun held _ => nomatch held⟩
  exact (start.after es).mirrors (faithful.run .inr) apart

/-- A disk with the directories of a project and no more. -/
def bareDisk : Disk := ⟨[(["p", ".dagplan"], .directory), (["p"], .directory)]⟩

theorem ready_bareDisk : (Project.replica .sample).Ready bareDisk := by
  refine ⟨by decide +kernel, .inl (by decide +kernel), fun x => ?_, by decide +kernel,
    by decide +kernel, by decide +kernel⟩
  cases x <;> decide +kernel

/-- Somebody writes a file, and takes it away when the replica has been filled from it. -/
def sampleEvents : List Event :=
  [.edit (some (Store.encode [TaskMap.sample TaskMap.a "x"])), .freshen, .edit none]

theorem mirrors_after_deletion :
    Mirrors .sample (after .sample sampleEvents bareDisk) ∧
      ∃ f, (Project.freshReplica .sample (after .sample sampleEvents bareDisk)).1 = .ok f := by
  have apart : Set.InjOn Store.revisionOf
      {b | none = some b ∨ Event.edit (some b) ∈ sampleEvents} := by
    intro b there c there' _
    simp [sampleEvents] at there there'
    rw [there, there']
  have file : bareDisk.noted? (Project.store .sample).place = (none : Option Bytes).map .file := by
    decide +kernel
  have mirrors : Mirrors .sample (after .sample sampleEvents bareDisk) :=
    mirrors_after ready_bareDisk file (by decide +kernel) sampleEvents apart
  have absent : (after .sample sampleEvents bareDisk).noted? (Project.store .sample).place = none :=
    Disk.noted?_erase_self _ (by decide +kernel)
  have empty : (Project.store .sample).load (after .sample sampleEvents bareDisk) = .ok [] := by
    rw [Store.load, Disk.exists?, Disk.find?_eq_none absent]
    rfl
  exact ⟨mirrors, mirrors.succeeds.2 (.inr ⟨[], empty⟩)⟩

end Replication
end Precedence

import Precedence.Command.Run
import Precedence.Proofs.Store
/-!
What commands leave alone. The file of a store is written by commands on tasks only: whatever else
is done in a project, or in another one, happens in places with other names.
-/
namespace Precedence

/-! Roots of projects -/

namespace Configuration

theorem resolve_of_isRoot {d : Disk} {root : Path} (h : isRoot d root) :
    d.resolve (dataDirectory root) = .ok (dataDirectory root).location ∧
      d.noted? (dataDirectory root).location = some .directory := Disk.resolve_of_isDirectory h

theorem walk_of_isRoot {d : Disk} {root : Path} (h : isRoot d root) :
    d.walk (dataDirectory root).origin (dataDirectory root).steps =
      .ok (dataDirectory root).location :=
  Disk.walk_of_resolve (resolve_of_isRoot h).1

theorem directory_of_mem_way {d : Disk} {root : Path} (h : isRoot d root) {l : Location}
    (on : l ∈ (dataDirectory root).way) : d.noted? l = some .directory :=
  Disk.directory_of_mem_way (walk_of_isRoot h) (resolve_of_isRoot h).2 on

end Configuration

/-! Actions that leave a place alone -/

namespace Action

variable {α β : Type} {root : Path} {l : Location}

/-- An action that leaves what is in a place alone, in the project with a root. -/
def Quiet (root : Path) (l : Location) (a : Action α) : Prop :=
  ∀ d, Configuration.isRoot d root → Disk.Spares l d (a d).2

theorem Still.quiet {a : Action α} (h : Still a) : Quiet root l a := by
  intro d _
  rw [h d]
  exact .refl _ d

theorem Quiet.bind {a : Action α} {f : α → Action β} (h : Quiet root l a)
    (h' : ∀ x, Quiet root l (f x)) : Quiet root l (a >>= f) := by
  intro d isRoot
  have first := h d isRoot
  rw [bind_run]
  cases e : a d with
  | mk r d' =>
    rw [e] at first
    cases r with
    | ok x => exact first.trans (h' x d' (first.keeps.isDirectory isRoot))
    | error _ => exact first

theorem quiet_pure (x : α) : Quiet root l (pure x) := (still_pure x).quiet

theorem quiet_throw (f : Failure) : Quiet root l (throw f : Action α) := (still_throw f).quiet

theorem quiet_get : Quiet root l get := still_get.quiet

theorem quiet_ask (f : Disk → Except Failure α) : Quiet root l (ask f) := (still_ask f).quiet

theorem quiet_modify {f : Disk → Disk} (h : ∀ d, Disk.Spares l d (f d)) :
    Quiet root l (modify f) := fun d _ => h d

theorem quiet_makeDirectories {deed : Deed} {name : String} (h : Path.IsName name)
    (other : l ≠ ((Configuration.dataDirectory root).join name).location) :
    Quiet root l (makeDirectories deed ((Configuration.dataDirectory root).join name)) := by
  intro d isRoot
  have off : d.noted? l ≠ none ∨ l ∉ ((Configuration.dataDirectory root).join name).way := by
    refine or_iff_not_imp_left.2 fun present on => present fun absent => ?_
    rcases Path.mem_way_join h on with on | last
    · rw [Configuration.directory_of_mem_way isRoot on] at absent
      contradiction
    · exact other last
  have spared := d.makeDirectories_spares off
  unfold makeDirectories
  split
  · next e => rw [e] at spared; exact spared
  · next e => rw [e] at spared; exact spared

end Action

/-! The replica and the files beside it -/

namespace Sidecar

theorem path_join (x : Sidecar) (p : Path) (name : String) :
    x.path (p.join name) = p.join (name ++ x.suffix) := by
  unfold path Path.join
  dsimp only
  split
  · rfl
  split
  · rw [String.append_assoc]
  · rw [String.append_assoc]

theorem place_ne_join (x : Sidecar) (f : ReplicaFile) (p : Path) {name : String}
    (h : Path.IsName name)
    (other : name ≠ "dagplan.db" ++ x.suffix) : (p.join name).location ≠ x.place f.path := by
  rw [place, ReplicaFile.path, path_join]
  refine Path.join_ne_join p _ h ?_ other
  cases x <;> constructor <;> decide

theorem place_ne (x : Sidecar) (s : Store) (f : ReplicaFile) : s.place ≠ x.place f.path :=
  x.place_ne_join f s.directory Store.isName_file (by cases x <;> decide)

/-- The disks differ by files beside a replica only. -/
def Beside (replica : Path) (d d' : Disk) : Prop :=
  ∀ l, d'.noted? l = d.noted? l ∨
    (∃ x : Sidecar, l = x.place replica) ∧ d.noted? l ≠ some .directory ∧
      d'.noted? l ≠ some .directory

variable {replica : Path} {d d' : Disk}

theorem Beside.refl (replica : Path) (d : Disk) : Beside replica d d := fun _ => .inl rfl

theorem Beside.trans {d'' : Disk} (h : Beside replica d d') (h' : Beside replica d' d'') :
    Beside replica d d'' := by
  intro l
  rcases h l with same | ⟨there, free, free'⟩
  · rcases h' l with same' | ⟨there, free, free'⟩
    · exact .inl (same'.trans same)
    · exact .inr ⟨there, same ▸ free, free'⟩
  · rcases h' l with same' | ⟨-, -, free''⟩
    · exact .inr ⟨there, free, same' ▸ free'⟩
    · exact .inr ⟨there, free, free''⟩

theorem Beside.keeps (h : Beside replica d d') : d.Extends d' := by
  intro l directory
  rcases h l with same | ⟨-, free, -⟩
  · exact same.trans directory
  · exact absurd directory free

theorem Beside.free (h : Beside replica d d') {l : Location} (free : d.noted? l ≠ some .directory) :
    d'.noted? l ≠ some .directory := by
  rcases h l with same | ⟨-, -, free'⟩
  · rwa [same]
  · exact free'

theorem Beside.spares (h : Beside replica d d') {l : Location}
    (other : ∀ x : Sidecar, l ≠ x.place replica) : Disk.Spares l d d' := by
  refine ⟨h.keeps, (h l).resolve_right ?_⟩
  rintro ⟨⟨x, same⟩, -⟩
  exact other x same

theorem beside_leave (x : Sidecar) (replica : Path) (d : Disk) :
    Beside replica d (x.leave replica d) := by
  unfold leave
  split
  · exact .refl replica d
  · next free =>
    intro l
    by_cases same : l = x.place replica
    · subst same
      have absent : d.noted? (x.place replica) = none := by simpa using free
      have inside : x.place replica ≠ [] := fun root => by simp [Disk.noted?, root] at absent
      refine .inr ⟨⟨x, rfl⟩, by simp [absent], ?_⟩
      rw [Disk.noted?_put_self d inside]
      simp
    · exact .inl (Disk.noted?_put_ne d same _)

theorem beside_clear (x : Sidecar) (replica : Path) (d : Disk) :
    Beside replica d (x.clear replica d) := by
  unfold clear
  split
  · exact .refl replica d
  · next free =>
    have file : d.noted? (x.place replica) ≠ some .directory := fun e => free (beq_iff_eq.2 e)
    intro l
    by_cases same : l = x.place replica
    · subst same
      refine .inr ⟨⟨x, rfl⟩, file, ?_⟩
      rw [Disk.noted?_erase_self d (Disk.ne_nil_of_free file)]
      simp
    · exact .inl (Disk.noted?_erase_ne d same)

theorem beside_clearJournal (replica : Path) (content : Replica.Content) (d : Disk) :
    Beside replica d (clearJournal replica content d) := by
  have either (isOld : Bool) : Beside replica d
      (if isOld || isPending replica d then journal.clear replica d else d) := by
    split
    · exact beside_clear .journal replica d
    · exact .refl replica d
  cases content with
  | empty => exact either true
  | foreign => exact either false
  | image i => exact either (!i.logs)

theorem beside_sweep (replica : Path) (content : Replica.Content) (d : Disk) :
    Beside replica d (sweep replica content d) := by
  apply (beside_clearJournal replica content d).trans
  unfold sweep
  dsimp only
  generalize clearJournal replica content d = c
  cases content with
  | empty => exact (beside_clear .log replica c).trans (beside_clear .index replica _)
  | foreign =>
    dsimp only
    split
    · exact .refl replica c
    · exact beside_clear .log replica c
  | image _ =>
    dsimp only
    split
    · exact .refl replica c
    · exact (beside_clear .log replica c).trans (beside_clear .index replica _)

end Sidecar

namespace ReplicaFile

open Precedence.Action

variable {f : ReplicaFile} {root : Path} {l : Location}

theorem isName_cache : Path.IsName ".cache" := by constructor <;> decide

theorem isName_file : Path.IsName "dagplan.db" := by constructor <;> decide

/-- A place that nothing of a replica is put in, whatever project that is of. -/
structure Foreign (l : Location) : Prop where
  directory : ∀ f : ReplicaFile, l ≠ f.directory.location
  path : ∀ f : ReplicaFile, l ≠ f.path.location
  beside : ∀ (f : ReplicaFile) (x : Sidecar), l ≠ x.place f.path

theorem foreign_join (p : Path) {name : String} (h : Path.IsName name) (directory : name ≠ ".cache")
    (path : name ≠ "dagplan.db") (beside : ∀ x : Sidecar, name ≠ "dagplan.db" ++ x.suffix) :
    Foreign (p.join name).location where
  directory _ := Path.join_ne_join p _ h isName_cache directory
  path _ := Path.join_ne_join p _ h isName_file path
  beside f x := x.place_ne_join f p h (beside x)

theorem foreign_store (s : Store) : Foreign s.place :=
  foreign_join s.directory Store.isName_file (by decide) (by decide) fun x => by cases x <;> decide

theorem quiet_write (h : Foreign l) (image : Replica.Image) : Quiet root l (f.write image) := by
  intro d _
  unfold write
  split
  · next e => exact Disk.place_spares e (h.path f)
  · exact .refl _ d

theorem quiet_ensureWritable : Quiet root l f.ensureWritable := by
  apply quiet_get.bind
  intro d
  split
  · exact quiet_throw _
  · exact quiet_pure _

theorem quiet_leaveLog (h : Foreign l) : Quiet root l f.leaveLog := by
  apply quiet_get.bind
  intro d
  split
  · exact quiet_modify fun d => (Sidecar.beside_leave .log f.path d).spares (h.beside f)
  · exact quiet_pure _

theorem quiet_connect (h : Foreign l) : Quiet root l f.connect := by
  refine (quiet_ask _).bind fun content => quiet_get.bind fun d => ?_
  have swept : Quiet root l (modify (Sidecar.sweep f.path content)) := quiet_modify fun d =>
    (Sidecar.beside_sweep f.path content d).spares (h.beside f)
  split
  · exact (quiet_throw _).bind fun _ => swept.bind fun _ => quiet_ask _
  · exact swept.bind fun _ => quiet_ask _

theorem quiet_open (h : Foreign l) (root : Path) : Quiet root l (ReplicaFile.open root) := by
  refine (quiet_makeDirectories isName_cache (h.directory ⟨root⟩)).bind fun _ =>
    (quiet_connect h).bind fun _ =>
    (quiet_write h _).bind fun _ => (quiet_leaveLog h).bind fun _ => ?_
  split
  · exact quiet_ensureWritable.bind fun _ => (quiet_write h _).bind fun _ => quiet_pure _
  · exact quiet_pure _

theorem quiet_replace (h : Foreign l) (r : Replica) : Quiet root l (f.replace r) :=
  (quiet_ask _).bind fun _ => quiet_ensureWritable.bind fun _ => (quiet_ask _).bind fun _ =>
    quiet_write h _

theorem quiet_refill (h : Foreign l) : Quiet root l f.refill :=
  (quiet_ask _).bind fun _ => (quiet_ask _).bind fun _ => quiet_replace h _

theorem quiet_isStale : Quiet root l f.isStale := by
  apply (quiet_ask _).bind
  intro r
  split
  · exact quiet_pure _
  · exact (quiet_ask _).bind fun _ => quiet_pure _

end ReplicaFile

/-! Commands that ask something -/

namespace Project

open Precedence.Action

variable {l : Location} {env : Environment}

theorem still_open (root : Path) : Still (Project.open env root) :=
  (still_ask _).bind fun _ => still_pure _

theorem still_openHere : Still (openHere env) := (still_ask _).bind still_open

theorem isRoot_of_openHere {p : Project} {d d' : Disk} (h : openHere env d = (.ok p, d')) :
    Configuration.isRoot d p.root := by
  obtain ⟨root, c, found, h₁⟩ := bind_eq_ok h
  obtain ⟨found, rfl⟩ := ask_eq_ok found
  obtain ⟨settings, c', read, h₂⟩ := bind_eq_ok h₁
  obtain ⟨rfl, -⟩ := pure_eq_ok h₂
  split at found
  · next above =>
    cases found
    exact List.find?_some above
  · contradiction

/-- What holds of a disk after an action on the project that the working directory is in. -/
theorem afterHere {α : Type} {f : Project → Action α} {P : Disk → Prop} {d : Disk} (here : P d)
    (rest : ∀ p : Project, Configuration.isRoot d p.root → P (f p d).2) :
    P ((openHere env >>= f) d).2 :=
  still_openHere.after here fun p opened => rest p (isRoot_of_openHere opened)

theorem quiet_refilledReplica (h : ReplicaFile.Foreign l) (p : Project) :
    Quiet p.root l p.refilledReplica :=
  (ReplicaFile.quiet_open h p.root).bind fun _ => (ReplicaFile.quiet_refill h).bind fun _ =>
    quiet_pure _

theorem quiet_freshReplica (h : ReplicaFile.Foreign l) (p : Project) :
    Quiet p.root l p.freshReplica := by
  refine (ReplicaFile.quiet_open h p.root).bind fun _ =>
    ReplicaFile.quiet_isStale.bind fun isStale => ?_
  split
  · exact (ReplicaFile.quiet_refill h).bind fun _ => quiet_pure _
  · exact quiet_pure _

theorem still_share (p : Project) (source : Disk → Source Failure) : Still (p.share source) :=
  still_get.bind fun _ => (still_ask _).bind fun _ => still_pure _

theorem quiet_analyzer (h : ReplicaFile.Foreign l) (p : Project) (backend : Option Backend) :
    Quiet p.root l (p.analyzer backend) := by
  unfold analyzer
  split
  · exact (p.still_share _).quiet
  · exact (p.quiet_freshReplica h).bind fun f => (p.still_share _).quiet

end Project

namespace Command

open Precedence.Action

variable {s : Store} {env : Environment} {backend : Option Backend} {α : Type}

theorem still_settle (r : Except GraphFault α) : Still (settle r) := by
  cases r with
  | ok x => exact still_pure x
  | error fault => exact still_throw (.graph fault)

theorem still_typedId (raw : String) : Still (typedId raw) := still_settle _

theorem still_stored (tasks : List Task) (id : TaskId) : Still (stored tasks id) := by
  unfold stored
  split
  · exact still_pure _
  · exact still_throw _

theorem still_countsOf (r : Replica) : Still (countsOf r) := by
  unfold countsOf
  split
  · exact still_pure _
  · exact still_throw _

theorem spares_here {f : Project → Action α} (h : ∀ p, Quiet p.root s.place (f p)) (d : Disk) :
    Disk.Spares s.place d ((Project.openHere env >>= f) d).2 :=
  Project.afterHere (.refl _ d) fun p isRoot => h p d isRoot

theorem spares_analyzer {f : Analyzer → Action α} (h : ∀ a, Still (f a)) (d : Disk) :
    Disk.Spares s.place d ((analyzerHere env backend >>= f) d).2 := by
  rw [snd_bind_of_still h]
  exact spares_here
    (fun p => (p.quiet_analyzer (ReplicaFile.foreign_store s) backend).bind fun _ => quiet_pure _) d

theorem spares_runReplica (elapsed : Nat) (c : ReplicaCommand) (d : Disk) :
    Disk.Spares s.place d (runReplica env elapsed c d).2 := by
  have foreign := ReplicaFile.foreign_store s
  cases c with
  | rebuild =>
    exact spares_here (fun p => (p.quiet_refilledReplica foreign).bind fun f =>
      (quiet_ask _).bind fun r => (still_countsOf r).quiet.bind fun _ => quiet_pure _) d
  | status =>
    exact spares_here (fun p => (ReplicaFile.quiet_open foreign p.root).bind fun f =>
      ReplicaFile.quiet_isStale.bind fun _ => (quiet_ask _).bind fun r =>
        (still_countsOf r).quiet.bind fun _ => quiet_pure _) d
  | clear =>
    exact spares_here (fun p => (ReplicaFile.quiet_open foreign p.root).bind fun f =>
      (ReplicaFile.quiet_replace foreign _).bind fun _ => quiet_pure _) d

/-- Whether a command asks something, so that it neither changes tasks nor makes a project. -/
def asks : Command → Bool
  | .init _ => false
  | .task (.list _) | .task (.describe _) => true
  | .task _ => false
  | _ => true

/-- A command that asks something leaves the file of every store alone. -/
theorem spares_run (clock : Clock) {c : Command} (asks : c.asks) (d : Disk) :
    Disk.Spares s.place d (c.run env clock backend d).2 := by
  have typed {f : List TaskId → Action Answer} {raws : List String}
      (rest : ∀ ids, Disk.Spares s.place d (f ids d).2) :
      Disk.Spares s.place d ((raws.mapM typedId >>= f) d).2 :=
    (still_mapM still_typedId).after (.refl _ d) fun ids _ => rest ids
  cases c with
  | init _ => contradiction
  | task c =>
    cases c with
    | list _ => exact spares_here (fun _ => (quiet_ask _).bind fun _ => quiet_pure _) d
    | describe raw =>
      exact spares_here (fun _ => (still_typedId raw).quiet.bind fun id => (quiet_ask _).bind
        fun tasks => (still_stored tasks id).quiet.bind fun _ => quiet_pure _) d
    | _ => contradiction
  | ready => exact spares_analyzer (fun _ => still_pure _) d
  | blocked => exact spares_analyzer (fun _ => still_pure _) d
  | status => exact spares_analyzer (fun _ => still_pure _) d
  | order _ => exact typed fun _ =>
    spares_analyzer (fun _ => (still_settle _).bind fun _ => still_pure _) d
  | levels => exact spares_analyzer (fun _ => (still_settle _).bind fun _ => still_pure _) d
  | relatives _ raw _ =>
    exact (still_typedId raw).after (.refl _ d) fun _ _ =>
      spares_analyzer (fun _ => (still_settle _).bind fun _ => still_pure _) d
  | orphans _ _ => exact spares_analyzer (fun _ => (still_settle _).bind fun _ => still_pure _) d
  | leaves _ => exact spares_analyzer (fun _ => (still_settle _).bind fun _ => still_pure _) d
  | criticalPath _ _ =>
    exact (still_mapM? still_typedId).after (.refl _ d) fun _ _ =>
      (still_mapM? still_typedId).after (.refl _ d) fun _ _ =>
        spares_analyzer (fun _ => (still_settle _).bind fun _ => still_pure _) d
  | validate _ => exact typed fun _ => spares_analyzer (fun _ => still_pure _) d
  | replica c => exact spares_runReplica clock.elapsed c d

end Command

end Precedence

import Precedence.Proofs.Quiet
import Precedence.Proofs.Refill
/-!
Replicas on a disk where nothing is in their way. There a replica can be opened, looked at and
replaced whenever it is asked for, and what that does to the disk is known to the last row.
-/
namespace Precedence.ReplicaFile

open Precedence.Action

/-! Places -/

theorem isName_sidecar (x : Sidecar) : Path.IsName ("dagplan.db" ++ x.suffix) := by
  cases x <;> constructor <;> decide

theorem location_path (f : ReplicaFile) :
    f.path.location = f.directory.location ++ ["dagplan.db"] :=
  Path.location_join _ isName_file

theorem location_sidecar (f : ReplicaFile) (x : Sidecar) :
    x.place f.path = f.directory.location ++ ["dagplan.db" ++ x.suffix] := by
  rw [Sidecar.place, path, x.path_join]
  exact Path.location_join _ (isName_sidecar x)

theorem path_ne_directory (f : ReplicaFile) : f.path.location ≠ f.directory.location := by
  rw [location_path]
  simp

theorem sidecar_ne_directory (f : ReplicaFile) (x : Sidecar) :
    x.place f.path ≠ f.directory.location := by
  rw [location_sidecar]
  simp

theorem path_ne_sidecar (f : ReplicaFile) (x : Sidecar) : f.path.location ≠ x.place f.path := by
  rw [location_path, location_sidecar]
  intro same
  have name := List.singleton_inj.1 (List.append_inj' same rfl).2
  revert name
  cases x <;> decide

theorem directory_ne_sidecar (f : ReplicaFile) (x : Sidecar) :
    f.directory.location ≠ x.place f.path := (f.sidecar_ne_directory x).symm

theorem store_ne_directory (f : ReplicaFile) : f.store.place ≠ f.directory.location :=
  f.store.place_ne_join _ isName_cache (by decide)

/-! What stands on the disk -/

/-- A disk on which nothing is in the way of a replica: the project is there, the directory of the
replica is there or can be made, no directory is beside the replica, and no path is too long. -/
structure Ready (f : ReplicaFile) (d : Disk) : Prop where
  isRoot : Configuration.isRoot d f.root
  directory : d.noted? f.directory.location = none ∨
    d.noted? f.directory.location = some .directory
  beside : ∀ x : Sidecar, d.noted? (x.place f.path) ≠ some .directory
  store : Disk.pathFault? f.store.path = none
  path : Disk.pathFault? f.path = none
  short : ¬ pathLimit < (Path.ofLocation f.path.location).text.utf8ByteSize

/-- The image of a replica that has been opened. -/
def laidOut (r : Replica) : Replica.Image := ⟨Replica.Image.layout, some r, true⟩

/-- What the file of a replica holds once it has been opened, if it has. -/
def Holds (f : ReplicaFile) (d : Disk) : Option Replica → Prop
  | none => d.noted? f.path.location = none
  | some r => d.look f.path = .ok (some (.replica (laidOut r)))

variable {f : ReplicaFile} {d d' : Disk} {tables : Option Replica} {r : Replica}

theorem Ready.reach (h : f.Ready d) (made : d.noted? f.directory.location = some .directory) :
    d.resolve f.path = .ok f.path.location := by
  have there := Configuration.walk_of_isRoot h.isRoot
  have root := (Configuration.resolve_of_isRoot h.isRoot).2
  have fits : Disk.pathFault? f.directory = none :=
    Path.pathFault?_join (by decide +kernel) (by decide) h.store
  have reached : d.resolve f.directory = .ok f.directory.location :=
    Disk.resolve_join isName_cache (by decide +kernel) fits there root
  exact Disk.resolve_join isName_file (by decide +kernel) h.path (Disk.walk_of_resolve reached) made

theorem Ready.reach_store (h : f.Ready d) : d.resolve f.store.path = .ok f.store.place :=
  Disk.resolve_join Store.isName_file (by decide +kernel) h.store
    (Configuration.walk_of_isRoot h.isRoot) (Configuration.resolve_of_isRoot h.isRoot).2

theorem Ready.after (h : f.Ready d) (keeps : d.Extends d')
    (directory : d'.noted? f.directory.location = none ∨
      d'.noted? f.directory.location = some .directory)
    (beside : ∀ x : Sidecar, d'.noted? (x.place f.path) ≠ some .directory) : f.Ready d' where
  isRoot := keeps.isDirectory h.isRoot
  directory := directory
  beside := beside
  store := h.store
  path := h.path
  short := h.short

/-- A change at a place that is none of the replica's leaves nothing in its way. -/
theorem Ready.put (h : f.Ready d) {l : Location} {e : Entry} (free : d.noted? l ≠ some .directory)
    (directory : l ≠ f.directory.location) (beside : ∀ x : Sidecar, l ≠ x.place f.path) :
    f.Ready (d.put l e) := by
  refine h.after (Disk.extends_put free) ?_ fun x => ?_
  · rw [Disk.noted?_put_ne d directory.symm]
    exact h.directory
  · rw [Disk.noted?_put_ne d (beside x).symm]
    exact h.beside x

theorem Ready.erase (h : f.Ready d) {l : Location} (free : d.noted? l ≠ some .directory)
    (directory : l ≠ f.directory.location) (beside : ∀ x : Sidecar, l ≠ x.place f.path) :
    f.Ready (d.erase l) := by
  refine h.after (Disk.extends_erase free) ?_ fun x => ?_
  · rw [Disk.noted?_erase_ne d directory.symm]
    exact h.directory
  · rw [Disk.noted?_erase_ne d (beside x).symm]
    exact h.beside x

theorem Ready.swept (h : f.Ready d) (beside : Sidecar.Beside f.path d d') : f.Ready d' := by
  refine h.after beside.keeps ?_ fun x => beside.free (h.beside x)
  rw [(beside.spares f.directory_ne_sidecar).same]
  exact h.directory

theorem Holds.spared (h : f.Holds d tables) (spared : Disk.Spares f.path.location d d') :
    f.Holds d' tables := by
  cases tables with
  | none => exact spared.same.trans h
  | some r => exact spared.look h

/-! Opening -/

theorem Ready.makeDirectory (h : f.Ready d) : ∃ d', d.makeDirectories f.directory = (.ok (), d') ∧
    f.Ready d' ∧ d'.noted? f.directory.location = some .directory ∧
      ∀ l, l ≠ f.directory.location → Disk.Spares l d d' := by
  have fits : Disk.pathFault? f.directory = none :=
    Path.pathFault?_join (by decide +kernel) (by decide) h.store
  obtain ⟨d', made, directory, same⟩ := Disk.makeDirectories_join isName_cache (by decide +kernel)
    fits (Configuration.walk_of_isRoot h.isRoot) (Configuration.resolve_of_isRoot h.isRoot).2
    h.directory
  have keeps := d.makeDirectories_keeps f.directory
  rw [ReplicaFile.directory, made] at keeps
  have free (x : Sidecar) : d'.noted? (x.place f.path) ≠ some .directory := by
    rw [same _ (f.sidecar_ne_directory x)]
    exact h.beside x
  exact ⟨d', made, h.after keeps (.inr directory) free, directory,
    fun l other => ⟨keeps, same l other⟩⟩

theorem Holds.content (ready : f.Ready d) (made : d.noted? f.directory.location = some .directory)
    (h : f.Holds d tables) :
    f.content d = .ok (tables.elim .empty fun r => .image (laidOut r)) := by
  rw [ReplicaFile.content, if_neg ready.short]
  cases tables with
  | none =>
    have absent : d.look f.path = .ok none := by
      rw [Disk.look, ready.reach made]
      exact congrArg Except.ok h
    rw [absent]
    rfl
  | some r =>
    have present : d.look f.path = .ok (some (.replica (laidOut r))) := h
    rw [present]
    rfl

theorem Ready.unobstructed (h : f.Ready d) (x : Sidecar) : x.isObstructed f.path d = false :=
  beq_eq_false_iff_ne.2 (h.beside x)

theorem Ready.noObstacle (h : f.Ready d) (content : Replica.Content) :
    Sidecar.obstacle? f.path content d = none := by
  unfold Sidecar.obstacle?
  cases content <;> simp [h.unobstructed]

theorem Ready.connect (h : f.Ready d) {content : Replica.Content}
    (found : f.content d = .ok content)
    {i : Replica.Image} (known : content.toImage = .ok i) :
    f.connect d = (.ok i, Sidecar.sweep f.path content d) := by
  have read : Action.ask f.content d = (.ok content, d) := by rw [ask_run, found]
  rw [ReplicaFile.connect, bind_ok read, bind_ok (get_run d), h.noObstacle]
  show (Action.ask fun _ => content.toImage.mapError Failure.replica)
    (Sidecar.sweep f.path content d) = _
  rw [ask_run, known]
  rfl

theorem Ready.leaveLog (h : f.Ready d) : f.leaveLog d = (.ok (), d) := by
  rw [ReplicaFile.leaveLog, bind_ok (get_run d), isReadOnly, h.unobstructed]
  rfl

theorem Ready.ensureWritable (h : f.Ready d) : f.ensureWritable d = (.ok (), d) := by
  rw [ReplicaFile.ensureWritable, bind_ok (get_run d), isReadOnly, h.unobstructed]
  rfl

/-- An image can be written wherever no directory is in its place. -/
theorem Ready.write (h : f.Ready d) (made : d.noted? f.directory.location = some .directory)
    (free : d.noted? f.path.location ≠ some .directory) (i : Replica.Image) :
    ∃ d', f.write i d = (.ok (), d') ∧ f.Ready d' ∧ d'.look f.path = .ok (some (.replica i)) ∧
      ∀ l, l ≠ f.path.location → Disk.Spares l d d' := by
  have placed : d.writeReplica f.path i = .ok _ :=
    Disk.place_eq_ok _ (Store.endsWith_join f.directory isName_file) (h.reach made) free
  refine ⟨_, by rw [ReplicaFile.write, placed],
    h.put free f.path_ne_directory f.path_ne_sidecar, Disk.look_of_place placed,
    fun l other => Disk.place_spares placed other⟩

theorem Holds.free (h : f.Holds d tables) : d.noted? f.path.location ≠ some .directory := by
  cases tables with
  | none =>
    have absent : d.noted? f.path.location = none := h
    rw [absent]
    simp
  | some r =>
    have present : d.look f.path = .ok (some (.replica (laidOut r))) := h
    rw [(Disk.noted?_of_look present).2]
    simp

/-- Opening a replica succeeds and changes no row; where there is none it makes one without rows. -/
theorem open_run (ready : f.Ready d) (held : f.Holds d tables) :
    ∃ d', ReplicaFile.open f.root d = (.ok f, d') ∧ f.Ready d' ∧
      f.Holds d' (some (tables.getD {})) ∧ Disk.Spares f.store.place d d' := by
  have quiet := quiet_open (foreign_store f.store) f.root d ready.isRoot
  obtain ⟨d₁, made, ready₁, directory₁, same₁⟩ := ready.makeDirectory
  have first : Action.makeDirectories (.makeReplica f.directory) f.directory d = (.ok (), d₁) := by
    rw [Action.makeDirectories, made]
  have held₁ := held.spared (same₁ _ f.path_ne_directory)
  have known : (tables.elim .empty fun r => .image (laidOut r) : Replica.Content).toImage =
      .ok (tables.elim {} laidOut) := by cases tables <;> rfl
  have connected := ready₁.connect (held₁.content ready₁ directory₁) known
  have swept := Sidecar.beside_sweep f.path (tables.elim .empty fun r => .image (laidOut r)) d₁
  have held₂ := held₁.spared (swept.spares f.path_ne_sidecar)
  obtain ⟨d₃, written, ready₃, look₃, same₃⟩ := (ready₁.swept swept).write
    (swept.keeps _ directory₁) held₂.free { tables.elim {} laidOut with logs := true }
  cases tables with
  | some r =>
    have opened : ReplicaFile.open f.root d = (.ok f, d₃) := by
      rw [ReplicaFile.open, bind_ok first, bind_ok connected, bind_ok written,
        bind_ok ready₃.leaveLog]
      rfl
    exact ⟨d₃, opened, ready₃, look₃, by rwa [opened] at quiet⟩
  | none =>
    -- A file that is new is laid out when it has been written once.
    have directory₃ := (same₃ _ f.path_ne_directory.symm).keeps _ (swept.keeps _ directory₁)
    have free : d₃.noted? f.path.location ≠ some .directory := by
      rw [(Disk.noted?_of_look look₃).2]
      simp
    obtain ⟨d₄, written', ready₄, look₄, -⟩ := ready₃.write directory₃ free (laidOut {})
    have opened : ReplicaFile.open f.root d = (.ok f, d₄) := by
      rw [ReplicaFile.open, bind_ok first, bind_ok connected, bind_ok written,
        bind_ok ready₃.leaveLog, if_pos (by decide), bind_ok ready₃.ensureWritable]
      exact bind_ok written' _
    exact ⟨d₄, opened, ready₄, look₄, by rwa [opened] at quiet⟩

/-! Looking at a replica -/

theorem Holds.image (h : f.Holds d (some r)) (short : ¬ pathLimit <
    (Path.ofLocation f.path.location).text.utf8ByteSize) : f.image d = .ok (laidOut r) := by
  have present : d.look f.path = .ok (some (.replica (laidOut r))) := h
  rw [ReplicaFile.image, ReplicaFile.content, if_neg short, present]
  rfl

theorem Holds.load (h : f.Holds d (some r)) (ready : f.Ready d) (t : Replica.Table) :
    f.load t d = .ok r := by
  rw [ReplicaFile.load, h.image ready.short]
  rfl

/-- What is put in the place of a replica that has been opened stands there afterwards. -/
theorem replace_run (ready : f.Ready d) (held : f.Holds d (some r)) (r' : Replica) :
    ∃ d', f.replace r' d = (.ok (), d') ∧ f.Ready d' ∧ f.Holds d' (some r') ∧
      Disk.Spares f.store.place d d' := by
  have present : d.look f.path = .ok (some (.replica (laidOut r))) := held
  have reached := (Disk.noted?_of_look present).1
  have made : d.noted? f.directory.location = some .directory :=
    (Disk.walk_of_resolve_join isName_file reached).2
  obtain ⟨d', written, ready', look', same⟩ := ready.write made held.free (laidOut r')
  have read : f.read .edges d = (.ok r, d) := by rw [ReplicaFile.read, ask_run, held.load ready]
  have imaged : Action.ask f.image d = (.ok (laidOut r), d) := by
    rw [ask_run, held.image ready.short]
  refine ⟨d', ?_, ready', look', same _ f.place_ne⟩
  rw [replace, bind_ok read, bind_ok ready.ensureWritable, bind_ok imaged]
  exact written

end Precedence.ReplicaFile

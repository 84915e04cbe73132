import Precedence.Proofs.Freshness
import Precedence.Proofs.Upkeep
/-!
What the rows of a replica descend from. Whatever is in the way of a replica, and whether it can be
opened, filled or emptied or not, its rows are those of a content that the file of the store has
had.
-/
namespace Precedence

namespace Disk

/-- What a name in the directory of a project leads to does not change with other places. -/
theorem look_of_spares {d d' : Disk} {root : Path} {name : String}
    (isRoot : Configuration.isRoot d root) (h : Path.IsName name) (short : name.utf8ByteSize ≤ 255)
    (spared : Spares ((Configuration.dataDirectory root).join name).location d d') :
    d'.look ((Configuration.dataDirectory root).join name) =
      d.look ((Configuration.dataDirectory root).join name) := by
  cases fault : pathFault? ((Configuration.dataDirectory root).join name) with
  | some _ =>
    unfold look resolve
    rw [fault]
    rfl
  | none =>
    have there := resolve_join h short fault (Configuration.walk_of_isRoot isRoot)
      (Configuration.resolve_of_isRoot isRoot).2
    rw [look, spared.keeps.resolve there, look, there]
    exact congrArg Except.ok spared.same

end Disk

namespace Store

/-- What can be read of the file. -/
def bytes? (s : Store) (d : Disk) : Option Bytes :=
  match d.find? s.path with
  | some (.file content) => some content
  | _ => none

theorem bytes?_congr {s : Store} {d d' : Disk} (h : d'.find? s.path = d.find? s.path) :
    s.bytes? d' = s.bytes? d := by
  unfold bytes?
  rw [h]

theorem look_of_bytes? {s : Store} {d : Disk} {content : Bytes} (h : s.bytes? d = some content) :
    d.look s.path = .ok (some (.file content)) := by
  unfold bytes? at h
  split at h
  · next found => rw [Disk.look_of_find? found, Option.some.inj h]
  · contradiction

theorem bytes?_of_spares {root : Path} {d d' : Disk} (isRoot : Configuration.isRoot d root)
    (spared : Disk.Spares (ofRoot root).place d d') :
    (ofRoot root).bytes? d' = (ofRoot root).bytes? d := by
  have same : d'.look (ofRoot root).path = d.look (ofRoot root).path :=
    Disk.look_of_spares isRoot isName_file (by decide +kernel) spared
  apply bytes?_congr
  rw [Disk.find?, same, Disk.find?]

end Store

namespace Replication.State

variable {x y : State}

theorem tasks_congr (same : x.content = y.content) : x.tasks = y.tasks := by
  rw [tasks, tasks, same]

theorem revision_congr (same : x.content = y.content) : x.revision = y.revision := by
  rw [revision, revision, same]

end Replication.State

theorem Replica.Image.version_opened (i : Image) : i.opened.version = layout := by
  unfold opened
  split
  · assumption
  · rfl

namespace ReplicaFile

open Precedence.Action
open Replication (Descends descends_empty descends_ofTasks)

variable {f : ReplicaFile} {d d' : Disk} {seen : Option Bytes → Prop}

/-- The rows in the place of the replica, as far as they stay there when it is opened. -/
def rows? (f : ReplicaFile) (d : Disk) : Option Replica :=
  match d.noted? f.path.location with
  | some (.replica i) => i.opened.tables
  | _ => none

/-- What stands in the places of the store and of the replica. -/
def state (f : ReplicaFile) (d : Disk) : Replication.State := ⟨f.store.bytes? d, f.rows? d⟩

theorem rows?_congr (same : d'.noted? f.path.location = d.noted? f.path.location) :
    f.rows? d' = f.rows? d := by
  unfold rows?
  rw [same]

/-! Reading the store -/

theorem revision_eq_ok {revision : String} (h : f.store.revision d = .ok revision) :
    revision = (f.state d).revision ∧ f.store.load d = (f.state d).tasks := by
  unfold Store.revision at h
  unfold Store.load Replication.State.revision Replication.State.tasks state Store.bytes?
  cases found : d.find? f.store.path with
  | none =>
    have absent : d.exists? f.store.path = false := by rw [Disk.exists?, found]; rfl
    rw [absent] at h ⊢
    exact ⟨(Except.ok.inj h).symm, rfl⟩
  | some e =>
    have there : d.exists? f.store.path = true := by rw [Disk.exists?, found]; rfl
    rw [there, if_pos rfl] at h
    rw [there, if_pos rfl]
    cases read : d.read f.store.path with
    | error fault => rw [read] at h; contradiction
    | ok content =>
      have looked := Disk.look_of_read read
      rw [Disk.find?, looked] at found
      obtain rfl := Option.some.inj found
      rw [read] at h
      exact ⟨(Except.ok.inj h).symm, rfl⟩

/-- What holds of all tasks that are loaded holds of all tasks of the file. -/
theorem forall_of_load {P : Task → Prop}
    (h : ∀ tasks, f.store.load d = .ok tasks → ∀ t ∈ tasks, P t) :
    ∀ tasks, (f.state d).tasks = .ok tasks → ∀ t ∈ tasks, P t := by
  intro tasks read
  cases content : (f.state d).content with
  | none =>
    rw [Replication.State.tasks, content] at read
    obtain rfl := Except.ok.inj read
    exact fun t ht => absurd ht List.not_mem_nil
  | some b =>
    have contains : f.store.Contains d b := .inr (Store.look_of_bytes? content)
    rw [Replication.State.tasks, content] at read
    exact h tasks (contains.load.trans read)

/-! Where the rows come from -/

structure Traced (seen : Option Bytes → Prop) (f : ReplicaFile) (d : Disk) : Prop where
  rows : ∀ r ∈ f.rows? d, Descends seen r

theorem Traced.mono {seen' : Option Bytes → Prop} (h : Traced seen f d)
    (more : ∀ c, seen c → seen' c) :
    Traced seen' f d :=
  ⟨fun r held => (h.rows r held).mono more⟩

theorem Traced.congr (h : Traced seen f d)
    (same : d'.noted? f.path.location = d.noted? f.path.location) : Traced seen f d' := by
  refine ⟨fun r held => h.rows r ?_⟩
  rwa [rows?_congr same] at held

theorem Traced.makeDirectories (h : Traced seen f d) (p : Path) :
    Traced seen f (d.makeDirectories p).2 := by
  rcases d.makeDirectories_noted? p f.path.location with same | ⟨-, -, directory⟩
  · exact h.congr same
  · refine ⟨fun r held => ?_⟩
    rw [rows?, directory] at held
    cases held

theorem Traced.leaveLog (h : Traced seen f d) {e : Option Entry}
    (there : d.noted? f.path.location = e) :
    Ends f.leaveLog d (fun _ d' => Traced seen f d' ∧ d'.noted? f.path.location = e)
      (Traced seen f) := by
  have same := ((Sidecar.beside_leave .log f.path d).spares f.path_ne_sidecar).same
  unfold ReplicaFile.leaveLog
  apply still_get.ends h
  intro c got
  split
  · exact ends_modify ⟨h.congr same, same.trans there⟩
  · exact ends_pure ⟨h, there⟩

theorem still_ensureWritable (f : ReplicaFile) : Still f.ensureWritable := by
  apply still_get.bind
  intro d
  split
  · exact still_throw _
  · exact still_pure _

theorem traced_of_write {i : Replica.Image} (there : d.noted? f.path.location = some (.replica i))
    (descends : ∀ r ∈ i.opened.tables, Descends seen r) : Traced seen f d := by
  refine ⟨fun r held => descends r ?_⟩
  rwa [rows?, there] at held

theorem Traced.write (h : Traced seen f d) {i : Replica.Image}
    (descends : ∀ r ∈ i.opened.tables, Descends seen r) :
    Ends (f.write i) d (fun _ d' => Traced seen f d' ∧
      d'.noted? f.path.location = some (.replica i))
      (Traced seen f) := by
  unfold Ends ReplicaFile.write
  cases placed : d.writeReplica f.path i with
  | error fault => exact h
  | ok d' =>
    have there := (Disk.noted?_of_look (Disk.look_of_place placed)).2
    exact ⟨traced_of_write there descends, there⟩

theorem noted?_of_content {i : Replica.Image} (h : f.content d = .ok (.image i)) :
    d.noted? f.path.location = some (.replica i) := by
  by_cases long : pathLimit < (Path.ofLocation f.path.location).text.utf8ByteSize
  · rw [content, if_pos long] at h
    contradiction
  · rw [content, if_neg long] at h
    split at h
    · cases h
    · next looked =>
      rw [(Disk.noted?_of_look looked).2, Replica.Content.image.inj (Except.ok.inj h)]
    · cases h
    · cases h
    · cases h
    · cases h

/-- The rows that a connection finds are those in the place of the replica. -/
theorem Traced.connect (h : Traced seen f d) : Ends f.connect d
    (fun i d' => Traced seen f d' ∧ ∀ r ∈ i.opened.tables, Descends seen r) (Traced seen f) := by
  apply (still_ask f.content).ends h
  intro content asked
  obtain ⟨found, -⟩ := ask_eq_ok asked
  have swept : Traced seen f (Sidecar.sweep f.path content d) :=
    h.congr ((Sidecar.beside_sweep f.path content d).spares f.path_ne_sidecar).same
  apply still_get.ends h
  intro c got
  split
  · exact .bind (ends_throw h)
  · refine .bind
      (ends_modify (ends_ask (fun i known => ⟨swept, fun r held => ?_⟩) fun _ _ => swept))
    replace known := eq_ok_of_mapError known
    cases content with
    | empty =>
      obtain rfl := Except.ok.inj known
      obtain rfl := Option.some.inj held
      exact descends_empty seen
    | foreign => cases known
    | image j =>
      obtain rfl := Except.ok.inj known
      apply h.rows r
      rwa [rows?, noted?_of_content found]

/-- An image with the tables of the layout in use stands in the place of the replica. -/
def IsLaidOut (f : ReplicaFile) (d : Disk) : Prop :=
  ∃ i, d.noted? f.path.location = some (.replica i) ∧ i.version = Replica.Image.layout

theorem rows?_of_load {t : Replica.Table} {r : Replica} (laidOut : f.IsLaidOut d)
    (h : f.load t d = .ok r) : f.rows? d = some r ∧ ∀ t', f.load t' d = .ok r := by
  obtain ⟨i, there, layout⟩ := laidOut
  rw [load] at h
  obtain ⟨j, imaged, reached⟩ := exists_of_bind_eq_ok h
  have image := imaged
  rw [ReplicaFile.image] at image
  obtain ⟨content, found, known⟩ := exists_of_bind_eq_ok image
  replace known := eq_ok_of_mapError known
  replace reached := eq_ok_of_mapError reached
  have tables : j.tables = some r := by
    unfold Replica.Image.reach at reached
    split at reached
    · next held => rw [held, Except.ok.inj reached]
    · cases reached
  cases content with
  | empty =>
    obtain rfl := Except.ok.inj known
    cases tables
  | foreign => cases known
  | image k =>
    obtain rfl := Except.ok.inj known
    obtain rfl : i = k := by
      rw [noted?_of_content found] at there
      exact (Entry.replica.inj (Option.some.inj there)).symm
    refine ⟨?_, fun t' => ?_⟩
    · have kept : i.opened = i := if_pos layout
      rw [rows?, there]
      exact (congrArg Replica.Image.tables kept).trans tables
    · rw [load, imaged, ok_bind, Replica.Image.reach, tables]
      rfl

theorem Traced.open (h : Traced seen f d) : Ends (ReplicaFile.open f.root) d
    (fun g d' => g = f ∧ Traced seen f d' ∧ f.IsLaidOut d') (Traced seen f) := by
  have made := h.makeDirectories f.directory
  unfold ReplicaFile.open
  refine .bind (ends_makeDirectories (fun d₁ e => ?_) fun fault d₁ e => by rwa [e] at made)
  rw [e] at made
  refine .bind (made.connect.mono (fun i d₂ connected => ?_) fun _ => id)
  obtain ⟨traced₂, descends⟩ := connected
  have same : Replica.Image.tables (.opened { i with logs := true }) = i.opened.tables := by
    unfold Replica.Image.opened
    split <;> rfl
  refine .bind ((traced₂.write (same ▸ descends)).mono (fun _ d₃ written => ?_) fun _ => id)
  obtain ⟨traced₃, there⟩ := written
  refine .bind ((traced₃.leaveLog there).mono (fun _ d₄ left => ?_) fun _ => id)
  obtain ⟨traced₄, there⟩ := left
  split
  · apply f.still_ensureWritable.ends traced₄
    intro _ _
    refine .bind ((traced₄.write ?_).mono (fun _ d₅ written => ?_) fun _ => id)
    · rw [Replica.Image.opened_opened, same]
      exact descends
    · exact ends_pure ⟨rfl, written.1, _, written.2, Replica.Image.version_opened _⟩
  · next layout => exact ends_pure ⟨rfl, traced₄, _, there, not_not.1 layout⟩

theorem Traced.replace (h : Traced seen f d) {r : Replica} (descends : Descends seen r) :
    Traced seen f (f.replace r d).2 := by
  have either {i : Replica.Image} :
      ∀ r' ∈ Replica.Image.tables (.opened { i with tables := some r }), Descends seen r' := by
    intro r' held
    unfold Replica.Image.opened at held
    split at held
    · obtain rfl := Option.some.inj held
      exact descends
    · obtain rfl := Option.some.inj held
      exact descends_empty seen
  unfold ReplicaFile.replace
  apply Still.after (still_ask _) h
  intro _ _
  apply Still.after f.still_ensureWritable h
  intro _ _
  apply Still.after (still_ask _) h
  intro i _
  exact ends_iff.1 ((h.write either).mono (fun _ _ written => written.1) fun _ => id)

theorem Traced.clear (h : Traced seen f d) : Traced seen f (f.clear d).2 :=
  h.replace (descends_empty seen)

/-- The replica can be read, and has the rows of what the file holds now. -/
def IsCurrent (f : ReplicaFile) (d : Disk) : Prop :=
  ∃ tasks, (f.state d).tasks = .ok tasks ∧
    ∀ t, f.load t d = .ok (.ofTasks tasks (f.state d).revision)

theorem isCurrent_of_refill (h : f.refill d = (.ok (), d')) : f.IsCurrent d' := by
  obtain ⟨tasks, revision, loaded, current, found, same⟩ := refill_ok h
  obtain ⟨rfl, here⟩ := revision_eq_ok current
  have content : (f.state d').content = (f.state d).content := Store.bytes?_congr same
  rw [IsCurrent, Replication.State.tasks_congr content, Replication.State.revision_congr content]
  exact ⟨tasks, here.symm.trans loaded, found⟩

theorem Traced.refill (h : Traced seen f d) (now : seen (f.state d).content) :
    Ends f.refill d (fun _ d' => Traced seen f d' ∧ f.IsCurrent d') (Traced seen f) := by
  have traced : Traced seen f (f.refill d).2 := by
    unfold ReplicaFile.refill
    apply Still.after (still_ask _) h
    intro revision current
    apply Still.after (still_ask _) h
    intro tasks read
    obtain ⟨rfl, here⟩ := revision_eq_ok (ask_eq_ok current).1
    exact h.replace (descends_ofTasks now (here.symm.trans (ask_eq_ok read).1))
  exact ((ends_run _ d).snd traced).mono
    (fun _ _ done => ⟨done.2, isCurrent_of_refill done.1⟩) fun _ => And.right

/-- Where contents have revisions of their own, a replica that is not stale has the rows of what the
file holds now. -/
theorem Traced.isCurrent (h : Traced seen f d) (laidOut : f.IsLaidOut d)
    (now : seen (f.state d).content)
    (apart : Set.InjOn Store.revisionOf {b | seen (some b)})
    (notStale : f.isStale d = (.ok false, d')) :
    f.IsCurrent d := by
  obtain ⟨r, c, read, rest⟩ := bind_eq_ok notStale
  obtain ⟨loaded, rfl⟩ := ask_eq_ok read
  obtain ⟨held, found⟩ := rows?_of_load laidOut loaded
  split at rest
  · cases congrArg Prod.fst rest
  · obtain ⟨revision, c', current, compared⟩ := bind_eq_ok rest
    obtain ⟨rfl, -⟩ := revision_eq_ok (ask_eq_ok current).1
    have stamp : r.revision = some (f.state c).revision := by
      simpa [Replica.isStale] using (pure_eq_ok compared).1
    obtain ⟨tasks, here, rfl⟩ := (h.rows r held).eq_ofTasks apart now stamp
    exact ⟨tasks, here, found⟩

theorem still_isStale (f : ReplicaFile) : Still f.isStale := by
  apply (still_ask _).bind
  intro r
  split
  · exact still_pure true
  · exact (still_ask _).bind fun _ => still_pure _

/-- The file of the store holds what it did, whatever is done to the replica. -/
theorem content_of_spares (isRoot : Configuration.isRoot d f.root)
    (spared : Disk.Spares f.store.place d d') : (f.state d').content = (f.state d).content := by
  have same : f.store.bytes? d' = f.store.bytes? d := Store.bytes?_of_spares isRoot spared
  rw [state, same, state]

theorem Traced.opened (h : Traced seen f d) (isRoot : Configuration.isRoot d f.root) :
    Ends (ReplicaFile.open f.root) d (fun g d' => (g = f ∧ Traced seen f d' ∧ f.IsLaidOut d') ∧
      (f.state d').content = (f.state d).content) (Traced seen f) := by
  have spared := quiet_open (foreign_store f.store) f.root d isRoot
  exact (h.open.snd (P := fun d' => (f.state d').content = (f.state d).content)
    (content_of_spares isRoot spared)).mono (fun _ _ => id) fun _ => And.left

variable {p : Project}

theorem Traced.freshReplica (h : Traced seen p.replica d) (isRoot : Configuration.isRoot d p.root)
    (now : seen (p.replica.state d).content)
    (apart : Set.InjOn Store.revisionOf {b | seen (some b)}) :
    Ends p.freshReplica d
      (fun g d' => g = p.replica ∧ Traced seen p.replica d' ∧ p.replica.IsCurrent d')
      (Traced seen p.replica) := by
  unfold Project.freshReplica
  refine .bind ((h.opened isRoot).mono (fun g c opened => ?_) fun _ => id)
  obtain ⟨⟨rfl, traced, laidOut⟩, same⟩ := opened
  rw [← same] at now
  apply (still_isStale _).ends traced
  intro isStale looked
  cases isStale with
  | false => exact ends_pure ⟨rfl, traced, traced.isCurrent laidOut now apart looked⟩
  | true =>
    refine .bind ((traced.refill now).mono (fun _ d' filled => ?_) fun _ => id)
    exact ends_pure ⟨rfl, filled⟩

theorem Traced.freshened (h : Traced seen p.replica d) (isRoot : Configuration.isRoot d p.root)
    (now : seen (p.replica.state d).content)
    (apart : Set.InjOn Store.revisionOf {b | seen (some b)}) :
    Ends p.freshReplica d (fun g d' => (g = p.replica ∧ Traced seen p.replica d' ∧
      p.replica.IsCurrent d') ∧ (p.replica.state d').content = (p.replica.state d).content)
      (Traced seen p.replica) := by
  have spared := p.quiet_freshReplica (foreign_store p.store) d isRoot
  exact ((h.freshReplica isRoot now apart).snd
    (P := fun d' => (p.replica.state d').content = (p.replica.state d).content)
    (content_of_spares isRoot spared)).mono (fun _ _ => id) fun _ => And.left

theorem Traced.refilledReplica (h : Traced seen p.replica d)
    (isRoot : Configuration.isRoot d p.root)
    (now : seen (p.replica.state d).content) : Traced seen p.replica (p.refilledReplica d).2 := by
  apply ends_iff.1
  unfold Project.refilledReplica
  refine .bind ((h.opened isRoot).mono (fun g c opened => ?_) fun _ => id)
  obtain ⟨⟨rfl, traced, -⟩, same⟩ := opened
  rw [← same] at now
  refine .bind ((traced.refill now).mono (fun _ d' filled => ?_) fun _ => id)
  exact ends_pure filled.1

end ReplicaFile
end Precedence

import Precedence.Proofs.Action
import Precedence.Proofs.Line
/-!
The store is a map. Its file is a run of whole records, every operation either leaves the file as it
is and fails or does to the tasks in it what it would do to a map, and on a disk that is in order no
operation fails.
-/
namespace Precedence.Store

open Precedence.Action

/-! Places -/

abbrev place (s : Store) : Location := s.path.location

theorem isName_file : Path.IsName "tasks.jsonl" := by constructor <;> decide

theorem isName_draft : Path.IsName "tasks.jsonl.tmp" := by constructor <;> decide

theorem place_ne_join (s : Store) (p : Path) {name : String} (h : Path.IsName name)
    (other : name ≠ "tasks.jsonl") : s.place ≠ (p.join name).location :=
  Path.join_ne_join s.directory p isName_file h other.symm

theorem place_ne_draft (s : Store) : s.place ≠ s.draft.location :=
  s.place_ne_join _ isName_draft (by decide)

/-! What the file holds -/

theorem load_congr {s : Store} {d d' : Disk} (h : d'.find? s.path = d.find? s.path) :
    s.load d' = s.load d := by
  unfold load Disk.exists? Disk.read
  rw [h]
  cases found : d.find? s.path with
  | none => rfl
  | some e => rw [Disk.look_of_find? found, Disk.look_of_find? (h.trans found)]

/-- Nothing is loaded from a directory. -/
theorem load_of_isDirectory {s : Store} {d : Disk} (h : d.isDirectory s.path) :
    s.load d = .error (.disk (.readLine 1) .isDirectory) := by
  obtain ⟨there, directory⟩ := Disk.resolve_of_isDirectory h
  have looked : d.look s.path = .ok (some .directory) := by
    rw [Disk.look, there]
    exact congrArg Except.ok directory
  rw [load, Disk.exists?_of_look looked, if_pos rfl, Disk.read, looked]
  rfl

theorem distinct_of_load {s : Store} {d : Disk} {tasks : List Task} (h : s.load d = .ok tasks) :
    (tasks.map Task.id).Nodup := by
  unfold load at h
  split at h
  · split at h
    · obtain ⟨m, rfl⟩ := exists_map_of_decode h
      exact m.distinct
    · contradiction
  · cases h
    exact List.nodup_nil

theorem exists_map_of_load {s : Store} {d : Disk} {tasks : List Task} (h : s.load d = .ok tasks) :
    ∃ m : TaskMap, tasks = m.entries := ⟨⟨tasks, distinct_of_load h⟩, rfl⟩

theorem readAll_run {s : Store} {d : Disk} {tasks : List Task} (h : s.load d = .ok tasks) :
    s.readAll d = (.ok tasks, d) := by
  rw [readAll, ask_run, h]

/-- What the file contains; where nothing stands in its place, that is nothing. -/
def Contains (s : Store) (d : Disk) (content : Bytes) : Prop :=
  d.noted? s.place = none ∧ content = [] ∨ d.look s.path = .ok (some (.file content))

theorem Contains.load {s : Store} {d : Disk} {content : Bytes} (h : s.Contains d content) :
    s.load d = decode content := by
  rcases h with ⟨absent, rfl⟩ | file
  · rw [Store.load, Disk.exists?, Disk.find?_eq_none absent]
    rfl
  · rw [Store.load, Disk.exists?_of_look file, if_pos rfl, Disk.read_of_look file]

theorem Contains.spared {s : Store} {d d' : Disk} {content : Bytes} (h : s.Contains d content)
    (spared : Disk.Spares s.place d d') : s.Contains d' content := by
  rcases h with ⟨absent, rfl⟩ | file
  · exact .inl ⟨spared.same.trans absent, rfl⟩
  · exact .inr (spared.look file)

/-- Nothing stands at the place of the file and there are no records, or the file is the run of the
records of a list of tasks. -/
def Holds (s : Store) (d : Disk) (records : List Task) : Prop :=
  d.noted? s.place = none ∧ records = [] ∨ d.look s.path = .ok (some (.file (encode records)))

def view (records : List Task) : TaskMap := TaskMap.empty.insertAll records

theorem view_append (records : List Task) (t : Task) :
    view (records ++ [t]) = (view records).insert t := TaskMap.insertAll_append _ _ _

@[simp] theorem view_entries (m : TaskMap) : view m.entries = m := m.insertAll_entries

theorem Holds.contains {s : Store} {d : Disk} {records : List Task} (h : s.Holds d records) :
    s.Contains d (encode records) := by
  rcases h with ⟨absent, rfl⟩ | file
  · exact .inl ⟨absent, rfl⟩
  · exact .inr file

theorem Holds.load {s : Store} {d : Disk} {records : List Task} (h : s.Holds d records) :
    s.load d = .ok (view records).entries := h.contains.load.trans (decode_encode records)

theorem Holds.spared {s : Store} {d d' : Disk} {records : List Task} (h : s.Holds d records)
    (spared : Disk.Spares s.place d d') : s.Holds d' records := by
  rcases h with ⟨absent, rfl⟩ | file
  · exact .inl ⟨spared.same.trans absent, rfl⟩
  · exact .inr (spared.look file)

/-! Writing -/

/-- A disk on which the file can be written: its directory is there or can be made, and then neither
the file nor its draft has a directory in its place. -/
def Ready (s : Store) (d : Disk) : Prop :=
  ∃ d', d.makeDirectories s.directory = (.ok (), d') ∧
    d'.resolve s.draft = .ok s.draft.location ∧ d'.noted? s.draft.location ≠ some .directory ∧
    d'.noted? s.place ≠ some .directory

theorem endsWith_join (p : Path) {name : String} (h : Path.IsName name) :
    (p.join name).text.endsWith '/' = false := by
  obtain ⟨front, text, -⟩ := p.join_text name
  rw [Bool.eq_false_iff, text, ne_eq, Path.endsWith_iff]
  intro last
  rw [String.toList_append,
    List.getLast?_append_of_ne_nil _ (Path.toList_ne_nil h.ne_empty)] at last
  exact h.noSlash (List.mem_of_getLast? last)

theorem resolve_path {s : Store} {d : Disk} {l : Location} (h : d.resolve s.draft = .ok l) :
    d.resolve s.path = .ok s.place := by
  obtain ⟨there, directory⟩ := Disk.walk_of_resolve_join isName_draft h
  have fits : Disk.pathFault? s.path = none :=
    Path.pathFault?_join (by decide +kernel) (by decide) (Disk.pathFault?_of_resolve h)
  exact Disk.resolve_join isName_file (by decide +kernel) fits there directory

theorem ready_of_resolve {s : Store} {d d' : Disk}
    (made : d.makeDirectories s.directory = (.ok (), d'))
    {d'' : Disk} (keeps : d'.Extends d'') (there : d'.resolve s.draft = .ok s.draft.location)
    (draft : d''.noted? s.draft.location ≠ some .directory)
    (file : d''.noted? s.place ≠ some .directory) : s.Ready d'' := by
  obtain ⟨way, directory⟩ := Disk.walk_of_resolve_join isName_draft (keeps.resolve there)
  exact ⟨d'', Disk.makeDirectories_of_walk (Disk.pathFault?_of_makeDirectories made) way directory,
    keeps.resolve there, draft, file⟩

theorem Ready.off {s : Store} {d : Disk} (h : s.Ready d) : s.place ∉ s.directory.way := by
  obtain ⟨d', -, there, -, free⟩ := h
  obtain ⟨way, directory⟩ := Disk.walk_of_resolve_join isName_draft there
  exact fun on => free (Disk.directory_of_mem_way way directory on)

/-- Above a file with tasks in it stand directories. -/
theorem off_of_load {s : Store} {d : Disk} {tasks : List Task} (loaded : s.load d = .ok tasks)
    (nonempty : tasks ≠ []) : s.place ∉ s.directory.way := by
  intro on
  unfold load at loaded
  split at loaded
  · split at loaded
    · next content read =>
      obtain ⟨there, file⟩ := Disk.noted?_of_look (Disk.look_of_read read)
      obtain ⟨way, directory⟩ := Disk.walk_of_resolve_join isName_file there
      rw [Disk.directory_of_mem_way way directory on] at file
      cases file
    · cases loaded
  · exact nonempty (Except.ok.inj loaded).symm

theorem Ready.made {s : Store} {d d' : Disk} (h : s.Ready d)
    (made : d.makeDirectories s.directory = (.ok (), d')) :
    d'.resolve s.draft = .ok s.draft.location ∧ d'.noted? s.draft.location ≠ some .directory ∧
      d'.noted? s.place ≠ some .directory := by
  obtain ⟨d'', made', rest⟩ := h
  obtain rfl : d' = d'' := (Prod.mk.inj (made.symm.trans made')).2
  exact rest

theorem ends_afterDirectory {α : Type} {s : Store} {d : Disk} {deed : Deed} {f : Unit → Action α}
    {ok : α → Disk → Prop} (off : s.place ∉ s.directory.way)
    (rest : ∀ d', d.makeDirectories s.directory = (.ok (), d') → Disk.Spares s.place d d' →
      Ends (f ()) d' ok fun d' => Disk.Spares s.place d d' ∧ ¬ s.Ready d) :
    Ends (makeDirectories deed s.directory >>= f) d ok
      fun d' => Disk.Spares s.place d d' ∧ ¬ s.Ready d := by
  have spared := d.makeDirectories_spares (.inr off)
  refine .bind (ends_makeDirectories (fun d' made => ?_) fun fault d' failed => ?_)
  · rw [made] at spared
    exact rest d' made spared
  · rw [failed] at spared
    exact ⟨spared, fun ⟨_, made, _⟩ => by simp [made] at failed⟩

section

variable {s : Store} {d d' : Disk} {content : Bytes}

theorem extends_erase_draft (written : d.look s.draft = .ok (some (.file content))) :
    d.Extends (d.erase s.draft.location) := by
  apply Disk.extends_erase
  rw [(Disk.noted?_of_look written).2]
  rintro ⟨⟩

theorem rename_draft (written : d.look s.draft = .ok (some (.file content)))
    (renamed : d.rename s.draft s.path = .ok d') :
    d.Extends d' ∧ d'.look s.path = .ok (some (.file content)) ∧
      d'.noted? s.draft.location = none := by
  have inside : s.draft.location ≠ [] := by
    rw [draft, Path.location_join _ isName_draft]
    simp
  rw [Disk.rename_eq written] at renamed
  refine ⟨?_, Disk.look_of_place renamed, ?_⟩
  · obtain ⟨-, free, rfl⟩ := Disk.place_ok renamed
    exact (extends_erase_draft written).trans (Disk.extends_put free)
  · rw [(Disk.place_spares renamed (Ne.symm s.place_ne_draft)).same]
    exact Disk.noted?_erase_self d inside

theorem rename_draft_failed {fault : Disk.Fault}
    (written : d.look s.draft = .ok (some (.file content)))
    (failed : d.rename s.draft s.path = .error fault) : d.noted? s.place = some .directory := by
  by_contra free
  have there := (extends_erase_draft written).resolve (resolve_path (Disk.noted?_of_look written).1)
  rw [← Disk.noted?_erase_ne d s.place_ne_draft] at free
  have renamed : (d.erase s.draft.location).write s.path content = .ok _ :=
    Disk.place_eq_ok _ (endsWith_join s.directory isName_file) there free
  rw [Disk.rename_eq written, renamed] at failed
  contradiction

end

/-- A file is written in full or is left as it is; it is written if the disk is ready. -/
theorem writeAll_ends (s : Store) (tasks : List Task) {d : Disk} (off : s.place ∉ s.directory.way) :
    Ends (s.writeAll tasks) d (fun _ d' => s.Holds d' tasks ∧ s.Ready d')
      (fun d' => Disk.Spares s.place d d' ∧ ¬ s.Ready d) := by
  refine ends_afterDirectory off fun d₁ made spared => ?_
  refine .bind (ends_change (fun d₂ drafted => ?_) fun fault failed => ⟨spared, fun ready => ?_⟩)
  -- The draft is written beside the file, so the file is what it was until the draft replaces it.
  · have spared₂ := Disk.place_spares drafted s.place_ne_draft
    have written := Disk.look_of_place drafted
    refine ends_change (fun d₃ renamed => ?_) fun fault failed =>
      ⟨spared.trans spared₂, fun ready => ?_⟩
    · obtain ⟨keeps, file, draft⟩ := rename_draft written renamed
      refine ⟨.inr file, ready_of_resolve made (spared₂.keeps.trans keeps) (Disk.place_ok drafted).1
        (by rw [draft]; rintro ⟨⟩) ?_⟩
      rw [place, (Disk.noted?_of_look file).2]
      rintro ⟨⟩
    · have directory := rename_draft_failed written failed
      rw [spared₂.same] at directory
      exact (ready.made made).2.2 directory
  · obtain ⟨there, free, -⟩ := ready.made made
    have drafted : d₁.write s.draft (encode tasks) = .ok _ :=
      Disk.place_eq_ok _ (endsWith_join s.directory isName_draft) there free
    rw [drafted] at failed
    contradiction

@[simp] theorem encode_append (records : List Task) (t : Task) :
    encode (records ++ [t]) = encode records ++ line t := by
  rw [encode, List.flatMap_append, List.flatMap_singleton]
  rfl

theorem look_of_append {s : Store} {d d' : Disk} {content : Bytes} {t : Task}
    (h : s.Contains d content) (added : d.append s.path (line t) = .ok d') :
    d'.look s.path = .ok (some (.file (content ++ line t))) := by
  rw [Disk.look_of_place added]
  rcases h with ⟨absent, rfl⟩ | file
  · rw [absent]
    rfl
  · rw [(Disk.noted?_of_look file).2]

/-- A line is added to whatever the file contains, or the file is left as it is; it is added if the
disk is ready. -/
theorem append_ends {s : Store} {d : Disk} {content : Bytes} (h : s.Contains d content) (t : Task)
    (off : s.place ∉ s.directory.way) :
    Ends (s.append t) d
      (fun _ d' => d'.look s.path = .ok (some (.file (content ++ line t))) ∧
        (s.Ready d → s.Ready d'))
      (fun d' => Disk.Spares s.place d d' ∧ ¬ s.Ready d) := by
  refine ends_afterDirectory off fun d₁ made spared => ?_
  refine ends_change (fun d₂ added => ?_) fun fault failed => ⟨spared, fun ready => ?_⟩
  · have file := look_of_append (h.spared spared) added
    refine ⟨file, fun ready => ?_⟩
    obtain ⟨there, free, -⟩ := ready.made made
    have spared' := Disk.place_spares added (Ne.symm s.place_ne_draft)
    apply ready_of_resolve made spared'.keeps there (by rwa [spared'.same])
    rw [place, (Disk.noted?_of_look file).2]
    rintro ⟨⟩
  · obtain ⟨there, -, free⟩ := ready.made made
    have added : d₁.append s.path (line t) = .ok _ :=
      Disk.place_eq_ok _ (endsWith_join s.directory isName_file) (resolve_path there) free
    rw [added] at failed
    contradiction

/-! Operations -/

def Shows (s : Store) (d : Disk) (m : TaskMap) : Prop :=
  ∃ records, s.Holds d records ∧ view records = m

theorem shows_of_absent {s : Store} {d : Disk} (h : d.noted? s.place = none) :
    s.Shows d TaskMap.empty := ⟨[], .inl ⟨h, rfl⟩, rfl⟩

theorem Shows.load {s : Store} {d : Disk} {m : TaskMap} (h : s.Shows d m) :
    s.load d = .ok m.entries := by
  obtain ⟨records, holds, rfl⟩ := h
  exact holds.load

theorem Shows.readAll {s : Store} {d : Disk} {m : TaskMap} (h : s.Shows d m) :
    s.readAll d = (.ok m.entries, d) := readAll_run h.load

theorem Shows.spared {s : Store} {d d' : Disk} {m : TaskMap} (h : s.Shows d m)
    (spared : Disk.Spares s.place d d') : s.Shows d' m := by
  obtain ⟨records, holds, e⟩ := h
  exact ⟨records, holds.spared spared, e⟩

/-- How an operation on a store that shows a map ends: it gives a result and the store shows another
map, or it fails and the store shows what it did. On a disk that is ready it does not fail, and the
disk stays ready. -/
def Does {α : Type} (s : Store) (d : Disk) (m : TaskMap) (a : Action α) (result : α)
    (m' : TaskMap) : Prop :=
  Ends a d (fun x d' => x = result ∧ s.Shows d' m' ∧ (s.Ready d → s.Ready d'))
    (fun d' => s.Shows d' m ∧ ¬ s.Ready d)

section

variable {s : Store} {d : Disk} {m : TaskMap}

theorem Does.pure {α : Type} (x : α) (h : s.Shows d m) : s.Does d m (pure x) x m :=
  ends_pure ⟨rfl, h, id⟩

theorem Does.bind {α β : Type} {a : Action α} {f : α → Action β} {x : α} {y : β} {m' : TaskMap}
    (h : s.Does d m a x m') (h' : f x = Pure.pure y) : s.Does d m (a >>= f) y m' := by
  refine Ends.bind (Ends.mono h ?_ fun _ => id)
  rintro _ d' ⟨rfl, shows, ready⟩
  rw [h']
  exact ends_pure ⟨rfl, shows, ready⟩

theorem ends_afterLoad {α : Type} {tasks : List Task} {f : List Task → Action α}
    {ok : α → Disk → Prop} {failed : Disk → Prop} (h : s.load d = .ok tasks)
    (rest : Ends (f tasks) d ok failed) : Ends (s.readAll >>= f) d ok failed := by
  unfold Ends at rest ⊢
  rwa [bind_ok (readAll_run h)]

theorem Shows.afterRead {α : Type} {f : List Task → Action α} {ok : α → Disk → Prop}
    {failed : Disk → Prop} (h : s.Shows d m) (rest : Ends (f m.entries) d ok failed) :
    Ends (s.readAll >>= f) d ok failed := ends_afterLoad h.load rest

theorem writeEntries_ends (off : s.place ∉ s.directory.way) (h : s.Shows d m) (m' : TaskMap) :
    Ends (s.writeAll m'.entries) d (fun _ d' => s.Shows d' m' ∧ s.Ready d')
      (fun d' => s.Shows d' m ∧ ¬ s.Ready d) :=
  (s.writeAll_ends m'.entries off).mono
    (fun _ _ done => ⟨⟨m'.entries, done.1, view_entries m'⟩, done.2⟩)
    (fun _ failed => ⟨h.spared failed.1, failed.2⟩)

theorem updateMany_ends (off : s.place ∉ s.directory.way) (h : s.Shows d m) (tasks : List Task) :
    Ends (s.updateMany tasks) d (fun _ d' => s.Shows d' (m.insertAll tasks) ∧ s.Ready d')
      (fun d' => s.Shows d' m ∧ ¬ s.Ready d) := by
  apply h.afterRead
  rw [foldl_put_entries]
  exact writeEntries_ends off h _

theorem does_writeAll (off : s.place ∉ s.directory.way) (h : s.Shows d m) (tasks : List Task) :
    s.Does d m (s.writeAll tasks) () (TaskMap.empty.insertAll tasks) :=
  (s.writeAll_ends tasks off).mono
    (fun _ _ done => ⟨rfl, ⟨tasks, done.1, rfl⟩, fun _ => done.2⟩)
    (fun _ failed => ⟨h.spared failed.1, failed.2⟩)

theorem does_append (off : s.place ∉ s.directory.way) (h : s.Shows d m) (t : Task) :
    s.Does d m (s.append t) () (m.insert t) := by
  obtain ⟨records, holds, rfl⟩ := h
  refine (append_ends holds.contains t off).mono ?_
    (fun _ failed => ⟨⟨records, holds.spared failed.1, rfl⟩, failed.2⟩)
  rintro _ d' ⟨file, ready⟩
  rw [← encode_append] at file
  exact ⟨rfl, ⟨_, .inr file, view_append records t⟩, ready⟩

theorem does_writeEntries (off : s.place ∉ s.directory.way) (h : s.Shows d m) (m' : TaskMap) :
    s.Does d m (s.writeAll m'.entries) () m' :=
  (writeEntries_ends off h m').mono (fun _ _ done => ⟨rfl, done.1, fun _ => done.2⟩) fun _ => id

theorem does_updateMany (off : s.place ∉ s.directory.way) (h : s.Shows d m) (tasks : List Task) :
    s.Does d m (s.updateMany tasks) () (m.insertAll tasks) :=
  (updateMany_ends off h tasks).mono (fun _ _ done => ⟨rfl, done.1, fun _ => done.2⟩) fun _ => id

theorem does_update (off : s.place ∉ s.directory.way) (h : s.Shows d m) (t : Task) :
    s.Does d m (s.update t) () (m.insert t) := does_updateMany off h [t]

theorem does_remove (off : s.place ∉ s.directory.way) (h : s.Shows d m) (id : TaskId) :
    s.Does d m (s.remove id) (m.has id) (m.erase id) := by
  apply h.afterRead
  have kept := m.length_erase_eq_iff id
  rw [TaskMap.erase] at kept
  dsimp only at kept ⊢
  split
  · next same =>
    have absent := kept.1 same
    have unchanged : m.erase id = m :=
      TaskMap.ext (List.length_filter_eq_length_iff.1 same |> List.filter_eq_self.2)
    rw [absent, unchanged]
    exact Does.pure false h
  · next other =>
    have present : m.has id = true := by
      cases e : m.has id with
      | true => rfl
      | false => exact absurd (kept.2 e) other
    rw [present]
    exact (does_writeEntries off h (m.erase id)).bind rfl

theorem does_compact (off : s.place ∉ s.directory.way) (h : s.Shows d m) :
    s.Does d m s.compact m.entries.length m :=
  h.afterRead ((does_writeEntries off h m).bind rfl)

theorem Shows.get? (h : s.Shows d m) (id : TaskId) : s.get? id d = (.ok (m.find? id), d) := by
  rw [Store.get?, bind_ok h.readAll]
  rfl

end

end Precedence.Store

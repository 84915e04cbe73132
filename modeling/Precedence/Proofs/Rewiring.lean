import Precedence.Proofs.Content
import Precedence.Proofs.Refusal
/-!
Editing edges. One task gets or loses a prerequisite, whatever is stored: edges that lead nowhere,
that are named twice, or that go round. Nothing else changes but depths, and no cycle is closed.
-/
namespace Precedence

open Relation

/-- A task, with its list of prerequisites edited if it is the one that is meant. -/
def Task.rewired (t : TaskId) (now : Instant) (edit : List TaskId → List TaskId) (x : Task) :
    Task :=
  if x.id = t then { x with dependsOn := edit x.dependsOn, updatedAt := now } else x

section

variable {tasks : List Task} {t q : TaskId} {now : Instant} {edit : List TaskId → List TaskId}

@[simp] theorem id_rewired (x : Task) : (x.rewired t now edit).id = x.id := by
  unfold Task.rewired
  split <;> rfl

theorem insert_rewired (now : Instant) (edit : List TaskId → List TaskId) {m : TaskMap} {x : Task}
    (hx : x ∈ m.entries) :
    (m.insert { x with dependsOn := edit x.dependsOn, updatedAt := now }).entries =
      m.entries.map (Task.rewired x.id now edit) := by
  rw [insert_entries (u := { x with dependsOn := edit x.dependsOn, updatedAt := now }) hx rfl]
  refine List.map_congr_left fun y hy => ?_
  unfold replacing Task.rewired
  by_cases same : y.id = x.id
  · obtain rfl := List.inj_on_of_nodup_map m.distinct hy hx same
    rw [if_pos rfl]
  · rw [if_neg same, if_neg same]

/-- A prerequisite that is added feeds the task that gets it, and nothing else is fed anew. -/
theorem feeds_of_added {p d : TaskId} (h : Feeds (tasks.map (Task.rewired t now (· ++ [q]))) p d) :
    Feeds tasks p d ∨ p = q ∧ d = t := by
  obtain ⟨needs, other, stored⟩ := h
  rw [ids_map fun x _ => id_rewired x] at stored
  obtain ⟨x, hx, rfl, hp⟩ := (needs_map fun x _ => id_rewired x).1 needs
  unfold Task.rewired at hp
  split at hp
  · next same =>
    rcases List.mem_append.1 hp with hp | hp
    · exact .inl ⟨⟨x, hx, rfl, hp⟩, other, stored⟩
    · exact .inr ⟨List.mem_singleton.1 hp, same⟩
  · exact .inl ⟨⟨x, hx, rfl, hp⟩, other, stored⟩

end

/-! What is said of graphs is said before anything is written -/

namespace Action

/-- An action that fails, if it does, for what is in files and where they are. -/
def FailsOnFiles {α : Type} (a : Action α) : Prop :=
  ∀ d f d', a d = (.error f, d') → ∀ fault, f ≠ .graph fault

theorem FailsOnFiles.bind {α β : Type} {a : Action α} {f : α → Action β} (h : FailsOnFiles a)
    (rest : ∀ x, FailsOnFiles (f x)) : FailsOnFiles (a >>= f) := by
  intro d fault d' failed
  rw [bind_run] at failed
  cases e : a d with
  | mk r c =>
    rw [e] at failed
    cases r with
    | ok x => exact rest x c fault d' failed
    | error other =>
      obtain rfl : other = fault := Except.error.inj (Prod.mk.inj failed).1
      exact h d other c e

theorem failsOnFiles_pure {α : Type} (x : α) : FailsOnFiles (pure x) := by
  intro d f d' failed
  rw [pure_run] at failed
  cases failed

theorem failsOnFiles_change (deed : Deed) (f : Disk → Except Disk.Fault Disk) :
    FailsOnFiles (change deed f) := by
  intro d fault d' failed
  unfold change at failed
  split at failed
  · cases failed
  · cases failed
    nofun

theorem failsOnFiles_makeDirectories (deed : Deed) (p : Path) :
    FailsOnFiles (makeDirectories deed p) := by
  intro d fault d' failed
  unfold makeDirectories at failed
  split at failed
  · cases failed
  · cases failed
    nofun

end Action

namespace Store

open Precedence.Action

theorem ne_graph_of_decodeFrom {r : Reading} {n : Nat} {lines : List Bytes} {f : Failure}
    (h : decodeFrom r n lines = .error f) (fault : GraphFault) : f ≠ .graph fault := by
  rintro rfl
  induction lines generalizing r n with
  | nil => cases h
  | cons line rest ih =>
    rw [decodeFrom] at h
    split at h
    · cases h
    · split at h
      · exact ih h
      · split at h
        · cases h
        · exact ih h

theorem failsOnFiles_readAll (s : Store) : FailsOnFiles s.readAll := by
  rintro d f d' failed fault rfl
  have unreadable : s.load d = .error (.graph fault) := (Prod.mk.inj failed).1
  unfold load at unreadable
  split at unreadable
  · split at unreadable
    · next content _ =>
      rw [decode] at unreadable
      cases e : decodeFrom {} 1 content.lines with
      | ok r =>
        rw [e] at unreadable
        cases unreadable
      | error other =>
        rw [e] at unreadable
        cases unreadable
        exact ne_graph_of_decodeFrom e fault rfl
    · cases unreadable
  · cases unreadable

theorem failsOnFiles_writeAll (s : Store) (tasks : List Task) : FailsOnFiles (s.writeAll tasks) :=
  (failsOnFiles_makeDirectories _ _).bind fun _ => (failsOnFiles_change _ _).bind fun _ =>
    failsOnFiles_change _ _

end Store

/-! Writing an edited task -/

namespace Command

open Precedence.Action

variable {p : Project} {d d' : Disk} {m : TaskMap} {t q : TaskId} {now : Instant}

theorem stored_of_mem {x : Task} (hx : x ∈ m.entries) : stored m.entries x.id = pure x := by
  have found : m.entries.find? (·.id = x.id) = some x := TaskMap.find?_eq_some_iff.2 ⟨hx, rfl⟩
  rw [stored, found]

theorem failsOnFiles_rewire (p : Project) (u : Task) : FailsOnFiles (rewire p u) := by
  have update : FailsOnFiles (p.store.update u) :=
    (Store.failsOnFiles_readAll _).bind fun _ => Store.failsOnFiles_writeAll _ _
  refine update.bind fun _ => .bind ?_ fun _ => failsOnFiles_pure ()
  refine (Store.failsOnFiles_readAll _).bind fun tasks => ?_
  dsimp only
  split
  · exact failsOnFiles_pure _
  · split
    · exact failsOnFiles_pure _
    · exact (Store.failsOnFiles_writeAll _ _).bind fun _ => failsOnFiles_pure _

/-- A task gets other prerequisites and depths are brought up to date, or nothing can be written. -/
theorem rewire_cases (loaded : p.store.load d = .ok m.entries)
    (off : p.store.place ∉ p.store.directory.way) {x : Task} (hx : x ∈ m.entries) (now : Instant)
    (edit : List TaskId → List TaskId) {u : Task}
    (edited : u = { x with dependsOn := edit x.dependsOn, updatedAt := now }) :
    (∃ d' tasks', rewire p u d = (.ok (), d') ∧ p.store.load d' = .ok tasks' ∧
        Refreshed (m.entries.map (Task.rewired x.id now edit)) tasks') ∨
      ∃ f d', rewire p u d = (.error f, d') ∧ ¬ p.store.Ready d ∧ ∀ fault, f ≠ .graph fault := by
  have ends : Ends (rewire p u) d
      (fun _ d' => ∃ tasks', p.store.load d' = .ok tasks' ∧
        Refreshed (m.entries.map (Task.rewired x.id now edit)) tasks')
      fun _ => ¬ p.store.Ready d := by
    rw [← insert_rewired now edit hx, ← edited]
    refine .bind ((Store.update_ends off u).mono (fun _ d' written => ?_) fun _ failed =>
      failed.2 _ loaded)
    obtain ⟨n, loaded', shows, ready⟩ := written
    obtain rfl : m = n := TaskMap.ext (Except.ok.inj (loaded.symm.trans loaded'))
    refine .bind ((Project.refreshDepths_ends shows ready).mono (fun _ d'' done => ?_) fun _ =>
      False.elim)
    obtain ⟨m', shows', refreshed⟩ := done
    exact ends_pure ⟨_, shows'.load, refreshed⟩
  unfold Ends at ends
  split at ends
  · next d' e =>
    obtain ⟨tasks', loaded', refreshed⟩ := ends
    exact .inl ⟨d', tasks', e, loaded', refreshed⟩
  · next f d' e => exact .inr ⟨f, d', e, ends, failsOnFiles_rewire p u d f d' e⟩

/-! Requests for edges -/

/-- What becomes of a request for an edge between two stored tasks, before anything is written. -/
theorem depend_cases (now : Instant) (loaded : p.store.load d = .ok m.entries) {x : Task}
    (hx : x ∈ m.entries) (hq : q ∈ m.entries.map Task.id) (ne : x.id ≠ q) :
    ReflTransGen (Feeds m.entries) x.id q ∧
        (∃ cycle, depend p now x.id q d = (.error (.graph (.circularDependency cycle)), d)) ∨
      ¬ ReflTransGen (Feeds m.entries) x.id q ∧
        (q ∈ x.dependsOn ∧ depend p now x.id q d = (.ok (), d) ∨
          q ∉ x.dependsOn ∧ depend p now x.id q d =
            rewire p { x with dependsOn := x.dependsOn ++ [q], updatedAt := now } d) := by
  have read := Store.readAll_run loaded
  have there : x.id ∈ (graphOf m.entries).ids := ids_graphOf m.distinct ▸ List.mem_map_of_mem hx
  have there' : q ∈ (graphOf m.entries).ids := ids_graphOf m.distinct ▸ hq
  have predicted := (sound_graphOf m.entries).cycleIfAdded_cases there there' ne
  rw [link_graphOf] at predicted
  have found : stored m.entries x.id d = (.ok x, d) := by rw [stored_of_mem hx, pure_run]
  unfold depend
  rw [bind_ok read]
  dsimp only
  rw [← graphOf]
  rcases predicted with ⟨reached, path, shown, -⟩ | ⟨unreached, nothing⟩
  · refine .inl ⟨reached, path, ?_⟩
    rw [shown]
    rfl
  · have asked : settle ((graphOf m.entries).cycleIfAdded x.id q) d = (.ok none, d) := by
      rw [nothing]
      rfl
    refine .inr ⟨unreached, ?_⟩
    rw [bind_ok asked]
    dsimp only
    rw [bind_ok found]
    by_cases old : q ∈ x.dependsOn
    · have named : x.addDependency? q now = none := if_pos old
      exact .inl ⟨old, by rw [named]; rfl⟩
    · have added : x.addDependency? q now = some _ := if_neg old
      exact .inr ⟨old, by rw [added]⟩

theorem undepend_cases (q : TaskId) (now : Instant) (loaded : p.store.load d = .ok m.entries)
    {x : Task} (hx : x ∈ m.entries) :
    q ∈ x.dependsOn ∧ undepend p now x.id q d =
        rewire p { x with dependsOn := x.dependsOn.filter (· ≠ q), updatedAt := now } d ∨
      q ∉ x.dependsOn ∧ undepend p now x.id q d = (.error (.notDependent x.id q), d) := by
  have read := Store.readAll_run loaded
  have found : stored m.entries x.id d = (.ok x, d) := by rw [stored_of_mem hx, pure_run]
  unfold undepend
  rw [bind_ok read, bind_ok found]
  by_cases old : q ∈ x.dependsOn
  · have removed : x.removeDependency? q now = some _ := if_pos old
    exact .inl ⟨old, by rw [removed]⟩
  · have unnamed : x.removeDependency? q now = none := if_neg old
    exact .inr ⟨old, by rw [unnamed]; rfl⟩

/-- What becomes of a request that a stored task depend on another one: it is refused for a cycle
exactly if there is a way back, and no cycle is closed. An edge that is there already is left alone;
else it stands at the end of the list, and only depths change besides. -/
structure AddsEdge {α : Type} (s : Store) (tasks : List Task) (t q : TaskId) (now : Instant)
    (d : Disk) (outcome : Except Failure α × Disk) : Prop where
  refused_iff : (∃ cycle, outcome.1 = .error (.graph (.circularDependency cycle))) ↔
    ReflTransGen (Feeds tasks) t q
  named : Needs tasks t q → ¬ ReflTransGen (Feeds tasks) t q → ∃ answer, outcome = (.ok answer, d)
  succeeds : ¬ ReflTransGen (Feeds tasks) t q → s.Ready d → ∃ answer, outcome.1 = .ok answer
  edited : ∀ answer, outcome.1 = .ok answer → ∃ tasks', s.load outcome.2 = .ok tasks' ∧
    (∀ c, Graph.IsCycle (Feeds tasks') c → Graph.IsCycle (Feeds tasks) c) ∧
    (¬ Needs tasks t q → Refreshed (tasks.map (Task.rewired t now (· ++ [q]))) tasks')

/-- What becomes of a request that a stored task no longer depend on another one, stored or not: it
succeeds exactly if the task names that one, which it then does not any more, and only depths change
besides. -/
structure RemovesEdge {α : Type} (s : Store) (tasks : List Task) (t q : TaskId) (now : Instant)
    (d : Disk) (outcome : Except Failure α × Disk) : Prop where
  succeeds_iff : s.Ready d → ((∃ answer, outcome.1 = .ok answer) ↔ Needs tasks t q)
  refused : ¬ Needs tasks t q → outcome = (.error (.notDependent t q), d)
  edited : ∀ answer, outcome.1 = .ok answer → ∃ tasks', s.load outcome.2 = .ok tasks' ∧
    Refreshed (tasks.map (Task.rewired t now (·.filter (· ≠ q)))) tasks'

theorem addsEdge_depend (loaded : p.store.load d = .ok m.entries)
    (off : p.store.place ∉ p.store.directory.way) {x : Task} (hx : x ∈ m.entries)
    (hq : q ∈ m.entries.map Task.id) (ne : x.id ≠ q) :
    AddsEdge p.store m.entries x.id q now d (depend p now x.id q d) := by
  rcases depend_cases now loaded hx hq ne with
    ⟨reached, cycle, e⟩ | ⟨unreached, ⟨old, e⟩ | ⟨new, e⟩⟩
  · rw [e]
    exact ⟨iff_of_true ⟨cycle, rfl⟩ reached, fun _ free => absurd reached free,
      fun free => absurd reached free, nofun⟩
  · rw [e]
    have named := (needs_iff m.distinct hx).2 old
    exact ⟨iff_of_false nofun unreached, fun _ _ => ⟨(), rfl⟩, fun _ _ => ⟨(), rfl⟩,
      fun _ _ => ⟨_, loaded, fun _ => id, absurd named⟩⟩
  · rw [e]
    rcases rewire_cases loaded off hx now (· ++ [q]) rfl with
      ⟨d', tasks', done, loaded', refreshed⟩ | ⟨f, d', failed, notReady, other⟩
    · rw [done]
      refine ⟨iff_of_false nofun unreached, fun old => absurd ((needs_iff m.distinct hx).1 old) new,
        fun _ _ => ⟨(), rfl⟩, fun _ _ => ⟨tasks', loaded', fun c cycle => ?_, fun _ => refreshed⟩⟩
      rw [feeds_of_frame refreshed.frame] at cycle
      exact cycle.of_edge (fun _ _ => feeds_of_added) unreached
    · rw [failed]
      refine ⟨iff_of_false ?_ unreached, fun old => absurd ((needs_iff m.distinct hx).1 old) new,
        fun _ ready => absurd ready notReady, nofun⟩
      rintro ⟨cycle, refused⟩
      exact other _ (Except.error.inj refused)

theorem removesEdge_undepend (loaded : p.store.load d = .ok m.entries)
    (off : p.store.place ∉ p.store.directory.way) {x : Task} (hx : x ∈ m.entries) :
    RemovesEdge p.store m.entries x.id q now d (undepend p now x.id q d) := by
  rcases undepend_cases q now loaded hx with ⟨old, e⟩ | ⟨new, e⟩
  · have needed : Needs m.entries x.id q := (needs_iff m.distinct hx).2 old
    rw [e]
    rcases rewire_cases loaded off hx now (·.filter (· ≠ q)) rfl with
      ⟨d', tasks', done, loaded', refreshed⟩ | ⟨f, d', failed, notReady, -⟩
    · rw [done]
      exact ⟨fun _ => iff_of_true ⟨(), rfl⟩ needed, fun unnamed => absurd needed unnamed,
        fun _ _ => ⟨tasks', loaded', refreshed⟩⟩
    · rw [failed]
      exact ⟨fun ready => absurd ready notReady, fun unnamed => absurd needed unnamed, nofun⟩
  · rw [e]
    exact ⟨fun _ => iff_of_false nofun (mt (needs_iff m.distinct hx).1 new), fun _ => rfl, nofun⟩

/-! Commands -/

section

variable {α β : Type} {s : Store} {tasks : List Task} {r : Except Failure α}

@[simp] theorem map_eq_error_iff {f : α → β} {e : Failure} : r.map f = .error e ↔ r = .error e := by
  cases r <;> simp [Except.map]

theorem exists_map_eq_ok_iff {f : α → β} : (∃ y, r.map f = .ok y) ↔ ∃ x, r = .ok x := by
  cases r <;> simp [Except.map]

theorem AddsEdge.map (h : AddsEdge s tasks t q now d (r, d')) (f : α → β) :
    AddsEdge s tasks t q now d (r.map f, d') where
  refused_iff := by
    simp only [map_eq_error_iff]
    exact h.refused_iff
  named needed free := by
    obtain ⟨x, e⟩ := h.named needed free
    cases e
    exact ⟨f x, rfl⟩
  succeeds free ready := exists_map_eq_ok_iff.2 (h.succeeds free ready)
  edited y done := by
    obtain ⟨x, e⟩ := exists_map_eq_ok_iff.1 ⟨y, done⟩
    exact h.edited x e

theorem RemovesEdge.map (h : RemovesEdge s tasks t q now d (r, d')) (f : α → β) :
    RemovesEdge s tasks t q now d (r.map f, d') where
  succeeds_iff ready := exists_map_eq_ok_iff.trans (h.succeeds_iff ready)
  refused unnamed := by
    cases h.refused unnamed
    rfl
  edited y done := by
    obtain ⟨x, e⟩ := exists_map_eq_ok_iff.1 ⟨y, done⟩
    exact h.edited x e

theorem typedId_run {raw : String} {id : TaskId} (h : TaskId.ofParameter raw = .ok id) (d : Disk) :
    typedId raw d = (.ok id, d) := by
  rw [typedId, h]
  rfl

end

/-- Commands that add or remove an edge edit this edge alone, in any project whose tasks can be
loaded, whatever these name. -/
theorem one_edge_edited {env : Environment} {tasks : List Task} {rawT rawQ : String}
    (here : Project.openHere env d = (.ok p, d)) (loaded : p.store.load d = .ok tasks)
    (typed : TaskId.ofParameter rawT = .ok t) (typed' : TaskId.ofParameter rawQ = .ok q)
    (stored : t ∈ tasks.map Task.id) (clock : Clock) (backend : Option Backend) :
    (q ∈ tasks.map Task.id → t ≠ q → AddsEdge p.store tasks t q clock.now d
      (run env clock backend (.task (.depend rawT rawQ)) d)) ∧
    RemovesEdge p.store tasks t q clock.now d
      (run env clock backend (.task (.undepend rawT rawQ)) d) := by
  obtain ⟨x, hx, rfl⟩ := List.mem_map.1 stored
  have off := Store.off_of_load loaded (List.ne_nil_of_mem hx)
  obtain ⟨m, rfl⟩ : ∃ m : TaskMap, tasks = m.entries :=
    ⟨⟨tasks, Store.distinct_of_load loaded⟩, rfl⟩
  constructor
  · intro hq ne
    show AddsEdge _ _ _ _ _ _ (runDepend env clock.now rawT rawQ d)
    rw [runDepend, bind_ok here, bind_ok (typedId_run typed d), bind_ok (typedId_run typed' d),
      answered_run]
    exact (addsEdge_depend loaded off hx hq ne).map _
  · show RemovesEdge _ _ _ _ _ _ (runUndepend env clock.now rawT rawQ d)
    rw [runUndepend, bind_ok here, bind_ok (typedId_run typed d), bind_ok (typedId_run typed' d),
      answered_run]
    exact (removesEdge_undepend loaded off hx).map _

open TaskMap in
/-- A task that names another one twice, one that is not stored, and itself, and a depth that is
wrong. -/
def tangled : TaskMap :=
  ⟨[sample a "x", { sample b "y" with dependsOn := [a, a, c, b], depth := 7 }], by decide⟩

def tangledDisk : Disk := Store.fileDisk (Store.encode tangled.entries)

theorem load_tangledDisk : Store.sampleStore.load tangledDisk = .ok tangled.entries :=
  (Store.shows_fileDisk tangled).load

/-- A project without settings, whatever is in its store. -/
theorem exists_openHere_fileDisk (b : Bytes) : ∃ p, p.store = Store.sampleStore ∧
    Project.openHere (CommandLine.sample []).env (Store.fileDisk b) =
      (.ok p, Store.fileDisk b) := by
  have opened : (Project.openHere (CommandLine.sample []).env (Store.fileDisk b)).1.toOption.map
      Project.root = some ⟨"/p", []⟩ := by with_unfolding_all rfl
  have same : (Project.openHere (CommandLine.sample []).env (Store.fileDisk b)).2 =
      Store.fileDisk b :=
    Project.still_openHere _
  cases e : Project.openHere (CommandLine.sample []).env (Store.fileDisk b) with
  | mk r d' =>
    rw [e] at opened same
    cases r with
    | error _ => cases opened
    | ok p =>
      obtain rfl : d' = Store.fileDisk b := same
      refine ⟨p, ?_, rfl⟩
      rw [Project.store, Option.some.inj opened]
      decide +kernel

theorem exists_openHere_tangledDisk : ∃ p, p.store = Store.sampleStore ∧
    Project.openHere (CommandLine.sample []).env tangledDisk = (.ok p, tangledDisk) :=
  exists_openHere_fileDisk _

open TaskMap in
/-- The edge that is named twice is removed, and it would close a cycle the other way round. -/
theorem one_edge_edited_of_tangled : ∃ p : Project,
    Project.openHere (CommandLine.sample []).env tangledDisk = (.ok p, tangledDisk) ∧
    p.store.load tangledDisk = .ok tangled.entries ∧
    (∃ cycle, (run (CommandLine.sample []).env (CommandLine.sample []).clock none
      (.task (.depend "a" "b")) tangledDisk).1 = .error (.graph (.circularDependency cycle))) ∧
    ∃ answer tasks', (run (CommandLine.sample []).env (CommandLine.sample []).clock none
        (.task (.undepend "b" "a")) tangledDisk).1 = .ok answer ∧
      p.store.load (run (CommandLine.sample []).env (CommandLine.sample []).clock none
        (.task (.undepend "b" "a")) tangledDisk).2 = .ok tasks' ∧
      Refreshed (tangled.entries.map (Task.rewired b leapDay (·.filter (· ≠ a)))) tasks' := by
  obtain ⟨p, store, here⟩ := exists_openHere_tangledDisk
  have loaded : p.store.load tangledDisk = .ok tangled.entries := store ▸ load_tangledDisk
  have ready : p.store.Ready tangledDisk := store ▸ Store.ready_fileDisk _
  have typedA : TaskId.ofParameter "a" = .ok a := by decide +kernel
  have typedB : TaskId.ofParameter "b" = .ok b := by decide +kernel
  have storedA : a ∈ tangled.entries.map Task.id := by decide
  have storedB : b ∈ tangled.entries.map Task.id := by decide
  have needed : Needs tangled.entries b a :=
    ⟨_, List.mem_cons_of_mem _ List.mem_cons_self, rfl, by decide⟩
  obtain ⟨adds, -⟩ :=
    one_edge_edited here loaded typedA typedB storedA (CommandLine.sample []).clock none
  obtain ⟨-, removes⟩ :=
    one_edge_edited here loaded typedB typedA storedB (CommandLine.sample []).clock none
  have refused := (adds storedB (by decide)).refused_iff.2 (.single ⟨needed, by decide, storedA⟩)
  obtain ⟨answer, done⟩ := (removes.succeeds_iff ready).2 needed
  obtain ⟨tasks', loaded', refreshed⟩ := removes.edited answer done
  exact ⟨p, here, loaded, refused, answer, tasks', done, loaded', refreshed⟩

end Command

end Precedence

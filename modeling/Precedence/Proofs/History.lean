import Precedence.Proofs.Keeping
import Precedence.Proofs.Session
/-!
Histories of an open project. Analyzers are asked for by turns from the store and from its replica,
depths are brought up to date, the replica is filled and emptied, and the file of the store is
changed by others. Whatever happened, the project hands out analyzers that answer as those of a
project that is only opened then.
-/
namespace Precedence

namespace Project

open Precedence.Action

variable {p q : Project} {d : Disk}

/-- The analyzer that a project hands out, and what it leaves on the disk. -/
def outcome (p : Project) (backend : Option Backend) (d : Disk) : Except Failure Analyzer :=
  (p.analyzer backend d).1.map (·.1.analyzer)

theorem share_run (p : Project) (source : Disk → Source Failure) (d : Disk) :
    p.share source d = ((p.shared.get (source d)).1.map fun issue =>
      (issue, { p with shared := (p.shared.get (source d)).2 }), d) := by
  unfold share
  rw [bind_ok (get_run d)]
  dsimp only
  rw [bind_run, ask_run]
  cases (p.shared.get (source d)).1 <;> rfl

theorem analyzer_jsonl {backend : Option Backend} (h : backend.getD p.settings.store = .jsonl) :
    p.analyzer backend = p.share p.store.source := by rw [analyzer, h]

theorem analyzer_sqlite {backend : Option Backend} (h : backend.getD p.settings.store = .sqlite) :
    p.analyzer backend = p.freshReplica >>= fun f => p.share f.source := by rw [analyzer, h]

theorem freshReplica_congr (root : q.root = p.root) : q.freshReplica = p.freshReplica := by
  unfold freshReplica
  rw [root]

theorem open_eq_ok {env : Environment} {root : Path}
    (h : (Project.open env root d).1 = .ok p) : Configuration.isRoot d root ∧
      p.root = root ∧ p.shared = { options := p.settings.analysis } ∧
        Configuration.loadProject root d = .ok p.settings := by
  obtain ⟨settings, c, read, rest⟩ := bind_eq_ok (Prod.ext h rfl)
  obtain ⟨read, rfl⟩ := ask_eq_ok read
  obtain ⟨rfl, -⟩ := pure_eq_ok rest
  split at read
  · next isRoot =>
    obtain ⟨configuration, loaded, rfl⟩ := exists_of_map_eq_ok read
    obtain ⟨user, -, rest⟩ := exists_of_bind_eq_ok loaded
    obtain ⟨settings, own, rest⟩ := exists_of_bind_eq_ok rest
    obtain rfl := Except.ok.inj rest
    exact ⟨isRoot, rfl, rfl, own⟩
  · cases read

theorem open_ok {env : Environment} {root : Path} {user : UserSettings} {settings : ProjectSettings}
    (isRoot : Configuration.isRoot d root) (ofUser : Configuration.loadUser env d = .ok user)
    (own : Configuration.loadProject root d = .ok settings) :
    (Project.open env root d).1 =
      .ok { root, settings, shared := { options := settings.analysis } } := by
  have loaded : Configuration.ofProject env root d =
      .ok { project := settings, user, root := some root } := by
    rw [Configuration.ofProject, ofUser, own]
    rfl
  rw [Project.open, bind_run, ask_run, if_pos isRoot, loaded]
  rfl

end Project

theorem Configuration.loadProject_congr {root : Path} {d d' : Disk}
    (same : d'.look (projectFile root) = d.look (projectFile root)) :
    loadProject root d' = loadProject root d := by
  unfold loadProject loadFile Disk.exists? Disk.find? Disk.readText Disk.read
  dsimp only
  rw [same]

namespace History

open Precedence.Action

/-- What is done with a project while it is open. -/
inductive Event where
  | analyzer (backend : Option Backend)
  | refreshDepths
  | rebuild
  | clear
  /-- Somebody writes the file of the store, or takes it away. -/
  | edit (content : Option Bytes)

/-- The disk after somebody wrote the file of a store, or took it away, unless a directory is
there. -/
def overwrite (s : Store) (content : Option Bytes) (d : Disk) : Disk :=
  if d.noted? s.place = some .directory then d
  else match content with
    | some b => d.put s.place (.file b)
    | none => d.erase s.place

/-- What an event makes of a project. -/
def Event.run (p : Project) : Event → Action Project
  | .analyzer backend => do return (← p.analyzer backend).2
  | .refreshDepths => do return (← p.refreshDepths).2
  | .rebuild => do
    let _ ← p.refilledReplica
    return p
  | .clear => do
    let f ← ReplicaFile.open p.root
    f.clear
    return p
  | .edit content => do
    modify (overwrite p.store content)
    return p

/-- A project and its disk after an event, whether or not that succeeds. -/
def step (s : Project × Disk) (e : Event) : Project × Disk :=
  match e.run s.1 s.2 with
  | (.ok p, d) => (p, d)
  | (.error _, d) => (s.1, d)

def run (s : Project × Disk) (events : List Event) : Project × Disk := events.foldl step s

/-- What can be read of the file of the store in the course of some events. -/
def contents (s : Project × Disk) : List Event → List (Option Bytes)
  | [] => [s.1.store.bytes? s.2]
  | e :: events => s.1.store.bytes? s.2 :: contents (step s e) events

variable {seen : Option Bytes → Prop} {root : Path} {settings : Except Disk.Fault (Option Entry)}
  {p : Project} {d d' : Disk}

/-! What an event does to the disk -/

/-- A disk with a project, whose settings are given and whose replica has rows of known contents. -/
structure Stands (seen : Option Bytes → Prop) (root : Path)
    (settings : Except Disk.Fault (Option Entry)) (d : Disk) : Prop where
  isRoot : Configuration.isRoot d root
  settings_eq : d.look (Configuration.projectFile root) = settings
  traced : ReplicaFile.Traced seen ⟨root⟩ d

theorem Stands.spared (h : Stands seen root settings d)
    (spared : Disk.Spares (Configuration.projectFile root).location d d')
    (traced : ReplicaFile.Traced seen ⟨root⟩ d') : Stands seen root settings d' where
  isRoot := spared.keeps.isDirectory h.isRoot
  settings_eq :=
    (Disk.look_of_spares h.isRoot Project.isName_settings (by decide +kernel) spared).trans
      h.settings_eq
  traced := traced

theorem foreign_settings (root : Path) :
    ReplicaFile.Foreign (Configuration.projectFile root).location :=
  ReplicaFile.foreign_join _ Project.isName_settings (by decide) (by decide) fun x => by
    cases x <;> decide

theorem Stands.quiet (h : Stands seen root settings d) {α : Type} {a : Action α}
    (quiet : Quiet root (Configuration.projectFile root).location a)
    (traced : ReplicaFile.Traced seen ⟨root⟩ (a d).2) : Stands seen root settings (a d).2 :=
  h.spared (quiet d h.isRoot) traced

theorem Stands.analyzer (h : Stands seen p.root settings d) (now : seen (p.store.bytes? d))
    (apart : Set.InjOn Store.revisionOf {b | seen (some b)}) (backend : Option Backend) :
    Stands seen p.root settings (p.analyzer backend d).2 := by
  apply h.quiet (p.quiet_analyzer (foreign_settings p.root) backend)
  cases asked : backend.getD p.settings.store with
  | jsonl =>
    rw [Project.analyzer_jsonl asked, p.still_share]
    exact h.traced
  | sqlite =>
    rw [Project.analyzer_sqlite asked, snd_bind_of_still fun _ => p.still_share _]
    exact ends_iff.1 ((h.traced.freshReplica h.isRoot now apart).mono (fun _ _ done => done.2.1)
      fun _ => id)

theorem Stands.rebuild (h : Stands seen p.root settings d) (now : seen (p.store.bytes? d)) :
    Stands seen p.root settings (p.refilledReplica d).2 :=
  h.quiet (p.quiet_refilledReplica (foreign_settings p.root))
    (h.traced.refilledReplica h.isRoot now)

theorem Stands.clear (h : Stands seen p.root settings d) :
    Stands seen p.root settings ((ReplicaFile.open p.root >>= ReplicaFile.clear) d).2 := by
  have foreign := foreign_settings p.root
  refine h.quiet ((ReplicaFile.quiet_open foreign p.root).bind fun f =>
    ReplicaFile.quiet_replace foreign {}) (ends_iff.1 (.bind ?_))
  refine h.traced.open.mono (fun f c opened => ?_) fun _ => id
  obtain ⟨rfl, traced, -⟩ := opened
  exact ends_iff.2 traced.clear

theorem misses_join (s : Store) (q : Path) {name : String} (isName : Path.IsName name)
    (file : name ≠ "tasks.jsonl") (draft : name ≠ "tasks.jsonl.tmp") :
    s.Misses (q.join name).location :=
  ⟨Path.join_ne_join q _ isName Store.isName_draft draft,
    fun same => absurd same (Path.join_ne_join q _ isName Store.isName_file file)⟩

/-- Depths are written to the file of the store, and nowhere else. -/
theorem Stands.refreshDepths (h : Stands seen p.root settings d) :
    Stands seen p.root settings (p.refreshDepths d).2 := by
  obtain ⟨keeps, same⟩ := Command.within_refreshDepths p d h.isRoot
  refine h.spared ⟨keeps, same _ (misses_join _ _ Project.isName_settings (by decide) (by decide))⟩
    (h.traced.congr (same _ (misses_join _ _ ReplicaFile.isName_file (by decide) (by decide))))

theorem spares_overwrite {s : Store} {l : Location} (other : l ≠ s.place) (content : Option Bytes)
    (d : Disk) : Disk.Spares l d (overwrite s content d) := by
  unfold overwrite
  split
  · exact .refl l d
  · next free =>
    cases content with
    | some b => exact Disk.spares_put free other
    | none => exact Disk.spares_erase free other

theorem Stands.edit (h : Stands seen p.root settings d) (content : Option Bytes) :
    Stands seen p.root settings (overwrite p.store content d) := by
  have beside : p.replica.path.location ≠ p.store.place := p.replica.place_ne.symm
  exact h.spared (spares_overwrite (Path.join_ne_join _ _ Project.isName_settings Store.isName_file
    (by decide)) content d) (h.traced.congr (spares_overwrite beside content d).same)

theorem Stands.event (h : Stands seen p.root settings d) (now : seen (p.store.bytes? d))
    (apart : Set.InjOn Store.revisionOf {b | seen (some b)}) (e : Event) :
    Stands seen p.root settings (e.run p d).2 := by
  cases e with
  | analyzer backend =>
    rw [Event.run, snd_bind_of_still fun _ => still_pure _]
    exact h.analyzer now apart backend
  | refreshDepths =>
    rw [Event.run, snd_bind_of_still fun _ => still_pure _]
    exact h.refreshDepths
  | rebuild =>
    rw [Event.run, snd_bind_of_still fun _ => still_pure _]
    exact h.rebuild now
  | clear =>
    have same : Event.run p .clear =
        (ReplicaFile.open p.root >>= ReplicaFile.clear) >>= fun _ => pure p :=
      (bind_assoc ..).symm
    rw [same, snd_bind_of_still fun _ => still_pure _]
    exact h.clear
  | edit content => exact h.edit content

/-! What an event does to the project -/

/-- A project goes on as another one: its root and settings stay, and it keeps an analyzer of a
known content, if any. -/
structure Continues (seen : Option Bytes → Prop) (p q : Project) : Prop where
  root : q.root = p.root
  settings : q.settings = p.settings
  kept : q.shared.Keeps seen p.settings.analysis

theorem Continues.trans {q r : Project} (h : Continues seen p q) (h' : Continues seen q r) :
    Continues seen p r where
  root := h'.root.trans h.root
  settings := h'.settings.trans h.settings
  kept := by
    rw [← h.settings]
    exact h'.kept

/-- A project that shares what a source supplies goes on as it was. -/
theorem continues_share {source : Disk → Source Failure} {x : Replication.State}
    (kept : p.shared.Keeps seen p.settings.analysis) (supplies : (source d).Supplies x)
    (now : seen x.content) :
    Ends (p.share source) d (fun r _ => Continues seen p r.2) fun _ => True := by
  unfold Ends
  rw [p.share_run]
  cases (p.shared.get (source d)).1 with
  | error e => trivial
  | ok issue => exact ⟨rfl, rfl, kept.get supplies now⟩

theorem continues_analyzer (kept : p.shared.Keeps seen p.settings.analysis)
    (stands : Stands seen p.root settings d)
    (now : seen (p.store.bytes? d)) (apart : Set.InjOn Store.revisionOf {b | seen (some b)})
    (backend : Option Backend) :
    Ends (p.analyzer backend) d (fun r _ => Continues seen p r.2) fun _ => True := by
  cases asked : backend.getD p.settings.store with
  | jsonl =>
    rw [Project.analyzer_jsonl asked]
    exact continues_share kept (p.replica.supplies_store d) now
  | sqlite =>
    rw [Project.analyzer_sqlite asked]
    refine .bind ((stands.traced.freshened stands.isRoot now apart).mono (fun f c fresh => ?_)
      fun _ _ => trivial)
    obtain ⟨⟨rfl, -, current⟩, same⟩ := fresh
    exact continues_share kept current.supplies (same.symm ▸ now)

theorem continues_refreshDepths (kept : p.shared.Keeps seen p.settings.analysis) (d : Disk) :
    Ends p.refreshDepths d (fun r _ => Continues seen p r.2) fun _ => True := by
  unfold Project.refreshDepths
  apply (still_ask _).ends trivial
  intro tasks _
  dsimp only
  split
  · exact ends_pure ⟨rfl, rfl, kept⟩
  · split
    · exact ends_pure ⟨rfl, rfl, kept⟩
    · exact .bind ((ends_run _ d).mono (fun _ _ _ => ends_pure ⟨rfl, rfl, kept.invalidate⟩)
        fun _ => id)

theorem continues_event (kept : p.shared.Keeps seen p.settings.analysis)
    (stands : Stands seen p.root settings d)
    (now : seen (p.store.bytes? d)) (apart : Set.InjOn Store.revisionOf {b | seen (some b)})
    (e : Event) : Ends (e.run p) d (fun q _ => Continues seen p q) fun _ => True := by
  have after {α : Type} (a : Action α) :
      Ends (a >>= fun _ => pure p) d (fun q _ => Continues seen p q) fun _ => True :=
    .bind ((ends_run a d).mono (fun _ _ _ => ends_pure ⟨rfl, rfl, kept⟩) fun _ => id)
  cases e with
  | analyzer backend =>
    exact .bind ((continues_analyzer kept stands now apart backend).mono
      (fun _ _ continues => ends_pure continues) fun _ => id)
  | refreshDepths =>
    exact .bind ((continues_refreshDepths kept d).mono (fun _ _ continues => ends_pure continues)
      fun _ => id)
  | rebuild => exact after _
  | clear =>
    rw [Event.run, ← bind_assoc]
    exact after _
  | edit content => exact after _

/-- What holds in the course of a history: the project goes on as it was opened, on a disk that has
not lost it. -/
structure Inv (seen : Option Bytes → Prop) (p : Project)
    (settings : Except Disk.Fault (Option Entry)) (s : Project × Disk) : Prop where
  continues : Continues seen p s.1
  stands : Stands seen p.root settings s.2

theorem Inv.step {s : Project × Disk} (h : Inv seen p settings s)
    (now : seen (s.1.store.bytes? s.2))
    (apart : Set.InjOn Store.revisionOf {b | seen (some b)}) (e : Event) :
    Inv seen p settings (step s e) := by
  obtain ⟨q, d⟩ := s
  obtain ⟨continues, stands⟩ := h
  have here : Stands seen q.root settings d := by rwa [continues.root]
  have kept : q.shared.Keeps seen q.settings.analysis := by
    rw [continues.settings]
    exact continues.kept
  have ends := continues_event kept here now apart e
  have stands' := here.event now apart e
  rw [continues.root] at stands'
  unfold Ends at ends
  unfold History.step
  dsimp only
  cases done : e.run q d with
  | mk r d' =>
    rw [done] at ends stands'
    cases r with
    | error _ => exact ⟨continues, stands'⟩
    | ok q' => exact ⟨continues.trans ends, stands'⟩

theorem Inv.run {s : Project × Disk} {events : List Event} (h : Inv seen p settings s)
    (known : ∀ c ∈ contents s events, seen c)
    (apart : Set.InjOn Store.revisionOf {b | seen (some b)}) :
    Inv seen p settings (run s events) ∧ seen ((run s events).1.store.bytes? (run s events).2) := by
  induction events generalizing s with
  | nil => exact ⟨h, known _ List.mem_cons_self⟩
  | cons e events ih =>
    obtain ⟨now, later⟩ := List.forall_mem_cons.1 known
    exact ih (h.step now apart e) later

/-! What is handed out -/

theorem outcome_share {source : Disk → Source Failure} : (p.share source d).1.map (·.1.analyzer) =
    (p.shared.get (source d)).1.map (·.analyzer) := by
  rw [p.share_run]
  cases (p.shared.get (source d)).1 <;> rfl

/-- Projects with one root and the same settings hand out analyzers that answer alike, whatever they
keep. -/
theorem outcome_alike {q : Project} {backend : Option Backend} (continues : Continues seen p q)
    (kept : p.shared.Keeps seen p.settings.analysis) (stands : Stands seen p.root settings d)
    (now : seen (p.store.bytes? d)) (apart : Set.InjOn Store.revisionOf {b | seen (some b)})
    (fits : backend.getD p.settings.store = .sqlite →
      ∀ tasks, p.store.load d = .ok tasks → ∀ t ∈ tasks, t.FitsRow) :
    AlikeOutcomes (q.outcome backend d) (p.outcome backend d) ∧
      ((∀ tasks, p.store.load d = .ok tasks → ∀ t ∈ tasks, t.dependsOn.Nodup) →
        q.outcome backend d = p.outcome backend d) := by
  have store : q.store = p.store := congrArg Store.ofRoot continues.root
  unfold Project.outcome
  cases asked : backend.getD p.settings.store with
  | jsonl =>
    have asked' : backend.getD q.settings.store = .jsonl := by rw [continues.settings, asked]
    rw [Project.analyzer_jsonl asked, Project.analyzer_jsonl asked', outcome_share, outcome_share,
      store]
    obtain ⟨like, same⟩ := continues.kept.alike kept (p.replica.supplies_store d) now apart
      (p.replica.provides_store d)
    exact ⟨like, fun once => same (ReplicaFile.forall_of_load once)⟩
  | sqlite =>
    have asked' : backend.getD q.settings.store = .sqlite := by rw [continues.settings, asked]
    rw [Project.analyzer_sqlite asked, Project.analyzer_sqlite asked',
      Project.freshReplica_congr continues.root, bind_run, bind_run]
    have ends := stands.traced.freshened stands.isRoot now apart
    unfold Ends at ends
    cases fresh : p.freshReplica d with
    | mk r c =>
      cases r with
      | error e => exact ⟨.failed e, fun _ => rfl⟩
      | ok f =>
        rw [fresh] at ends
        obtain ⟨⟨rfl, -, current⟩, content⟩ := ends
        have now' : seen (p.replica.state c).content := by
          rw [content]
          exact now
        have tasks_eq := Replication.State.tasks_congr content
        have provides : (p.replica.source c).Provides (p.replica.state c) := by
          apply current.provides
          rw [tasks_eq]
          exact ReplicaFile.forall_of_load (fits asked)
        obtain ⟨like, same⟩ := continues.kept.alike kept current.supplies now' apart provides
        rw [tasks_eq] at same
        dsimp only
        rw [outcome_share, outcome_share]
        exact ⟨like, fun once => same (ReplicaFile.forall_of_load once)⟩

/-- Whatever was done with a project since it was opened, and whatever others made of its file, it
goes on as if it had only just been opened: a project can be newly opened in the same place, and
each backend then fails as the one of the new project does, or gives an analyzer that answers every
question as the new one does, whatever it was asked before. Reports of unsound edges may differ in
how often they name one, unless no task repeats a prerequisite. Contents of the file are told apart
by their revisions, any rows that were there at first descend from a content, and the replica can
hold the times of the present tasks. -/
theorem answers_as_new {env env' : Environment} {root : Path} {d₀ : Disk}
    {past : Option Bytes → Prop}
    (opened : (Project.open env root d₀).1 = .ok p) (traced : ReplicaFile.Traced past ⟨root⟩ d₀)
    (events : List Event)
    (apart : Set.InjOn Store.revisionOf {b | past (some b) ∨ some b ∈ contents (p, d₀) events})
    {user : UserSettings} (ofUser : Configuration.loadUser env' (run (p, d₀) events).2 = .ok user)
    (backend : Option Backend) (fits : backend.getD p.settings.store = .sqlite → ∀ tasks,
      p.store.load (run (p, d₀) events).2 = .ok tasks → ∀ t ∈ tasks, t.FitsRow) :
    let (p', d) := run (p, d₀) events
    ∃ q, (Project.open env' root d).1 = .ok q ∧
      AlikeOutcomes (p'.outcome backend d) (q.outcome backend d) ∧
      ((∀ tasks, q.store.load d = .ok tasks → ∀ t ∈ tasks, t.dependsOn.Nodup) →
        p'.outcome backend d = q.outcome backend d) := by
  obtain ⟨isRoot, rfl, shared, own⟩ := Project.open_eq_ok opened
  have start : Inv (fun c => past c ∨ c ∈ contents (p, d₀) events) p
      (d₀.look (Configuration.projectFile p.root)) (p, d₀) := by
    refine ⟨⟨rfl, rfl, ?_⟩, isRoot, rfl, traced.mono fun _ was => .inl was⟩
    rw [shared]
    exact AnalyzerCache.keeps_new _ _
  obtain ⟨⟨continues, stands⟩, now⟩ := start.run (fun _ there => .inr there) apart
  generalize run (p, d₀) events = s at *
  obtain ⟨p', d⟩ := s
  have own' : Configuration.loadProject p.root d = .ok p.settings :=
    (Configuration.loadProject_congr stands.settings_eq).trans own
  let q : Project := { p with shared := { options := p.settings.analysis } }
  have store : p'.store = q.store := congrArg Store.ofRoot continues.root
  rw [store] at now
  have continues' : Continues (fun c => past c ∨ c ∈ contents (p, d₀) events) q p' :=
    ⟨continues.root, continues.settings, continues.kept⟩
  exact ⟨q, Project.open_ok stands.isRoot ofUser own',
    outcome_alike continues' (AnalyzerCache.keeps_new _ _) stands now apart fits⟩

/-- Somebody at the root of a project, without settings of their own. -/
def lone : Environment := { here := ⟨"/p", []⟩, userDirectory := none }

def sampleTasks : List Task := [TaskMap.sample TaskMap.a "x"]

/-- The store is asked before there is a file, and then a file is written. -/
def sampleEvents : List Event := [.analyzer (some .jsonl), .edit (some (Store.encode sampleTasks))]

theorem answers_as_new_after_edit :
    (Project.open lone ⟨"/p", []⟩ Replication.bareDisk).1 = .ok .sample ∧
      let (p, d) := run (.sample, Replication.bareDisk) sampleEvents
      Store.load (.ofRoot ⟨"/p", []⟩) d = .ok sampleTasks ∧
        ∃ q, (Project.open lone ⟨"/p", []⟩ d).1 = .ok q ∧
          AlikeOutcomes (p.outcome (some .sqlite) d) (q.outcome (some .sqlite) d) ∧
          p.outcome (some .sqlite) d = q.outcome (some .sqlite) d := by
  have opened : (Project.open lone ⟨"/p", []⟩ Replication.bareDisk).1 = .ok .sample :=
    Project.open_ok (by decide +kernel) rfl (eq_ok_of_toOption (by decide +kernel))
  have traced : ReplicaFile.Traced (fun _ => False) ⟨⟨"/p", []⟩⟩ Replication.bareDisk := by
    have none : ReplicaFile.rows? ⟨⟨"/p", []⟩⟩ Replication.bareDisk = none := by decide +kernel
    refine ⟨fun r held => ?_⟩
    rw [none] at held
    cases held
  have contents_eq : contents (.sample, Replication.bareDisk) sampleEvents =
      [none, none, some (Store.encode sampleTasks)] := by decide +kernel
  have apart : Set.InjOn Store.revisionOf
      {b | False ∨ some b ∈ contents (.sample, Replication.bareDisk) sampleEvents} := by
    rw [contents_eq]
    intro b there c there' _
    simp at there there'
    rw [there, there']
  have written :
      Store.bytes? (.ofRoot ⟨"/p", []⟩) (run (.sample, Replication.bareDisk) sampleEvents).2 =
        some (Store.encode sampleTasks) := by
    decide +kernel
  have stored :
      Store.load (.ofRoot ⟨"/p", []⟩) (run (.sample, Replication.bareDisk) sampleEvents).2 =
        .ok sampleTasks := by
    have contains : Store.Contains _ _ _ := .inr (Store.look_of_bytes? written)
    exact contains.load.trans (Store.decode_encode sampleTasks)
  have all {P : Task → Prop} (h : P (TaskMap.sample TaskMap.a "x")) : ∀ tasks,
      Store.load (.ofRoot ⟨"/p", []⟩) (run (.sample, Replication.bareDisk) sampleEvents).2 =
        .ok tasks →
      ∀ t ∈ tasks, P t := by
    intro tasks loaded t ht
    obtain rfl := Except.ok.inj (stored.symm.trans loaded)
    rwa [List.mem_singleton.1 ht]
  have ofUser (d : Disk) : Configuration.loadUser lone d = .ok {} := rfl
  obtain ⟨q, renewed, like, same⟩ :=
    answers_as_new opened traced sampleEvents apart (ofUser _) (some .sqlite) fun _ =>
      all ⟨⟨by decide, by decide⟩, ⟨by decide, by decide⟩, fun _ h => nomatch h⟩
  obtain ⟨-, root, -, -⟩ := Project.open_eq_ok renewed
  refine ⟨opened, stored, q, renewed, like, same ?_⟩
  rw [Project.store, root]
  exact all List.nodup_nil

/-- How many faults a project reports of its replica once its store was asked, and how many a
project that is opened then. -/
def faultCounts (d : Disk) : Option (Option Nat × Option Nat) := do
  let p ← (Project.open lone ⟨"/p", []⟩ d).1.toOption
  let (p, d) := run (p, d) [.analyzer (some .jsonl)]
  let q ← (Project.open lone ⟨"/p", []⟩ d).1.toOption
  return (Project.faultCount (p.outcome (some .sqlite) d),
    Project.faultCount (q.outcome (some .sqlite) d))

/-- An unsound edge that is named twice is reported twice if the store was asked first, and a year
of five digits does no harm then. -/
theorem differs_from_new : faultCounts Project.repeatDisk = some (some 2, some 1) ∧
    faultCounts Project.lateDisk = some (some 0, none) :=
  ⟨by decide +kernel, by decide +kernel⟩

end History
end Precedence

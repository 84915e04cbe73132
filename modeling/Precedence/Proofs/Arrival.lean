import Precedence.Proofs.Deepening
/-!
New tasks. The depth of a new task is computed from what its prerequisites record, so it is right as
far as they are. No depth is brought up to date.
-/
namespace Precedence

open Relation

/-! A task behind stored ones -/

section

variable {tasks : List Task} {t : Task} {p d v : TaskId} {n : Nat}

theorem needs_concat :
    Needs (tasks ++ [t]) d p ↔ Needs tasks d p ∨ t.id = d ∧ p ∈ t.dependsOn := by
  simp [Needs, or_and_right, exists_or]

variable (fits : Fits tasks t)

include fits

theorem Fits.not_mem : t.id ∉ t.dependsOn := fun self => fits.new (fits.stored t.id self)

theorem feeds_concat : Feeds (tasks ++ [t]) p d ↔
    Feeds tasks p d ∨ d = t.id ∧ p ∈ t.dependsOn ∨ p = t.id ∧ Needs tasks d t.id := by
  have ids : p ∈ (tasks ++ [t]).map Task.id ↔ p ∈ tasks.map Task.id ∨ p = t.id := by simp
  rw [Feeds, Feeds, needs_concat, ids]
  constructor
  · rintro ⟨needs | ⟨rfl, hp⟩, other, stored⟩
    · rcases stored with stored | rfl
      · exact .inl ⟨needs, other, stored⟩
      · exact .inr (.inr ⟨rfl, needs⟩)
    · exact .inr (.inl ⟨rfl, hp⟩)
  · rintro (⟨needs, other, stored⟩ | ⟨rfl, hp⟩ | ⟨rfl, needs⟩)
    · exact ⟨.inl needs, other, .inl stored⟩
    · refine ⟨.inr ⟨rfl, hp⟩, ?_, .inl (fits.stored p hp)⟩
      rintro rfl
      exact fits.not_mem hp
    · refine ⟨.inl needs, ?_, .inr rfl⟩
      rintro rfl
      obtain ⟨u, hu, same, -⟩ := needs
      exact fits.new (List.mem_map.2 ⟨u, hu, same⟩)

theorem feeds_new : Feeds (tasks ++ [t]) p t.id ↔ p ∈ t.dependsOn := by
  rw [feeds_concat fits]
  constructor
  · rintro (⟨⟨u, hu, same, -⟩, -⟩ | ⟨-, hp⟩ | ⟨-, u, hu, same, -⟩)
    · exact absurd (List.mem_map.2 ⟨u, hu, same⟩) fits.new
    · exact hp
    · exact absurd (List.mem_map.2 ⟨u, hu, same⟩) fits.new
  · exact fun hp => .inr (.inl ⟨rfl, hp⟩)

/-- Between stored tasks nothing is fed anew. -/
theorem feeds_stored (h : Feeds (tasks ++ [t]) p d) (source : p ≠ t.id) (target : d ≠ t.id) :
    Feeds tasks p d := by
  rcases (feeds_concat fits).1 h with old | ⟨rfl, -⟩ | ⟨rfl, -⟩
  · exact old
  · exact absurd rfl target
  · exact absurd rfl source

/-- A new task that no stored one names closes no cycle. -/
theorem acyclic_concat (unnamed : ∀ d, ¬ Needs tasks d t.id)
    (acyclic : ∀ v, ¬ TransGen (Feeds tasks) v v) (v : TaskId) :
    ¬ TransGen (Feeds (tasks ++ [t])) v v := by
  have source {a b : TaskId} (link : Feeds (tasks ++ [t]) a b) : a ≠ t.id := by
    rintro rfl
    rcases (feeds_concat fits).1 link with ⟨-, -, stored⟩ | ⟨-, self⟩ | ⟨-, needs⟩
    · exact fits.new stored
    · exact fits.not_mem self
    · exact unnamed _ needs
  have old {a b : TaskId} (path : TransGen (Feeds (tasks ++ [t])) a b) (target : b ≠ t.id) :
      TransGen (Feeds tasks) a b := by
    induction path with
    | single link => exact .single (feeds_stored fits link (source link) target)
    | tail _ link ih => exact (ih (source link)).tail (feeds_stored fits link (source link) target)
  intro round
  obtain ⟨w, first, -⟩ := TransGen.head'_iff.1 round
  exact acyclic v (old round (source first))

/-- Chains that lead on to the new task have been there before it. -/
theorem steps_before (acyclic : ∀ v, ¬ TransGen (Feeds (tasks ++ [t])) v v)
    (steps : Steps (Feeds (tasks ++ [t])) p n v) (leads : TransGen (Feeds (tasks ++ [t])) v t.id) :
    Steps (Feeds tasks) p n v := by
  induction steps with
  | zero => exact .zero
  | succ _ last ih =>
    refine (ih (.head last leads)).succ (feeds_stored fits last ?_ ?_)
    · rintro rfl
      exact acyclic _ (.head last leads)
    · rintro rfl
      exact acyclic _ leads

theorem isDepth_before (acyclic : ∀ v, ¬ TransGen (Feeds (tasks ++ [t])) v v)
    (hp : p ∈ t.dependsOn) (isDepth : IsDepth (Feeds (tasks ++ [t])) p n) :
    IsDepth (Feeds tasks) p n := by
  obtain ⟨⟨a, steps⟩, longest⟩ := isDepth
  refine ⟨⟨a, steps_before fits acyclic steps (.single ((feeds_new fits).2 hp))⟩, ?_⟩
  rintro m ⟨a, steps⟩
  exact longest ⟨a, steps.mono fun _ _ link => (feeds_concat fits).2 (.inl link)⟩

/-- The depth of a new task is one more than the greatest of its prerequisites. -/
theorem Deep.new {depth : TaskId → Nat} (deep : Deep (tasks ++ [t]) depth) :
    depth t.id = above t.dependsOn depth := by
  have before (p : TaskId) (link : Feeds (tasks ++ [t]) p t.id) :
      IsDepth (Feeds (tasks ++ [t])) p (depth p) := by
    obtain ⟨u, hu, rfl⟩ := List.mem_map.1 (fits.stored p ((feeds_new fits).1 link))
    exact deep u (List.mem_append_left _ hu)
  apply eq_of_forall_ge_iff
  intro n
  rw [above_le, (deep t (by simp)).le_iff before]
  simp only [feeds_new fits]

end

/-! Adding a line -/

theorem Action.change_eq_ok {deed : Deed} {f : Disk → Except Disk.Fault Disk}
    {d d' : Disk} {x : Unit} (done : Action.change deed f d = (.ok x, d')) : f d = .ok d' := by
  unfold Action.change at done
  split at done
  · next e =>
    cases done
    exact e
  · cases done

theorem Action.makeDirectories_eq_ok {deed : Deed} {p : Path} {d d' : Disk} {x : Unit}
    (done : Action.makeDirectories deed p d = (.ok x, d')) :
    d.makeDirectories p = (.ok (), d') := by
  unfold Action.makeDirectories at done
  split at done
  · next e =>
    cases done
    exact e
  · cases done

namespace Store

open Precedence.Action

variable {s : Store} {d d' : Disk} {tasks : List Task} {t : Task}

theorem exists_contains (there : d.resolve s.path = .ok s.place) (loaded : s.load d = .ok tasks) :
    ∃ b, s.Contains d b := by
  unfold load at loaded
  split at loaded
  · split at loaded
    · next content read => exact ⟨content, .inr (Disk.look_of_read read)⟩
    · cases loaded
  · next absent =>
    have found : d.find? s.path = d.noted? s.place := by
      rw [Disk.find?, Disk.look, there, Except.map]
    rw [Disk.exists?, found, Option.not_isSome_iff_eq_none] at absent
    exact ⟨[], .inl ⟨absent, rfl⟩⟩

/-- A line that is added is read behind the others, unless the file ended inside a line. -/
theorem load_of_appended (directory : d.isDirectory s.directory) (loaded : s.load d = .ok tasks)
    (done : s.append t d = (.ok (), d')) : ∃ b, s.Contains d b ∧
      s.load d' = if b.openLine.all Bytes.isGap then .ok (TaskMap.written tasks t)
        else .error (.record b.lines.length .malformed) := by
  obtain ⟨_, d₁, made, changed⟩ := bind_eq_ok done
  have made := makeDirectories_eq_ok made
  have added := change_eq_ok changed
  obtain ⟨reached, there⟩ := Disk.resolve_of_isDirectory directory
  rw [Disk.makeDirectories_of_walk (Disk.pathFault?_of_makeDirectories made)
    (Disk.walk_of_resolve reached) there] at made
  cases made
  obtain ⟨b, contains⟩ := exists_contains (Disk.place_ok added).1 loaded
  have after : s.Contains d' (b ++ line t) := .inr (look_of_append contains added)
  refine ⟨b, contains, ?_⟩
  rw [after.load]
  exact decode_append_line (contains.load.symm.trans loaded) t

end Store

/-! New tasks -/

/-- What holds of a new task beside those that are stored. What it records is told by what its
prerequisites record, and what it should record by their depths, which do not depend on it. -/
structure Arrives (tasks : List Task) (t : Task) : Prop where
  new : t.id ∉ tasks.map Task.id
  stored : ∀ q ∈ t.dependsOn, q ∈ tasks.map Task.id
  records : t.depth.toNat = min greatestDepth (above t.dependsOn (recorded tasks))
  acyclic : (∀ v, ¬ Needs tasks v t.id) → (∀ v, ¬ TransGen (Feeds tasks) v v) →
    ∀ v, ¬ TransGen (Feeds (tasks ++ [t])) v v
  deep : (∀ v, ¬ TransGen (Feeds (tasks ++ [t])) v v) → ∃ depth, Deep (tasks ++ [t]) depth ∧
    (∀ q ∈ t.dependsOn, IsDepth (Feeds tasks) q (depth q)) ∧
    depth t.id = above t.dependsOn depth ∧
    ((∀ q ∈ t.dependsOn, recorded tasks q = min greatestDepth (depth q)) → t.deepened depth = t)

theorem distinct_concat {tasks : List Task} {t : Task} (distinct : (tasks.map Task.id).Nodup)
    (new : t.id ∉ tasks.map Task.id) : ((tasks ++ [t]).map Task.id).Nodup := by
  simpa [List.nodup_append] using ⟨distinct, by simpa using new⟩

theorem arrives {tasks : List Task} {t : Task} (distinct : (tasks.map Task.id).Nodup)
    (fits : Fits tasks t) (depth : t.depth = Command.depthAbove tasks t) : Arrives tasks t where
  new := fits.new
  stored := fits.stored
  records := by rw [depth, toNat_depthAbove distinct fits]
  acyclic := acyclic_concat fits
  deep acyclic := by
    obtain ⟨depth', deep, -⟩ :=
      exists_deep (m := ⟨tasks ++ [t], distinct_concat distinct fits.new⟩) acyclic
    refine ⟨depth', deep, fun q hq => ?_, deep.new fits, fun right => ?_⟩
    · obtain ⟨u, hu, rfl⟩ := List.mem_map.1 (fits.stored q hq)
      exact isDepth_before fits acyclic hq (deep u (List.mem_append_left _ hu))
    · have same : (t.deepened depth').depth = t.depth := by
        apply UInt32.toNat_inj.1
        rw [toNat_deepened, deep.new fits, depth, toNat_depthAbove distinct fits,
          min_above_congr right]
      show { t with depth := (t.deepened depth').depth } = t
      rw [same]

namespace Command

open Precedence.Action

variable {env : Environment} {clock : Clock} {backend : Option Backend} {p : Project} {d d' : Disk}
  {tasks : List Task} {n : NewTask} {answer : Answer} {t : Task}

theorem add_eq_ok (here : Project.openHere env d = (.ok p, d)) (loaded : p.store.load d = .ok tasks)
    (done : run env clock backend (.task (.add n)) d = (.ok answer, d')) :
    ∃ t, newTask tasks clock.now n d = (.ok t, d) ∧ p.store.append t d = (.ok (), d') ∧
      answer.value = t.document := by
  have read := Store.readAll_run loaded
  change runAdd env clock.now n d = _ at done
  rw [runAdd, bind_ok here] at done
  obtain ⟨t, c, added, answered⟩ := bind_eq_ok done
  obtain ⟨rfl, rfl⟩ := pure_eq_ok answered
  rw [add, bind_ok read] at added
  obtain ⟨u, c', made, added⟩ := bind_eq_ok added
  obtain ⟨_, c'', appended, same⟩ := bind_eq_ok added
  obtain ⟨rfl, rfl⟩ := pure_eq_ok same
  obtain rfl : c' = d := (congrArg Prod.snd made).symm.trans (still_newTask tasks clock.now n d)
  exact ⟨_, made, appended, rfl⟩

theorem add_run (here : Project.openHere env d = (.ok p, d)) (loaded : p.store.load d = .ok tasks)
    (made : newTask tasks clock.now n d = (.ok t, d))
    (appended : p.store.append t d = (.ok (), d')) :
    ∃ answer, run env clock backend (.task (.add n)) d = (.ok answer, d') := by
  have read := Store.readAll_run loaded
  have added : add p clock.now n d = (.ok t, d') := by
    rw [add, bind_ok read, bind_ok made, bind_ok appended, pure_run]
  exact ⟨_, (bind_ok here _).trans (bind_ok added _)⟩

/-- A new task stands behind the stored ones, and records one more than the greatest depth that its
prerequisites record. That is its depth as far as these record theirs. -/
theorem depth_of_new_task (here : Project.openHere env d = (.ok p, d))
    (loaded : p.store.load d = .ok tasks)
    (done : run env clock backend (.task (.add n)) d = (.ok answer, d')) :
    ∃ t, Arrives tasks t ∧ answer.value = t.document ∧ ∃ b, p.store.Contains d b ∧
      p.store.load d' = if b.openLine.all Bytes.isGap then .ok (tasks ++ [t])
        else .error (.record b.lines.length .malformed) := by
  obtain ⟨t, made, appended, value⟩ := add_eq_ok here loaded done
  obtain ⟨fits, depth⟩ := fits_newTask made
  have distinct := Store.distinct_of_load loaded
  obtain ⟨b, contains, loaded'⟩ :=
    Store.load_of_appended (Project.isRoot_of_openHere here) loaded appended
  have last : TaskMap.written tasks t = tasks ++ [t] :=
    TaskMap.entries_insert_new ⟨tasks, distinct⟩ fits.new
  rw [last] at loaded'
  exact ⟨t, arrives distinct fits depth, value, b, contains, loaded'⟩

/-! A task behind two others -/

section

open TaskMap

/-- Two tasks, the second after the first, and what it records. -/
def pair (depth : UInt32) : TaskMap :=
  ⟨[sample a "x", { sample b "y" with dependsOn := [a], depth }], by
    change [a, b].Nodup
    decide⟩

/-- A third task after the second. -/
def third (depth : UInt32) : Task := { sample c "z" with dependsOn := [b], depth }

def thirdNew : NewTask := { description := "z", id := some "c", after := ["b"] }

theorem feeds_pair {depth : UInt32} {v w : TaskId} :
    Feeds (pair depth).entries v w ↔ v = a ∧ w = b := by
  constructor
  · rintro ⟨⟨u, hu, rfl, named⟩, -, -⟩
    obtain rfl | rfl := List.mem_pair.1 hu
    · cases named
    · exact ⟨List.mem_singleton.1 named, rfl⟩
  · rintro ⟨rfl, rfl⟩
    exact ⟨⟨_, List.mem_cons_of_mem _ List.mem_cons_self, rfl, List.mem_singleton_self _⟩,
      by decide, List.mem_cons_self⟩

theorem acyclic_pair (depth : UInt32) (v : TaskId) : ¬ TransGen (Feeds (pair depth).entries) v v :=
  acyclic_of_single (fun _ _ => feeds_pair.1) (by decide) v

theorem newTask_third (d : Disk) :
    newTask (pair 0).entries leapDay thirdNew d = (.ok (third 1), d) ∧
      newTask (pair 1).entries leapDay thirdNew d = (.ok (third 2), d) := by
  constructor <;> with_unfolding_all rfl

/-- The third task is added where the two others are stored. -/
theorem exists_third_added {depth depth' : UInt32}
    (made : ∀ d, newTask (pair depth).entries leapDay thirdNew d = (.ok (third depth'), d)) :
    ∃ (p : Project) (d d' : Disk) (answer : Answer),
      Project.openHere (CommandLine.sample []).env d = (.ok p, d) ∧
      p.store.load d = .ok (pair depth).entries ∧
      run (CommandLine.sample []).env (CommandLine.sample []).clock none (.task (.add thirdNew)) d =
        (.ok answer, d') ∧
      p.store.load d' = .ok ((pair depth).entries ++ [third depth']) := by
  obtain ⟨p, store, here⟩ := exists_openHere_fileDisk (Store.encode (pair depth).entries)
  have loaded := (Store.shows_fileDisk (pair depth)).load
  have ends := Store.does_append Store.off_sampleStore (Store.shows_fileDisk (pair depth))
    (third depth')
  have ready := Store.ready_fileDisk (Store.encode (pair depth).entries)
  have made' : newTask (pair depth).entries (CommandLine.sample []).clock.now thirdNew
      (Store.fileDisk (Store.encode (pair depth).entries)) = (.ok (third depth'), _) := made _
  rw [← store] at loaded ends ready
  unfold Store.Does Ends at ends
  split at ends
  · next d' appended =>
    obtain ⟨answer, done⟩ := add_run here loaded made' appended
    exact ⟨p, _, d', answer, here, loaded, done, ends.2.1.load⟩
  · exact absurd ready ends.2

/-- Behind a task that records its depth a new one does. -/
theorem depth_of_new_task_behind_right : ∃ (p : Project) (d d' : Disk) (answer : Answer),
    Project.openHere (CommandLine.sample []).env d = (.ok p, d) ∧
    p.store.load d = .ok (pair 1).entries ∧
    run (CommandLine.sample []).env (CommandLine.sample []).clock none (.task (.add thirdNew)) d =
      (.ok answer, d') ∧
    p.store.load d' = .ok ((pair 1).entries ++ [third 2]) ∧ Arrives (pair 1).entries (third 2) := by
  obtain ⟨p, d, d', answer, here, loaded, done, loaded'⟩ :=
    exists_third_added fun d => (newTask_third d).2
  obtain ⟨t, arrives, -, b, -, told⟩ := depth_of_new_task here loaded done
  rw [loaded'] at told
  split at told
  · obtain rfl : third 2 = t := by simpa using Except.ok.inj told
    exact ⟨p, d, d', answer, here, loaded, done, loaded', arrives⟩
  · cases told

/-- Behind a task that records no depth a new one records one less than its own. -/
theorem depth_of_new_task_behind_wrong : ∃ (p : Project) (d d' : Disk) (answer : Answer),
    Project.openHere (CommandLine.sample []).env d = (.ok p, d) ∧
    p.store.load d = .ok (pair 0).entries ∧ (∀ v, ¬ TransGen (Feeds (pair 0).entries) v v) ∧
    run (CommandLine.sample []).env (CommandLine.sample []).clock none (.task (.add thirdNew)) d =
      (.ok answer, d') ∧
    p.store.load d' = .ok ((pair 0).entries ++ [third 1]) ∧
    (third 1).depth = 1 ∧ IsDepth (Feeds ((pair 0).entries ++ [third 1])) c 2 := by
  obtain ⟨p, d, d', answer, here, loaded, done, loaded'⟩ :=
    exists_third_added fun d => (newTask_third d).1
  have fits : Fits (pair 0).entries (third 1) := (fits_newTask (newTask_third d).1).1
  have unnamed (v : TaskId) : ¬ Needs (pair 0).entries v (third 1).id := by
    rintro ⟨u, hu, rfl, named⟩
    obtain rfl | rfl := List.mem_pair.1 hu
    · cases named
    · exact absurd (List.mem_singleton.1 named) (by decide)
  have acyclic := acyclic_concat fits unnamed (acyclic_pair 0)
  have first : Feeds ((pair 0).entries ++ [third 1]) a b :=
    (feeds_concat fits).2 (.inl (feeds_pair.2 ⟨rfl, rfl⟩))
  have second : Feeds ((pair 0).entries ++ [third 1]) b c :=
    (feeds_new fits).2 (List.mem_singleton_self b)
  refine ⟨p, d, d', answer, here, loaded, acyclic_pair 0, done, loaded', rfl,
    ⟨a, (Steps.zero.succ first).succ second⟩, ?_⟩
  rintro n ⟨v, steps⟩
  have few : n < [a, b, c].length := steps.lt_length (fun _ _ link => link.2.2) acyclic (by decide)
  exact Nat.le_of_lt_succ few

end

end Command

end Precedence

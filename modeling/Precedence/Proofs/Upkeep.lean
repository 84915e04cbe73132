import Precedence.Proofs.Quiet
import Precedence.Proofs.Refresh
/-!
Commands that change tasks. In a project they write nothing but the file of the store, and whatever
they write is tidy if what they read was, and has the right depths.
-/
namespace Precedence

/-! What is written -/

/-- A place that writing a store does not change: neither the draft nor the file, unless no path
leads to that. -/
def Store.Misses (s : Store) (l : Location) : Prop :=
  l ≠ s.draft.location ∧ (l = s.place → Disk.pathFault? s.path ≠ none)

namespace Action

variable {α β : Type} {root : Path} {deed : Deed}

/-- An action that, in the project with a root, writes nothing but the store. -/
def Within (root : Path) (a : Action α) : Prop :=
  ∀ d, Configuration.isRoot d root →
    d.Extends (a d).2 ∧ ∀ l, (Store.ofRoot root).Misses l → (a d).2.noted? l = d.noted? l

theorem Still.within {a : Action α} (h : Still a) : Within root a := by
  intro d _
  rw [h d]
  exact ⟨.refl d, fun _ _ => rfl⟩

theorem Within.bind {a : Action α} {f : α → Action β} (h : Within root a)
    (h' : ∀ x, Within root (f x)) : Within root (a >>= f) := by
  intro d isRoot
  have first := h d isRoot
  rw [bind_run]
  cases e : a d with
  | mk r d' =>
    rw [e] at first
    cases r with
    | ok x =>
      obtain ⟨keeps, same⟩ := h' x d' (first.1.isDirectory isRoot)
      exact ⟨first.1.trans keeps, fun l misses => (same l misses).trans (first.2 l misses)⟩
    | error _ => exact first

theorem within_change {f : Disk → Except Disk.Fault Disk}
    (h : ∀ d d', f d = .ok d' →
      d.Extends d' ∧ ∀ l, (Store.ofRoot root).Misses l → d'.noted? l = d.noted? l) :
    Within root (change deed f) := by
  intro d _
  unfold change
  split
  · next e => exact h d _ e
  · exact ⟨.refl d, fun _ _ => rfl⟩

theorem within_makeData :
    Within root (makeDirectories deed (Configuration.dataDirectory root)) := by
  intro d isRoot
  obtain ⟨there, directory⟩ := Configuration.resolve_of_isRoot isRoot
  have still := Disk.makeDirectories_of_walk (Disk.pathFault?_of_resolve there)
    (Configuration.walk_of_isRoot isRoot) directory
  rw [makeDirectories, still]
  exact ⟨.refl d, fun _ _ => rfl⟩

end Action

namespace Store

open Precedence.Action

variable {root : Path}

theorem place_misses {s : Store} {d d' : Disk} {e : Option Entry → Entry}
    (h : d.place s.path e = .ok d') :
    d.Extends d' ∧ ∀ l, s.Misses l → d'.noted? l = d.noted? l := by
  obtain ⟨there, free, rfl⟩ := Disk.place_ok h
  refine ⟨Disk.extends_put free, fun l misses => Disk.noted?_put_ne d ?_ _⟩
  exact fun same => misses.2 same (Disk.pathFault?_of_resolve there)

theorem rename_misses {s : Store} {d d' : Disk} (h : d.rename s.draft s.path = .ok d') :
    d.Extends d' ∧ ∀ l, s.Misses l → d'.noted? l = d.noted? l := by
  cases e : d.read s.draft with
  | error fault => rw [Disk.rename, e] at h; contradiction
  | ok content =>
    have looked := Disk.look_of_read e
    rw [Disk.rename_eq looked] at h
    have file := (Disk.noted?_of_look looked).2
    have erased : d.Extends (d.erase s.draft.location) :=
      Disk.extends_erase (by rw [file]; rintro ⟨⟩)
    obtain ⟨keeps, same⟩ := place_misses h
    exact ⟨erased.trans keeps,
      fun l misses => (same l misses).trans (Disk.noted?_erase_ne d misses.1)⟩

theorem within_append (t : Task) : Within root ((ofRoot root).append t) :=
  within_makeData.bind fun _ => within_change fun _ _ => place_misses

theorem within_writeAll (tasks : List Task) : Within root ((ofRoot root).writeAll tasks) := by
  refine within_makeData.bind fun _ => (within_change fun d d' written => ?_).bind fun _ =>
    within_change fun _ _ => rename_misses
  obtain ⟨-, free, rfl⟩ := Disk.place_ok written
  exact ⟨Disk.extends_put free, fun l misses => Disk.noted?_put_ne d misses.1 _⟩

theorem within_update (t : Task) : Within root ((ofRoot root).update t) :=
  (still_ask _).within.bind fun _ => within_writeAll _

end Store

/-! What is stored -/

/-- The store shows a map of tasks that are tidy and record the right depths, and its directory is
not below its file. -/
structure Store.InOrder (s : Store) (d : Disk) (m : TaskMap) : Prop where
  off : s.place ∉ s.directory.way
  shows : s.Shows d m
  tidy : Tidy m.entries
  settled : Settled m.entries

def Store.IsOrderly (s : Store) (d : Disk) : Prop := ∃ m, s.InOrder d m

namespace Store.InOrder

open Precedence.Action

variable {α β : Type} {s : Store} {d : Disk} {m : TaskMap} {t u : Task}

theorem after {a : Action α} {f : α → Action β} (h : s.InOrder d m) (still : Still a)
    (rest : ∀ x, a d = (.ok x, d) → s.IsOrderly (f x d).2) :
    s.IsOrderly ((a >>= f) d).2 :=
  still.after (P := s.IsOrderly) ⟨m, h⟩ rest

theorem afterRead {f : List Task → Action α} (h : s.InOrder d m)
    (rest : s.IsOrderly (f m.entries d).2) : s.IsOrderly ((s.readAll >>= f) d).2 := by
  rwa [bind_ok h.shows.readAll]

theorem append (h : s.InOrder d m) (fits : Fits m.entries t)
    (depth : t.depth = Command.depthAbove m.entries t) : s.IsOrderly (s.append t d).2 := by
  have entries := m.entries_insert_new fits.new
  have done := does_append h.off h.shows t
  refine ends_iff.1 (done.mono (fun _ d' added => ?_) fun d' failed => ?_)
  · refine ⟨m.insert t, h.off, added.2.1, ?_, ?_⟩
    · rw [entries]
      exact h.tidy.add fits
    · rw [entries]
      exact h.settled.add h.tidy fits depth
  · exact ⟨m, h.off, failed.1, h.tidy, h.settled⟩

theorem update_ends (h : s.InOrder d m) (u : Task) :
    Ends (s.update u) d (fun _ d' => s.Shows d' (m.insert u) ∧ s.Ready d')
      (fun d' => s.InOrder d' m) :=
  (updateMany_ends h.off h.shows [u]).mono (fun _ _ => id) fun _ failed =>
    ⟨h.off, failed.1, h.tidy, h.settled⟩

theorem amend (h : s.InOrder d m) (ht : t ∈ m.entries) (id : u.id = t.id)
    (parent : u.parent = t.parent) (dependsOn : u.dependsOn = t.dependsOn)
    (depth : u.depth = t.depth) : s.IsOrderly (s.update u d).2 := by
  refine ends_iff.1 ((h.update_ends u).mono (fun _ d' written => ?_) fun d' failed => ⟨m, failed⟩)
  obtain ⟨tidy, settled⟩ := h.tidy.amend h.settled ht id parent dependsOn depth
  exact ⟨m.insert u, h.off, written.1, tidy, settled⟩

/-- Where the store can be written, tidy tasks are in order once their depths were brought up to
date. -/
theorem refresh {p : Project} (shows : p.store.Shows d m) (ready : p.store.Ready d)
    (tidy : Tidy m.entries) : p.store.IsOrderly (p.refreshDepths d).2 := by
  obtain ⟨depth, deep, -⟩ := exists_deep tidy.acyclic_feeds
  obtain ⟨tidy', settled⟩ := tidy.deepened deep
  exact ends_iff.1 ((Project.refreshDepths_deepens tidy.acyclic_feeds deep shows ready).mono
    (fun _ d' deepened => ⟨_, ready.off, deepened, tidy', settled⟩) fun _ => False.elim)

theorem rewire {p : Project} (h : p.store.InOrder d m) (tidy : Tidy (m.insert u).entries) :
    p.store.IsOrderly (Command.rewire p u d).2 := by
  refine ends_iff.1
    (.bind ((h.update_ends u).mono (fun _ d' written => ?_) fun d' failed => ⟨m, failed⟩))
  rw [ends_iff, snd_bind_of_still fun _ => still_pure _]
  exact refresh written.1 written.2 tidy

end Store.InOrder

namespace Command

open Precedence.Action Relation

variable {tasks : List Task} {now : Instant} {t u : Task} {d d' : Disk}

@[simp] theorem isStored_iff {id : TaskId} : isStored tasks id = true ↔ id ∈ tasks.map Task.id := by
  simp [isStored]

/-! Adding -/

theorem fits_withPrerequisite {raw : String} (h : Fits tasks t)
    (ok : withPrerequisite tasks now t raw d = (.ok u, d')) : Fits tasks u := by
  obtain ⟨p, c, -, h₁⟩ := bind_eq_ok ok
  obtain ⟨_, c₁, -, h₂⟩ := bind_eq_ok h₁
  obtain ⟨_, c₂, found, h₃⟩ := bind_eq_ok h₂
  obtain ⟨rfl, -⟩ := pure_eq_ok h₃
  have among : p ∈ tasks.map Task.id := isStored_iff.1 (by simpa using (refuseIf_eq_ok found).1)
  unfold Task.addDependency?
  split
  · exact h
  · next new =>
    refine ⟨h.new, List.forall_mem_append.2 ⟨h.stored, List.forall_mem_singleton.2 among⟩,
      List.nodup_append.2 ⟨h.once, List.nodup_singleton p, fun a ha b hb => ?_⟩, h.parent⟩
    rw [List.mem_singleton.1 hb]
    exact ne_of_mem_of_not_mem ha new

theorem fits_foldlM {raws : List String} (h : Fits tasks t)
    (ok : raws.foldlM (withPrerequisite tasks now) t d = (.ok u, d')) : Fits tasks u := by
  induction raws generalizing t d with
  | nil =>
    obtain ⟨rfl, -⟩ := pure_eq_ok ok
    exact h
  | cons raw raws ih =>
    obtain ⟨v, c, first, rest⟩ := bind_eq_ok ok
    exact ih (fits_withPrerequisite h first) rest

theorem stored_typedParent {raw : String} {p : TaskId}
    (ok : typedParent tasks raw d = (.ok p, d')) : p ∈ tasks.map Task.id := by
  obtain ⟨q, c, -, h₁⟩ := bind_eq_ok ok
  obtain ⟨_, c₁, found, h₂⟩ := bind_eq_ok h₁
  obtain ⟨rfl, -⟩ := pure_eq_ok h₂
  exact isStored_iff.1 (by simpa using (refuseIf_eq_ok found).1)

theorem stored_mapM_typedParent {o : Option String} {parent : Option TaskId}
    (ok : o.mapM (typedParent tasks) d = (.ok parent, d')) :
    ∀ p ∈ parent, p ∈ tasks.map Task.id := by
  cases o with
  | none =>
    obtain ⟨rfl, -⟩ := pure_eq_ok ok
    exact fun _ hp => nomatch hp
  | some raw =>
    obtain ⟨p, c, typed, h₁⟩ := bind_eq_ok ok
    obtain ⟨rfl, -⟩ := pure_eq_ok h₁
    rintro q ⟨⟩
    exact stored_typedParent typed

/-- A task that is made beside stored ones fits them, and records the depth above its
prerequisites. -/
theorem fits_newTask {n : NewTask} (ok : newTask tasks now n d = (.ok t, d')) :
    Fits tasks t ∧ t.depth = depthAbove tasks t := by
  obtain ⟨id, c, -, h₁⟩ := bind_eq_ok ok
  obtain ⟨_, c₁, unknown, h₂⟩ := bind_eq_ok h₁
  obtain ⟨priority, c₂, -, h₃⟩ := bind_eq_ok h₂
  obtain ⟨parent, c₃, among, h₄⟩ := bind_eq_ok h₃
  obtain ⟨u, c₄, linked, h₅⟩ := bind_eq_ok h₄
  obtain ⟨rfl, -⟩ := pure_eq_ok h₅
  have new : id ∉ tasks.map Task.id := by
    rw [← isStored_iff, (refuseIf_eq_ok unknown).1]
    exact Bool.false_ne_true
  have fits : Fits tasks u := fits_foldlM ⟨new, fun _ hp => absurd hp List.not_mem_nil,
    List.nodup_nil, stored_mapM_typedParent among⟩ linked
  exact ⟨⟨fits.new, fits.stored, fits.once, fits.parent⟩, rfl⟩

theorem still_withPrerequisite (t : Task) (raw : String) :
    Still (withPrerequisite tasks now t raw) :=
  (still_typedId raw).bind fun _ => (still_refuseIf _ _).bind fun _ =>
    (still_refuseIf _ _).bind fun _ => still_pure _

theorem still_typedParent (raw : String) : Still (typedParent tasks raw) :=
  (still_typedId raw).bind fun _ => (still_refuseIf _ _).bind fun _ => still_pure _

theorem still_newId (now : Instant) (n : NewTask) : Still (newId now n) := by
  unfold newId
  split
  · exact still_typedId _
  · exact still_pure _

theorem still_newTask (tasks : List Task) (now : Instant) (n : NewTask) :
    Still (newTask tasks now n) :=
  (still_newId now n).bind fun _ => (still_refuseIf _ _).bind fun _ =>
    (still_mapM? fun _ => still_settle _).bind fun _ =>
      (still_mapM? still_typedParent).bind fun _ =>
      (still_foldlM still_withPrerequisite _).bind fun _ => still_pure _

/-! Commands in a project -/

/-- An action that, in a project, writes nothing but the store and leaves it in order. -/
structure Upholds {α : Type} (p : Project) (a : Action α) : Prop where
  within : Within p.root a
  order : ∀ {d m}, p.store.InOrder d m → p.store.IsOrderly (a d).2

theorem mem_of_stored {id : TaskId} (ok : stored tasks id d = (.ok t, d')) :
    t ∈ tasks ∧ t.id = id := by
  rw [stored] at ok
  cases found : tasks.find? (·.id = id) with
  | none =>
    rw [found] at ok
    cases congrArg Prod.fst ok
  | some u =>
    rw [found] at ok
    obtain ⟨rfl, -⟩ := pure_eq_ok ok
    exact ⟨List.mem_of_find?_eq_some found, by simpa using List.find?_some found⟩

theorem upholds_add (p : Project) (now : Instant) (n : NewTask) : Upholds p (add p now n) where
  within := (still_ask _).within.bind fun tasks => (still_newTask tasks now n).within.bind fun t =>
    (Store.within_append t).bind fun _ => (still_pure t).within
  order h := h.afterRead <| h.after (still_newTask _ now n) fun t made => by
    obtain ⟨fits, depth⟩ := fits_newTask made
    rw [snd_bind_of_still fun _ => still_pure t]
    exact h.append fits depth

theorem upholds_amend (p : Project) (id : TaskId) {change : Task → Task}
    (same : ∀ t, (change t).id = t.id ∧ (change t).parent = t.parent ∧
      (change t).dependsOn = t.dependsOn ∧ (change t).depth = t.depth) :
    Upholds p (amend p id change) where
  within := (still_ask _).within.bind fun tasks => (still_stored tasks id).within.bind fun t =>
    (Store.within_update (change t)).bind fun _ => (still_pure (change t)).within
  order h := h.afterRead <| h.after (still_stored _ id) fun t found => by
    obtain ⟨same_id, parent, dependsOn, depth⟩ := same t
    rw [snd_bind_of_still fun _ => still_pure (change t)]
    exact h.amend (mem_of_stored found).1 same_id parent dependsOn depth

theorem within_refreshDepths (p : Project) : Within p.root p.refreshDepths := by
  apply (still_ask _).within.bind
  intro tasks
  dsimp only
  split
  · exact (still_pure _).within
  · split
    · exact (still_pure _).within
    · exact (Store.within_writeAll _).bind fun _ => (still_pure _).within

theorem within_rewire (p : Project) (t : Task) : Within p.root (rewire p t) :=
  (Store.within_update t).bind fun _ => (within_refreshDepths p).bind fun _ =>
    (still_pure ()).within

theorem settle_eq_ok {α : Type} {r : Except GraphFault α} {x : α}
    (ok : settle r d = (.ok x, d')) : r = .ok x := by
  cases r with
  | ok y => rw [(pure_eq_ok ok).1]
  | error fault => cases congrArg Prod.fst ok

theorem addDependency?_eq_some {q : TaskId} (added : t.addDependency? q now = some u) :
    q ∉ t.dependsOn ∧ u = { t with dependsOn := t.dependsOn ++ [q], updatedAt := now } := by
  unfold Task.addDependency? at added
  split at added
  · contradiction
  · next new => exact ⟨new, (Option.some.inj added).symm⟩

theorem removeDependency?_eq_some {q : TaskId} (removed : t.removeDependency? q now = some u) :
    u = { t with dependsOn := t.dependsOn.filter (· ≠ q), updatedAt := now } := by
  unfold Task.removeDependency? at removed
  split at removed
  · exact (Option.some.inj removed).symm
  · contradiction

theorem tidy_of_cycleIfAdded {m : TaskMap} {q : TaskId} (h : Tidy m.entries) (ht : t ∈ m.entries)
    (nothing : (graphOf m.entries).cycleIfAdded t.id q = .ok none)
    (added : t.addDependency? q now = some u) : Tidy (m.insert u).entries := by
  obtain ⟨new, rfl⟩ := addDependency?_eq_some added
  obtain ⟨there, back⟩ := Graph.not_reaches_of_cycleIfAdded (sound_graphOf m.entries) nothing
  rw [ids_graphOf h.distinct] at there
  refine h.depend ht rfl rfl rfl new there fun path => back ?_
  rwa [h.link_eq, reflTransGen_swap]

theorem upholds_depend (p : Project) (now : Instant) (t q : TaskId) :
    Upholds p (depend p now t q) where
  within := by
    refine (still_ask _).within.bind fun tasks => (still_settle _).within.bind fun cycle => ?_
    split
    · exact (still_throw _).within
    · apply (still_stored tasks t).within.bind
      intro u
      split
      · exact within_rewire p _
      · exact (still_pure ()).within
  order {d m} h := by
    refine h.afterRead <| h.after (still_settle _) fun cycle settled => ?_
    cases cycle with
    | some cycle => exact ⟨m, h⟩
    | none =>
      apply h.after (still_stored _ t)
      intro u found
      obtain ⟨hu, rfl⟩ := mem_of_stored found
      cases added : u.addDependency? q now with
      | none => exact ⟨m, h⟩
      | some v => exact h.rewire (tidy_of_cycleIfAdded h.tidy hu (settle_eq_ok settled) added)

theorem upholds_undepend (p : Project) (now : Instant) (t q : TaskId) :
    Upholds p (undepend p now t q) where
  within := by
    refine (still_ask _).within.bind fun tasks => (still_stored tasks t).within.bind fun u => ?_
    split
    · exact within_rewire p _
    · exact (still_throw _).within
  order {d m} h := by
    refine h.afterRead <| h.after (still_stored _ t) fun u found => ?_
    cases removed : u.removeDependency? q now with
    | none => exact ⟨m, h⟩
    | some v =>
      obtain rfl := removeDependency?_eq_some removed
      exact h.rewire (h.tidy.undepend (mem_of_stored found).1 rfl rfl List.filter_sublist)

end Command

end Precedence

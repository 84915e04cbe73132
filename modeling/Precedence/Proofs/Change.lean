import Precedence.Command.Tasks
import Precedence.Proofs.Prediction
import Precedence.Proofs.Tidy
/-!
Changes of stored tasks. Each way of changing them that commands have keeps them tidy, and those
that leave prerequisites alone keep the recorded depths right.
-/
namespace Precedence

open Relation

/-! Changing tasks in their places -/

section

variable {tasks : List Task} {f : Task → Task}

theorem ids_map (id : ∀ t ∈ tasks, (f t).id = t.id) :
    (tasks.map f).map Task.id = tasks.map Task.id := by
  rw [List.map_map]
  exact List.map_congr_left id

theorem needs_map (id : ∀ t ∈ tasks, (f t).id = t.id) {d p : TaskId} :
    Needs (tasks.map f) d p ↔ ∃ t ∈ tasks, t.id = d ∧ p ∈ (f t).dependsOn := by
  constructor
  · rintro ⟨_, hu, rfl, hp⟩
    obtain ⟨t, ht, rfl⟩ := List.mem_map.1 hu
    exact ⟨t, ht, (id t ht).symm, hp⟩
  · rintro ⟨t, ht, rfl, hp⟩
    exact ⟨f t, List.mem_map_of_mem ht, id t ht, hp⟩

theorem Tidy.map (h : Tidy tasks) (id : ∀ t ∈ tasks, (f t).id = t.id)
    (parent : ∀ t ∈ tasks, (f t).parent = t.parent)
    (stored : ∀ t ∈ tasks, ∀ p ∈ (f t).dependsOn, p ∈ tasks.map Task.id)
    (once : ∀ t ∈ tasks, (f t).dependsOn.Nodup)
    (acyclic : ∀ v, ¬ TransGen (Needs (tasks.map f)) v v) : Tidy (tasks.map f) where
  distinct := by
    rw [ids_map id]
    exact h.distinct
  stored u hu p hp := by
    obtain ⟨t, ht, rfl⟩ := List.mem_map.1 hu
    rw [ids_map id]
    exact stored t ht p hp
  once u hu := by
    obtain ⟨t, ht, rfl⟩ := List.mem_map.1 hu
    exact once t ht
  acyclic
  parents u hu p hp := by
    obtain ⟨t, ht, rfl⟩ := List.mem_map.1 hu
    rw [ids_map id]
    rw [parent t ht] at hp
    exact h.parents t ht p hp

theorem Tidy.map_sublist (h : Tidy tasks) (id : ∀ t ∈ tasks, (f t).id = t.id)
    (parent : ∀ t ∈ tasks, (f t).parent = t.parent)
    (less : ∀ t ∈ tasks, (f t).dependsOn.Sublist t.dependsOn) : Tidy (tasks.map f) := by
  refine h.map id parent (fun t ht p hp => h.stored t ht p ((less t ht).subset hp))
    (fun t ht => (h.once t ht).sublist (less t ht)) fun v round => h.acyclic v ?_
  refine TransGen.mono (fun d p needs => ?_) _ _ round
  obtain ⟨t, ht, rfl, hp⟩ := (needs_map id).1 needs
  exact ⟨t, ht, rfl, (less t ht).subset hp⟩

theorem Height.map {height : TaskId → Nat} (h : Height tasks height)
    (id : ∀ t ∈ tasks, (f t).id = t.id) (same : ∀ t ∈ tasks, (f t).dependsOn = t.dependsOn) :
    Height (tasks.map f) height := by
  intro u hu n
  obtain ⟨t, ht, rfl⟩ := List.mem_map.1 hu
  rw [id t ht, same t ht]
  exact h t ht n

theorem Settled.map (h : Settled tasks) (id : ∀ t ∈ tasks, (f t).id = t.id)
    (same : ∀ t ∈ tasks, (f t).dependsOn = t.dependsOn)
    (depth : ∀ t ∈ tasks, (f t).depth = t.depth) : Settled (tasks.map f) := by
  obtain ⟨height, isHeight, records⟩ := h
  refine ⟨height, isHeight.map id same, fun u hu => ?_⟩
  obtain ⟨t, ht, rfl⟩ := List.mem_map.1 hu
  rw [id t ht, depth t ht]
  exact records t ht

end

/-! Putting a task in the place of another one -/

def replacing (u : Task) (t : Task) : Task := if t.id = u.id then u else t

section

variable {tasks : List Task} {t u : Task}

theorem replacing_cases (distinct : (tasks.map Task.id).Nodup) (ht : t ∈ tasks) (id : u.id = t.id)
    {x : Task} (hx : x ∈ tasks) : x = t ∧ replacing u x = u ∨ x ≠ t ∧ replacing u x = x := by
  unfold replacing
  by_cases same : x.id = u.id
  · exact .inl ⟨List.inj_on_of_nodup_map distinct hx ht (same.trans id), if_pos same⟩
  · refine .inr ⟨?_, if_neg same⟩
    rintro rfl
    exact same id.symm

/-- A property of how tasks change, told for the one that is replaced. -/
theorem forall_replacing {P : Task → Task → Prop} (distinct : (tasks.map Task.id).Nodup)
    (ht : t ∈ tasks) (id : u.id = t.id) (refl : ∀ x ∈ tasks, P x x) (here : P t u) :
    ∀ x ∈ tasks, P x (replacing u x) := by
  intro x hx
  rcases replacing_cases distinct ht id hx with ⟨rfl, e⟩ | ⟨-, e⟩
  · rwa [e]
  · rw [e]
    exact refl x hx

theorem field_replacing {α : Type} {field : Task → α} (distinct : (tasks.map Task.id).Nodup)
    (ht : t ∈ tasks) (id : u.id = t.id) (e : field u = field t) :
    ∀ x ∈ tasks, field (replacing u x) = field x :=
  forall_replacing (P := fun x y => field y = field x) distinct ht id (fun _ _ => rfl) e

theorem insert_entries {m : TaskMap} (ht : t ∈ m.entries) (id : u.id = t.id) :
    (m.insert u).entries = m.entries.map (replacing u) :=
  if_pos (List.any_eq_true.2 ⟨t, ht, by simp [id]⟩)

end

section

variable {m : TaskMap} {t u : Task}

theorem Tidy.amend (h : Tidy m.entries) (settled : Settled m.entries) (ht : t ∈ m.entries)
    (id : u.id = t.id) (parent : u.parent = t.parent) (dependsOn : u.dependsOn = t.dependsOn)
    (depth : u.depth = t.depth) :
    Tidy (m.insert u).entries ∧ Settled (m.insert u).entries := by
  have ids := field_replacing h.distinct ht id id
  have prerequisites := field_replacing h.distinct ht id dependsOn
  rw [insert_entries ht id]
  exact ⟨h.map_sublist ids (field_replacing h.distinct ht id parent) fun x hx => by
      rw [prerequisites x hx],
    settled.map ids prerequisites (field_replacing h.distinct ht id depth)⟩

theorem Tidy.undepend (h : Tidy m.entries) (ht : t ∈ m.entries) (id : u.id = t.id)
    (parent : u.parent = t.parent) (less : u.dependsOn.Sublist t.dependsOn) :
    Tidy (m.insert u).entries := by
  rw [insert_entries ht id]
  exact h.map_sublist
    (field_replacing h.distinct ht id id)
    (field_replacing h.distinct ht id parent)
    (forall_replacing (P := fun x y => y.dependsOn.Sublist x.dependsOn) h.distinct ht id
      (fun _ _ => .refl _) less)

/-- A task may get another stored task as a prerequisite that does not need it. -/
theorem Tidy.depend (h : Tidy m.entries) (ht : t ∈ m.entries) {p : TaskId} (id : u.id = t.id)
    (parent : u.parent = t.parent) (dependsOn : u.dependsOn = t.dependsOn ++ [p])
    (new : p ∉ t.dependsOn) (stored : p ∈ m.entries.map Task.id)
    (back : ¬ ReflTransGen (Needs m.entries) p t.id) : Tidy (m.insert u).entries := by
  have ids := field_replacing h.distinct ht id id
  have named {x : Task} (hx : x ∈ m.entries) {q : TaskId} (hq : q ∈ (replacing u x).dependsOn) :
      q ∈ x.dependsOn ∨ x = t ∧ q = p := by
    rcases replacing_cases h.distinct ht id hx with ⟨rfl, e⟩ | ⟨-, e⟩
    · rw [e, dependsOn] at hq
      exact (List.mem_append.1 hq).imp_right fun hq => ⟨rfl, List.mem_singleton.1 hq⟩
    · rw [e] at hq
      exact .inl hq
  rw [insert_entries ht id]
  refine h.map ids (field_replacing h.distinct ht id parent)
    (fun x hx q hq => ?_) ?_ (acyclic_of_edge (fun d q needs => ?_) h.acyclic back)
  · rcases named hx hq with hq | ⟨-, rfl⟩
    · exact h.stored x hx q hq
    · exact stored
  · apply forall_replacing (P := fun _ y => y.dependsOn.Nodup) h.distinct ht id h.once
    rw [dependsOn]
    refine List.nodup_append.2 ⟨h.once t ht, List.nodup_singleton p, fun a ha b hb => ?_⟩
    rw [List.mem_singleton.1 hb]
    exact ne_of_mem_of_not_mem ha new
  · obtain ⟨x, hx, rfl, hq⟩ := (needs_map ids).1 needs
    exact (named hx hq).imp (fun hq => ⟨x, hx, rfl, hq⟩) fun ⟨e, hq⟩ => ⟨e ▸ rfl, hq⟩

end

/-! Adding a task -/

section

variable {tasks : List Task} {t : Task}

/-- What a new task names is stored, and it is not. -/
structure Fits (tasks : List Task) (t : Task) : Prop where
  new : t.id ∉ tasks.map Task.id
  stored : ∀ p ∈ t.dependsOn, p ∈ tasks.map Task.id
  once : t.dependsOn.Nodup
  parent : ∀ p ∈ t.parent, p ∈ tasks.map Task.id

theorem Tidy.add (h : Tidy tasks) (fits : Fits tasks t) : Tidy (tasks ++ [t]) := by
  have ids : (tasks ++ [t]).map Task.id = tasks.map Task.id ++ [t.id] := List.map_append
  have each {P : Task → Prop} (old : ∀ u ∈ tasks, P u) (last : P t) : ∀ u ∈ tasks ++ [t], P u :=
    List.forall_mem_append.2 ⟨old, List.forall_mem_singleton.2 last⟩
  have among {p : TaskId} (hp : p ∈ tasks.map Task.id) : p ∈ (tasks ++ [t]).map Task.id := by
    rw [ids]
    exact List.mem_append_left _ hp
  have needed {d p : TaskId} (needs : Needs (tasks ++ [t]) d p) : p ∈ tasks.map Task.id := by
    obtain ⟨u, hu, -, hp⟩ := needs
    exact each (P := fun u => p ∈ u.dependsOn → p ∈ tasks.map Task.id)
      (fun u hu => h.stored u hu p) (fits.stored p) u hu hp
  have old {d p : TaskId} (needs : Needs (tasks ++ [t]) d p) (hd : d ∈ tasks.map Task.id) :
      Needs tasks d p := by
    obtain ⟨u, hu, rfl, hp⟩ := needs
    rcases List.mem_append.1 hu with hu | hu
    · exact ⟨u, hu, rfl, hp⟩
    · rw [List.mem_singleton.1 hu] at hd
      exact absurd hd fits.new
  have among_old {a b : TaskId} (path : TransGen (Needs (tasks ++ [t])) a b)
      (ha : a ∈ tasks.map Task.id) : TransGen (Needs tasks) a b ∧ b ∈ tasks.map Task.id := by
    induction path with
    | single needs => exact ⟨.single (old needs ha), needed needs⟩
    | tail _ needs ih => exact ⟨ih.1.tail (old needs ih.2), needed needs⟩
  refine ⟨?_,
    each (fun u hu p hp => among (h.stored u hu p hp)) fun p hp => among (fits.stored p hp),
    each h.once fits.once, fun v round => ?_,
    each (fun u hu p hp => among (h.parents u hu p hp)) fun p hp => among (fits.parent p hp)⟩
  · rw [ids]
    refine List.nodup_append.2 ⟨h.distinct, List.nodup_singleton _, fun i hi j hj => ?_⟩
    rw [List.mem_singleton.1 hj]
    exact ne_of_mem_of_not_mem hi fits.new
  -- Every task of a round is needed by another one, so the new task is not on it.
  · obtain ⟨w, -, needs⟩ := TransGen.tail'_iff.1 round
    exact h.acyclic v (among_old round (needed needs)).1

open Command

theorem toNat_deeper (depth : UInt32) :
    (deeper depth).toNat = min greatestDepth (depth.toNat + 1) := by
  have small := depth.toNat_lt
  unfold deeper
  split
  · next last =>
    rw [last]
    rfl
  · next early =>
    have other : depth.toNat ≠ greatestDepth := fun same =>
      early (UInt32.toNat_inj.1 (same.trans rfl))
    rw [UInt32.toNat_add]
    unfold greatestDepth at other ⊢
    change _ % 2 ^ 32 = _
    simp only [UInt32.reduceToNat, UInt32.size] at other ⊢
    omega

theorem toNat_max (a b : UInt32) : (max a b).toNat = max a.toNat b.toNat := by
  show (if a ≤ b then b else a).toNat = _
  split
  · next le => exact (Nat.max_eq_right (UInt32.le_iff_toNat_le.1 le)).symm
  · next gt =>
      exact (Nat.max_eq_left (Nat.le_of_not_le fun le => gt (UInt32.le_iff_toNat_le.2 le))).symm

theorem foldl_max_toNat_le {depths : List UInt32} {start : UInt32} {n : Nat} :
    (depths.foldl max start).toNat ≤ n ↔ start.toNat ≤ n ∧ ∀ x ∈ depths, x.toNat ≤ n := by
  induction depths generalizing start with
  | nil => simp
  | cons x depths ih =>
    rw [List.foldl_cons, ih, List.forall_mem_cons, toNat_max, Nat.max_le, and_assoc]

theorem depthAbove_le {n : Nat} : (depthAbove tasks t).toNat ≤ n ↔
    ∀ u ∈ tasks, u.id ∈ t.dependsOn → min greatestDepth (u.depth.toNat + 1) ≤ n := by
  rw [depthAbove, foldl_max_toNat_le]
  simp only [List.forall_mem_map, List.mem_filter, List.contains_iff_mem, toNat_deeper, and_imp]
  exact and_iff_right (Nat.zero_le n)

/-- One more than the greatest of what some tasks have. -/
def above (l : List TaskId) (f : TaskId → Nat) : Nat := l.foldl (fun d p => max d (f p + 1)) 0

@[simp] theorem above_le {l : List TaskId} {f : TaskId → Nat} {n : Nat} :
    above l f ≤ n ↔ ∀ p ∈ l, f p < n := by
  rw [above, Graph.foldl_max_le, and_iff_right (Nat.zero_le n)]

/-- Both are told by their bounds, so that no maximum has to be taken apart. -/
theorem min_above_congr {l : List TaskId} {f g : TaskId → Nat} {k : Nat}
    (same : ∀ p ∈ l, f p = min k (g p)) : min k (above l f) = min k (above l g) := by
  apply eq_of_forall_ge_iff
  intro n
  rw [min_le_iff, min_le_iff, above_le, above_le]
  by_cases short : k ≤ n
  · simp [short]
  · simp only [short, false_or]
    refine forall₂_congr fun p hp => ?_
    rw [same p hp]
    omega

/-- The depth that a stored task records. -/
def recorded (tasks : List Task) (id : TaskId) : Nat :=
  ((tasks.find? (·.id = id)).map (·.depth.toNat)).getD 0

theorem recorded_of_mem (distinct : (tasks.map Task.id).Nodup) {u : Task} (hu : u ∈ tasks) :
    recorded tasks u.id = u.depth.toNat := by
  have found : tasks.find? (·.id = u.id) = some u :=
    TaskMap.find?_eq_some_iff (m := ⟨tasks, distinct⟩).2 ⟨hu, rfl⟩
  rw [recorded, found]
  rfl

theorem toNat_depthAbove (distinct : (tasks.map Task.id).Nodup) (fits : Fits tasks t) :
    (depthAbove tasks t).toNat = min greatestDepth (above t.dependsOn (recorded tasks)) := by
  apply eq_of_forall_ge_iff
  intro n
  rw [depthAbove_le, min_le_iff, above_le]
  constructor
  · intro bound
    apply or_iff_not_imp_left.2
    intro below p hp
    obtain ⟨u, hu, rfl⟩ := List.mem_map.1 (fits.stored p hp)
    have := bound u hu hp
    rw [recorded_of_mem distinct hu]
    omega
  · intro bound u hu hp
    rcases bound with bound | bound
    · omega
    · have := bound u.id hp
      rw [recorded_of_mem distinct hu] at this
      omega

/-- The height that a new task gets, beside those of stored tasks. -/
def heightWith (height : TaskId → Nat) (t : Task) (v : TaskId) : Nat :=
  if v = t.id then t.dependsOn.foldl (fun d p => max d (height p + 1)) 0 else height v

@[simp] theorem heightWith_self {height : TaskId → Nat} :
    heightWith height t t.id = above t.dependsOn height := if_pos rfl

theorem Height.add {height : TaskId → Nat} (h : Tidy tasks) (isHeight : Height tasks height)
    (fits : Fits tasks t) : Height (tasks ++ [t]) (heightWith height t) := by
  have old {p : TaskId} (hp : p ∈ tasks.map Task.id) : heightWith height t p = height p :=
    if_neg (ne_of_mem_of_not_mem hp fits.new)
  refine List.forall_mem_append.2 ⟨fun u hu n => ?_, List.forall_mem_singleton.2 fun n => ?_⟩
  · rw [old (List.mem_map_of_mem hu), isHeight u hu n]
    exact forall₂_congr fun p hp => by rw [old (h.stored u hu p hp)]
  · rw [heightWith_self, above_le]
    exact forall₂_congr fun p hp => by rw [old (fits.stored p hp)]

/-- A new task that records the depth above its prerequisites keeps the recorded depths right. -/
theorem Settled.add (h : Tidy tasks) (settled : Settled tasks) (fits : Fits tasks t)
    (depth : t.depth = depthAbove tasks t) : Settled (tasks ++ [t]) := by
  obtain ⟨height, isHeight, records⟩ := settled
  refine ⟨heightWith height t, isHeight.add h fits,
    List.forall_mem_append.2 ⟨fun u hu => ?_, List.forall_mem_singleton.2 ?_⟩⟩
  · rw [heightWith, if_neg (ne_of_mem_of_not_mem (List.mem_map_of_mem hu) fits.new)]
    exact records u hu
  · rw [depth, toNat_depthAbove h.distinct fits, heightWith_self]
    apply min_above_congr
    intro p hp
    obtain ⟨u, hu, rfl⟩ := List.mem_map.1 (fits.stored p hp)
    rw [recorded_of_mem h.distinct hu, records u hu]

end

end Precedence

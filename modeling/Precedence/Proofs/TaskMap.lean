import Mathlib.Data.List.Nodup
import Precedence.Store
/-!
Maps from identifiers to tasks that keep the order in which identifiers came in. Reading a file with
a table of positions and changing a list in place both do what such a map does.
-/
namespace Precedence

/-- A map from identifiers to tasks, as its entries in their order. -/
structure TaskMap where
  entries : List Task
  distinct : (entries.map Task.id).Nodup

namespace TaskMap

@[ext] theorem ext {m n : TaskMap} (h : m.entries = n.entries) : m = n := by
  cases m; cases n; cases h; rfl

def empty : TaskMap := ⟨[], List.nodup_nil⟩

def find? (m : TaskMap) (id : TaskId) : Option Task := m.entries.find? (·.id = id)

def has (m : TaskMap) (id : TaskId) : Bool := m.entries.any (·.id = id)

@[simp] theorem find?_eq_some_iff {m : TaskMap} {id : TaskId} {t : Task} :
    m.find? id = some t ↔ t ∈ m.entries ∧ t.id = id := by
  constructor
  · intro found
    exact ⟨List.mem_of_find?_eq_some found, by simpa using List.find?_some found⟩
  · rintro ⟨ht, rfl⟩
    obtain ⟨u, found⟩ : ∃ u, m.find? t.id = some u :=
      Option.isSome_iff_exists.1 (List.find?_isSome.2 ⟨t, ht, by simp⟩)
    have named : u.id = t.id := by simpa using List.find?_some found
    rw [found, List.inj_on_of_nodup_map m.distinct (List.mem_of_find?_eq_some found) ht named]

/-- The list of entries after a task is written: in place of the one with its identifier, or at the
end. -/
def written (entries : List Task) (t : Task) : List Task :=
  if entries.any (·.id = t.id) then entries.map fun u => if u.id = t.id then t else u
  else entries ++ [t]

theorem ids_replaced (entries : List Task) (t : Task) :
    (entries.map fun u => if u.id = t.id then t else u).map Task.id = entries.map Task.id := by
  rw [List.map_map]
  apply List.map_congr_left
  intro u _
  rw [Function.comp_apply]
  split
  · next h => exact h.symm
  · rfl

theorem distinct_written {entries : List Task} (h : (entries.map Task.id).Nodup) (t : Task) :
    ((written entries t).map Task.id).Nodup := by
  unfold written
  split
  · rwa [ids_replaced]
  · next new =>
    rw [List.map_append, List.map_cons, List.map_nil, List.nodup_append]
    refine ⟨h, List.nodup_singleton _, fun i hi j hj => ?_⟩
    rintro rfl
    obtain ⟨u, hu, e⟩ := List.mem_map.1 hi
    exact new (List.any_eq_true.2 ⟨u, hu, by simp_all⟩)

def insert (m : TaskMap) (t : Task) : TaskMap :=
  ⟨written m.entries t, distinct_written m.distinct t⟩

def insertAll (m : TaskMap) (tasks : List Task) : TaskMap := tasks.foldl insert m

def erase (m : TaskMap) (id : TaskId) : TaskMap :=
  ⟨m.entries.filter (·.id ≠ id), m.distinct.sublist (List.filter_sublist.map _)⟩

@[simp] theorem insertAll_cons (m : TaskMap) (t : Task) (tasks : List Task) :
    m.insertAll (t :: tasks) = (m.insert t).insertAll tasks := rfl

@[simp] theorem insertAll_append (m : TaskMap) (tasks more : List Task) :
    m.insertAll (tasks ++ more) = (m.insertAll tasks).insertAll more := List.foldl_append

theorem entries_insert_new (m : TaskMap) {t : Task} (h : t.id ∉ m.entries.map Task.id) :
    (m.insert t).entries = m.entries ++ [t] := by
  refine if_neg fun old => h ?_
  obtain ⟨u, hu, e⟩ := List.any_eq_true.1 old
  exact List.mem_map.2 ⟨u, hu, by simpa using e⟩

theorem mem_ids_insert {m : TaskMap} {t : Task} {id : TaskId} :
    id ∈ (m.insert t).entries.map Task.id ↔ id ∈ m.entries.map Task.id ∨ id = t.id := by
  by_cases old : t.id ∈ m.entries.map Task.id
  · have there : m.entries.any (·.id = t.id) := by simpa using old
    have ids : (m.insert t).entries.map Task.id = m.entries.map Task.id := by
      rw [← ids_replaced m.entries t]
      exact congrArg _ (if_pos there)
    rw [ids]
    exact ⟨.inl, fun either => either.elim (fun h => h) fun same => same ▸ old⟩
  · rw [entries_insert_new m old, List.map_append, List.mem_append]
    simp

theorem mem_ids_insertAll {m : TaskMap} {tasks : List Task} {id : TaskId} :
    id ∈ (m.insertAll tasks).entries.map Task.id ↔
      id ∈ m.entries.map Task.id ∨ id ∈ tasks.map Task.id := by
  induction tasks generalizing m with
  | nil => simp [insertAll]
  | cons t tasks ih =>
    rw [insertAll_cons, ih, mem_ids_insert, List.map_cons, List.mem_cons, or_assoc]

@[simp] theorem insertAll_entries (m : TaskMap) : empty.insertAll m.entries = m := by
  have step (before after : List Task) (h : ((before ++ after).map Task.id).Nodup)
      (h' : (before.map Task.id).Nodup) :
      ((⟨before, h'⟩ : TaskMap).insertAll after).entries = before ++ after := by
    induction after generalizing before with
    | nil => exact (List.append_nil _).symm
    | cons t after ih =>
      have new : t.id ∉ before.map Task.id := by
        rw [List.map_append, List.nodup_append] at h
        exact fun old => h.2.2 _ old _ (List.mem_map_of_mem List.mem_cons_self) rfl
      have entries : (insert ⟨before, h'⟩ t) =
          ⟨before ++ [t], entries_insert_new ⟨before, h'⟩ new ▸ (insert ⟨before, h'⟩ t).distinct⟩ :=
        ext (entries_insert_new ⟨before, h'⟩ new)
      rw [insertAll_cons, entries, ih, List.append_assoc]
      · rfl
      · rwa [List.append_assoc]
  exact ext (step [] m.entries m.distinct List.nodup_nil)

theorem length_erase_eq_iff (m : TaskMap) (id : TaskId) :
    (m.erase id).entries.length = m.entries.length ↔ m.has id = false := by
  rw [erase, List.length_filter_eq_length_iff, has, List.any_eq_false]
  simp

/-- Identifiers to look at maps and graphs with. -/
def a : TaskId := ⟨"a", by decide, by decide +kernel, List.all_eq_true.1 (by decide)⟩
def b : TaskId := ⟨"b", by decide, by decide +kernel, List.all_eq_true.1 (by decide)⟩
def c : TaskId := ⟨"c", by decide, by decide +kernel, List.all_eq_true.1 (by decide)⟩

def leapDay : Instant := ⟨⟨2024, 2, 29, by decide⟩, 0, 0, by decide⟩

def sample (id : TaskId) (description : String) : Task := .create id description leapDay

example : (empty.insertAll [sample a "x", sample b "y", sample a "z"]).entries =
    [sample a "z", sample b "y"] := by decide

end TaskMap

namespace Store

/-- What has been read stands for a map: its tasks are the entries, and the table has the position
of each of them. -/
structure Reading.IsMap (r : Reading) (m : TaskMap) : Prop where
  tasks : r.tasks = m.entries
  positions : ∀ id n, r.positions.lookup id = some n ↔ (m.entries[n]?).map Task.id = some id

theorem Reading.isMap_empty : IsMap {} TaskMap.empty := ⟨rfl, by simp [TaskMap.empty]⟩

theorem set_eq_map {entries : List Task} (distinct : (entries.map Task.id).Nodup) {t : Task}
    {n : Nat} (h : (entries[n]?).map Task.id = some t.id) :
    entries.set n t = entries.map fun u => if u.id = t.id then t else u := by
  obtain ⟨u, hu, e⟩ := Option.map_eq_some_iff.1 h
  obtain ⟨inside, rfl⟩ := List.getElem?_eq_some_iff.1 hu
  apply List.ext_getElem (by simp)
  intro k hk hk'
  rw [List.getElem_map, List.getElem_set]
  rw [List.length_set] at hk
  by_cases same : n = k
  · subst same
    rw [if_pos rfl, if_pos e]
  · rw [if_neg same, if_neg]
    intro e'
    have inside' : n < (entries.map Task.id).length := by simpa using inside
    have hk' : k < (entries.map Task.id).length := by simpa using hk
    have same_id : (entries.map Task.id)[n] = (entries.map Task.id)[k] := by simp [e, e']
    exact same (distinct.getElem_inj_iff.1 same_id)

theorem Reading.IsMap.new {r : Reading} {m : TaskMap} (h : r.IsMap m) {id : TaskId}
    (absent : r.positions.lookup id = none) : id ∉ m.entries.map Task.id := by
  intro old
  obtain ⟨n, inside, e⟩ := List.getElem_of_mem old
  have found := (h.positions id n).2 (by
    rw [← List.getElem?_map, List.getElem?_eq_getElem inside, e])
  rw [absent] at found
  contradiction

theorem Reading.IsMap.replace {r : Reading} {m : TaskMap} (h : r.IsMap m) {t : Task} {n : Nat}
    (found : r.positions.lookup t.id = some n) :
    IsMap { r with tasks := r.tasks.set n t } (m.insert t) := by
  have place := (h.positions t.id n).1 found
  have replaced : (m.insert t).entries = m.entries.map fun u => if u.id = t.id then t else u := by
    obtain ⟨u, hu, e⟩ := Option.map_eq_some_iff.1 place
    exact if_pos (List.any_eq_true.2 ⟨u, List.mem_of_getElem? hu, by simpa using e⟩)
  refine ⟨?_, fun id k => ?_⟩
  · rw [replaced]
    exact h.tasks ▸ set_eq_map m.distinct place
  · rw [h.positions, replaced, ← List.getElem?_map, ← List.getElem?_map, TaskMap.ids_replaced]

theorem getElem?_concat_eq_some_iff {α : Type} {l : List α} {a : α} (new : a ∉ l) {n : Nat} :
    (l ++ [a])[n]? = some a ↔ n = l.length := by
  rw [List.getElem?_append]
  split
  · next inside =>
    refine iff_of_false (fun e => new (List.mem_of_getElem? e)) ?_
    omega
  · rw [List.getElem?_singleton]
    split
    · exact iff_of_true rfl (by omega)
    · exact iff_of_false nofun (by omega)

theorem getElem?_concat_of_ne {α : Type} {l : List α} {a b : α} (ne : b ≠ a) {n : Nat} :
    (l ++ [a])[n]? = some b ↔ l[n]? = some b := by
  rw [List.getElem?_append]
  split
  · rfl
  · next outside =>
    rw [List.getElem?_eq_none (Nat.le_of_not_lt outside)]
    exact iff_of_false (fun e => ne (List.mem_singleton.1 (List.mem_of_getElem? e))) nofun

theorem Reading.IsMap.add {r : Reading} {m : TaskMap} (h : r.IsMap m) {t : Task}
    (absent : r.positions.lookup t.id = none) :
    IsMap ⟨r.tasks ++ [t], (t.id, r.tasks.length) :: r.positions⟩ (m.insert t) := by
  have new := h.new absent
  have added := m.entries_insert_new new
  refine ⟨by rw [added, h.tasks], fun id n => ?_⟩
  rw [added, List.lookup_cons, ← List.getElem?_map, List.map_append]
  by_cases same : id = t.id
  · subst same
    have length : (m.entries.map Task.id).length = r.tasks.length := by
      rw [List.length_map, h.tasks]
    rw [beq_self_eq_true, Option.some.injEq, List.map_singleton, getElem?_concat_eq_some_iff new,
      length, eq_comm]
  · have other : (id == t.id) = false := by simpa using same
    rw [other, List.map_singleton, getElem?_concat_of_ne same, h.positions, List.getElem?_map]

theorem Reading.IsMap.take {r : Reading} {m : TaskMap} (h : r.IsMap m) (t : Task) :
    (r.take t).IsMap (m.insert t) := by
  unfold Reading.take
  split
  · next found => exact h.replace found
  · next absent => exact h.add absent

theorem put_eq_written {entries : List Task} (distinct : (entries.map Task.id).Nodup) (t : Task) :
    put t entries = TaskMap.written entries t := by
  induction entries with
  | nil => rfl
  | cons u us ih =>
    obtain ⟨new, distinct⟩ := List.nodup_cons.1 distinct
    unfold put TaskMap.written
    by_cases same : u.id = t.id
    · rw [if_pos same, if_pos (by simp [same]), List.map_cons, if_pos same]
      refine congrArg (t :: ·) ((List.map_id' us).symm.trans ?_)
      refine List.map_congr_left fun v hv => (if_neg fun e => new ?_).symm
      exact List.mem_map.2 ⟨v, hv, e.trans same.symm⟩
    · rw [if_neg same, ih distinct, TaskMap.written]
      by_cases old : us.any (·.id = t.id)
      · rw [if_pos old, if_pos (by simp_all), List.map_cons, if_neg same]
      · rw [if_neg old, if_neg (by simp_all), List.cons_append]

@[simp] theorem put_entries (t : Task) (m : TaskMap) : put t m.entries = (m.insert t).entries :=
  put_eq_written m.distinct t

theorem foldl_put_entries (tasks : List Task) (m : TaskMap) :
    tasks.foldl (fun ts t => put t ts) m.entries = (m.insertAll tasks).entries := by
  induction tasks generalizing m with
  | nil => rfl
  | cons t tasks ih => simp [ih]

/-- Whatever lines can be read, they stand for a map. -/
theorem isMap_of_decodeFrom {lines : List Bytes} {r r' : Reading} {m : TaskMap} {n : Nat}
    (h : r.IsMap m) (read : decodeFrom r n lines = .ok r') : ∃ m', r'.IsMap m' := by
  induction lines generalizing r m n with
  | nil =>
    obtain rfl := Except.ok.inj read
    exact ⟨m, h⟩
  | cons line rest ih =>
    simp only [decodeFrom] at read
    split at read
    · contradiction
    split at read
    · exact ih h read
    split at read
    · contradiction
    · exact ih (h.take _) read

theorem exists_map_of_decode {content : Bytes} {tasks : List Task}
    (h : decode content = .ok tasks) : ∃ m : TaskMap, tasks = m.entries := by
  rw [decode] at h
  cases read : decodeFrom {} 1 content.lines with
  | error f => rw [read] at h; contradiction
  | ok r =>
    rw [read] at h
    obtain rfl := Except.ok.inj h
    obtain ⟨m, hm⟩ := isMap_of_decodeFrom Reading.isMap_empty read
    exact ⟨m, hm.tasks⟩

end Store
end Precedence

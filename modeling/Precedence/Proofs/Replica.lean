import Precedence.Proofs.Moment
import Precedence.Proofs.Repeats
import Precedence.Replica.Basic
/-!
What a replica gives back of the tasks that it was filled with. Every field comes back as it was,
and the prerequisites of a task come back in their order and each one once.
-/
namespace Precedence

/-- The text of a moment in a row can be read: its year has four digits. -/
structure Instant.FitsRow (i : Instant) : Prop where
  least : 0 ≤ i.date.year
  most : i.date.year ≤ 9999

structure Task.FitsRow (t : Task) : Prop where
  createdAt : t.createdAt.FitsRow
  updatedAt : t.updatedAt.FitsRow
  completedAt : ∀ i ∈ t.completedAt, i.FitsRow

def Task.unrepeated (t : Task) : Task := { t with dependsOn := t.dependsOn.eraseDups }

theorem Task.edges_injective (t : Task) :
    Function.Injective fun p => (⟨t.id, p⟩ : Edge) := fun _ _ h => (Edge.mk.inj h).2

theorem Task.edges_unrepeated (t : Task) : t.unrepeated.edges = t.edges.eraseDups :=
  (eraseDups_map t.edges_injective t.dependsOn).symm

@[simp] theorem Status.parse?_name (x : Status) : Status.parse? x.name = some x := by
  cases x <;> decide +kernel

@[simp] theorem Origin.parse?_name (x : Origin) : Origin.parse? x.name = some x := by
  cases x <;> decide +kernel

namespace TaskRow

def numbered (place : Nat) (t : Task) : TaskRow Int :=
  { ofTask place t with
    priority := t.priority.level
    estimatedDuration := t.estimatedDuration.map signedDuration
    depth := t.depth.toNat }

@[simp] theorem integers_ofTask (place : Nat) (t : Task) :
    (ofTask place t).integers = .ok (numbered place t) := by
  unfold integers ofTask numbered
  cases t.estimatedDuration <;> rfl

@[simp] theorem id?_text (id : TaskId) : id? id.text = .ok id := by
  rw [id?, TaskId.parse_text]

theorem time?_rowText {i : Instant} (h : i.FitsRow) : time? i.rowText = .ok i := by
  rw [time?, Instant.ofRowText_rowText i h.least h.most]
  rfl

theorem optionM_map {α β : Type} {f : α → Except RowFault β} {text : β → α} {o : Option β}
    (h : ∀ b ∈ o, f (text b) = .ok b) : optionM f (o.map text) = .ok o := by
  cases o with
  | none => rfl
  | some b =>
    rw [Option.map_some, optionM, h b rfl]
    rfl

theorem priority_numbered (place : Nat) (t : Task) : (if 0 ≤ (numbered place t).priority then
    Priority.ofLevel? (numbered place t).priority.toNat else none) = some t.priority := by
  have level : (numbered place t).priority = (t.priority.level : Int) := rfl
  rw [level, if_pos (Int.natCast_nonneg _), Int.toNat_natCast, Priority.ofLevel?_level]

theorem task_numbered {t : Task} (fits : t.FitsRow) (place : Nat) (dependsOn : List TaskId) :
    (numbered place t).task dependsOn = .ok { t with dependsOn } := by
  have duration : (t.estimatedDuration.map signedDuration).map unsignedDuration =
      t.estimatedDuration := by
    rw [Option.map_map]
    exact (Option.map_congr fun d _ => unsignedDuration_signedDuration d).trans Option.map_id'
  have depth : UInt32.ofNat (t.depth.toNat : Int).toNat = t.depth := by
    rw [Int.toNat_natCast, UInt32.ofNat_toNat]
  have parent : optionM id? (t.parent.map TaskId.text) = .ok t.parent :=
    optionM_map fun id _ => id?_text id
  have completed : optionM time? (t.completedAt.map Instant.rowText) = .ok t.completedAt :=
    optionM_map fun i hi => time?_rowText (fits.completedAt i hi)
  unfold task
  rw [priority_numbered]
  simp only [numbered, ofTask, id?_text, Status.parse?_name, Origin.parse?_name, duration, depth,
    parent, completed, time?_rowText fits.createdAt, time?_rowText fits.updatedAt, ok_bind]
  rfl

theorem fits_of_time? {i j : Instant} (h : time? i.rowText = .ok j) : i.FitsRow := by
  cases read : Instant.ofRowText i.rowText with
  | error fault => rw [time?, read] at h; contradiction
  | ok k =>
    obtain ⟨least, most⟩ := Instant.year_of_ofRowText read
    exact ⟨least, most⟩

theorem fits_of_optionM {o o' : Option Instant}
    (h : optionM time? (o.map Instant.rowText) = .ok o') : ∀ i ∈ o, i.FitsRow := by
  rintro i ⟨⟩
  rw [Option.map_some, optionM] at h
  obtain ⟨j, read, -⟩ := exists_of_map_eq_ok h
  exact fits_of_time? read

theorem fits_of_task {t u : Task} {place : Nat} {dependsOn : List TaskId}
    (h : (numbered place t).task dependsOn = .ok u) : t.FitsRow := by
  have parent : optionM id? (t.parent.map TaskId.text) = .ok t.parent :=
    optionM_map fun id _ => id?_text id
  unfold task at h
  rw [priority_numbered] at h
  simp only [numbered, ofTask, id?_text, Status.parse?_name, Origin.parse?_name, parent, ok_bind,
    pure_bind] at h
  obtain ⟨_, createdAt, h⟩ := exists_of_bind_eq_ok h
  obtain ⟨_, updatedAt, h⟩ := exists_of_bind_eq_ok h
  obtain ⟨_, completedAt, -⟩ := exists_of_bind_eq_ok h
  exact ⟨fits_of_time? createdAt, fits_of_time? updatedAt, fits_of_optionM completedAt⟩

end TaskRow

def Edge.texts (e : Edge) : String × String := (e.dependent.text, e.prerequisite.text)

theorem Edge.texts_injective : Function.Injective Edge.texts := by
  intro a b h
  have dependent := TaskId.ext (congrArg Prod.fst h)
  have prerequisite := TaskId.ext (congrArg Prod.snd h)
  cases a
  cases b
  cases dependent
  cases prerequisite
  rfl

namespace EdgeRow

def ends (r : EdgeRow) : String × String := (r.dependent, r.prerequisite)

theorem edge_of_ends {r : EdgeRow} {e : Edge} (h : r.ends = e.texts) : r.edge = .ok e := by
  have dependent : r.dependent = e.dependent.text := congrArg Prod.fst h
  have prerequisite : r.prerequisite = e.prerequisite.text := congrArg Prod.snd h
  rw [edge, dependent, prerequisite, TaskId.parse_text, TaskId.parse_text]
  rfl

theorem mapM_edge {rows : List EdgeRow} {es : List Edge} (h : rows.map ends = es.map Edge.texts) :
    rows.mapM edge = .ok es := by
  induction rows generalizing es with
  | nil =>
    cases es with
    | nil => rfl
    | cons e es => contradiction
  | cons r rows ih =>
    cases es with
    | nil => contradiction
    | cons e es =>
      obtain ⟨first, rest⟩ := List.cons.inj h
      rw [List.mapM_cons, edge_of_ends first, ok_bind, ih rest]
      rfl

theorem ends_ofTask (t : Task) : (ofTask t).map ends = t.edges.map Edge.texts := by
  rw [ofTask, Task.edges, List.map_map, List.map_map]
  have named := congrArg (List.map fun p : TaskId => (t.id.text, p.text))
    (List.zipIdx_map_fst 0 t.dependsOn)
  rwa [List.map_map] at named

theorem dependent_of_mem {t : Task} {r : EdgeRow} (h : r ∈ ofTask t) : r.dependent = t.id.text := by
  obtain ⟨x, -, rfl⟩ := List.mem_map.1 h
  rfl

theorem ordered_ofTask (t : Task) : (ofTask t).Pairwise fun a b => a.position ≤ b.position := by
  have positions : ((t.dependsOn.zipIdx).map Prod.snd).Pairwise (· ≤ ·) := by
    rw [List.zipIdx_map_snd]
    exact List.pairwise_le_range'
  rw [ofTask, List.pairwise_map]
  exact List.pairwise_map.1 positions

end EdgeRow

namespace Replica

theorem foldl_insertTask {rows new : List (TaskRow Cell)}
    (distinct : ((rows ++ new).map TaskRow.id).Nodup) :
    new.foldl insertTask rows = rows ++ new := by
  induction new generalizing rows with
  | nil => exact (List.append_nil rows).symm
  | cons row new ih =>
    have kept : rows.filter (·.id ≠ row.id) = rows := List.filter_eq_self.2 fun r hr => by
      rw [List.map_append, List.nodup_append] at distinct
      simpa using distinct.2.2 r.id (List.mem_map_of_mem hr) row.id (by simp)
    rw [List.append_cons] at distinct ⊢
    rw [List.foldl_cons, insertTask, kept, ih distinct]

theorem taskRows_eq {tasks : List Task} (distinct : (tasks.map Task.id).Nodup) :
    taskRows tasks = tasks.zipIdx.map fun (t, place) => TaskRow.ofTask place t := by
  apply foldl_insertTask
  have ids : (tasks.zipIdx.map fun (t, place) => TaskRow.ofTask place t).map TaskRow.id =
      (tasks.map Task.id).map TaskId.text := by
    rw [List.map_map, List.map_map]
    have named := congrArg (List.map fun t : Task => t.id.text) (List.zipIdx_map_fst 0 tasks)
    rwa [List.map_map] at named
  rw [List.nil_append, ids]
  exact distinct.map fun _ _ => TaskId.ext

theorem ends_insertEdge (rows : List EdgeRow) (row : EdgeRow) :
    (insertEdge rows row).map EdgeRow.ends = noteNew (rows.map EdgeRow.ends) row.ends := by
  have held : (rows.any fun e => e.dependent = row.dependent ∧ e.prerequisite = row.prerequisite) ↔
      row.ends ∈ rows.map EdgeRow.ends := by
    simp [EdgeRow.ends]
  unfold insertEdge noteNew
  by_cases h : row.ends ∈ rows.map EdgeRow.ends
  · rw [if_pos h, if_pos (held.2 h)]
  · rw [if_neg h, if_neg (mt held.1 h), List.map_append]
    rfl

theorem ends_foldl_insertEdge (rows new : List EdgeRow) :
    (new.foldl insertEdge rows).map EdgeRow.ends =
      (new.map EdgeRow.ends).foldl noteNew (rows.map EdgeRow.ends) := by
  induction new generalizing rows with
  | nil => rfl
  | cons row new ih =>
    rw [List.foldl_cons, ih, ends_insertEdge]
    rfl

theorem foldl_insertEdge_sublist (rows new : List EdgeRow) :
    (new.foldl insertEdge rows).Sublist (rows ++ new) := by
  induction new generalizing rows with
  | nil => simp
  | cons row new ih =>
    have first : (insertEdge rows row).Sublist (rows ++ [row]) := by
      unfold insertEdge
      split
      · exact List.sublist_append_left ..
      · exact .refl _
    rw [List.append_cons]
    exact (ih _).trans (first.append (.refl new))

/-- The rows of edges hold each edge once. -/
theorem ends_edgeRows (tasks : List Task) :
    (edgeRows tasks).map EdgeRow.ends = (tasks.flatMap Task.edges).eraseDups.map Edge.texts := by
  have all : (tasks.flatMap EdgeRow.ofTask).map EdgeRow.ends =
      (tasks.flatMap Task.edges).map Edge.texts := by
    rw [List.map_flatMap, List.map_flatMap]
    exact List.flatMap_congr fun t _ => EdgeRow.ends_ofTask t
  rw [edgeRows, ends_foldl_insertEdge, List.map_nil, foldl_noteNew, all,
    ← eraseDups_map Edge.texts_injective]
  simp

section

variable {tasks : List Task} (distinct : (tasks.map Task.id).Nodup)

include distinct

/-- What one task contributes is told from what others contribute by the identifier. -/
theorem filter_own {α : Type} {t : Task} (mem : t ∈ tasks) {f : Task → List α} {p : α → Bool}
    (own : ∀ u ∈ tasks, ∀ a ∈ f u, p a ↔ u.id = t.id) : (tasks.flatMap f).filter p = f t :=
  filter_flatMap_eq (.of_map _ distinct) mem (fun a ha => (own t mem a ha).2 rfl)
    fun u hu other a ha h =>
      other (List.inj_on_of_nodup_map distinct hu mem ((own u hu a ha).1 h))

/-- The rows of the edges of a task name its prerequisites in their order, each one once. -/
theorem ends_edgesOf (revision : String) {t : Task} (mem : t ∈ tasks) {row : TaskRow Cell}
    (named : row.id = t.id.text) :
    ((ofTasks tasks revision).edgesOf row).map EdgeRow.ends =
      t.unrepeated.edges.map Edge.texts := by
  have rows : (tasks.flatMap EdgeRow.ofTask).filter (·.dependent = row.id) = EdgeRow.ofTask t := by
    apply filter_own distinct mem
    intro u _ r hr
    rw [decide_eq_true_eq, EdgeRow.dependent_of_mem hr, named]
    exact ⟨TaskId.ext, congrArg _⟩
  have edges : (tasks.flatMap Task.edges).filter (·.dependent = t.id) = t.edges := by
    apply filter_own distinct mem
    intro u _ e he
    obtain ⟨p, -, rfl⟩ := List.mem_map.1 he
    exact decide_eq_true_iff
  have ordered : ((edgeRows tasks).filter (·.dependent = row.id)).Pairwise
      fun a b => decide (a.position ≤ b.position) := by
    have sub := (foldl_insertEdge_sublist [] (tasks.flatMap EdgeRow.ofTask)).filter
      (·.dependent = row.id)
    rw [List.nil_append, rows] at sub
    exact ((EdgeRow.ordered_ofTask t).imp fun h => decide_eq_true h).sublist sub
  have own : ((edgeRows tasks).filter (·.dependent = row.id)).map EdgeRow.ends =
      ((edgeRows tasks).map EdgeRow.ends).filter (·.1 = row.id) := by
    rw [List.filter_map]
    rfl
  have kept :
      (fun e : Edge => decide (e.texts.1 = row.id)) = fun e => decide (e.dependent = t.id) := by
    funext e
    rw [decide_eq_decide, named]
    exact ⟨TaskId.ext, congrArg TaskId.text⟩
  rw [edgesOf, ofTasks, List.mergeSort_of_pairwise ordered, own, ends_edgeRows, List.filter_map,
    Function.comp_def, kept, ← eraseDups_filter, edges, Task.edges_unrepeated]

/-- The edges of a replica are those of the tasks, task by task, each one once. -/
theorem loadEdges_ofTasks (revision : String) :
    (ofTasks tasks revision).loadEdges = .ok (tasks.flatMap fun t => t.unrepeated.edges) := by
  have ends : ((ofTasks tasks revision).tasks.flatMap (ofTasks tasks revision).edgesOf).map
      EdgeRow.ends = (tasks.flatMap fun t => t.unrepeated.edges).map Edge.texts := by
    have rows : (ofTasks tasks revision).tasks = _ := taskRows_eq distinct
    rw [rows, List.map_flatMap, List.map_flatMap, List.flatMap_map]
    have one : ∀ x ∈ tasks.zipIdx,
        ((ofTasks tasks revision).edgesOf (TaskRow.ofTask x.2 x.1)).map EdgeRow.ends =
          x.1.unrepeated.edges.map Edge.texts := fun x hx =>
      ends_edgesOf distinct revision (List.fst_mem_of_mem_zipIdx hx) rfl
    have all := congrArg (List.flatMap fun t : Task => t.unrepeated.edges.map Edge.texts)
      (List.zipIdx_map_fst 0 tasks)
    rw [List.flatMap_congr one, ← all, List.flatMap_map]
  rw [loadEdges, EdgeRow.mapM_edge ends]
  rfl

end

theorem isOwn_numbered (place : Nat) (t : Task) (e : Edge) :
    isOwn (TaskRow.numbered place t) e = (e.dependent == t.id) := by
  have id : TaskId.parse (TaskRow.numbered place t).id = .ok t.id := t.id.parse_text
  rw [isOwn, id]

theorem assemble_numbered {l : List (Task × Nat)} (distinct : (l.map fun x => x.1.id).Nodup)
    (fits : ∀ x ∈ l, x.1.FitsRow) :
    assemble (l.map fun x => TaskRow.numbered x.2 x.1) (l.flatMap fun x => x.1.unrepeated.edges) =
      .ok (l.map fun x => x.1.unrepeated) := by
  induction l with
  | nil => rfl
  | cons x l ih =>
    obtain ⟨t, place⟩ := x
    obtain ⟨new, distinct⟩ := List.nodup_cons.1 distinct
    obtain ⟨first, rest⟩ := List.forall_mem_cons.1 fits
    have mine : ∀ e ∈ t.unrepeated.edges, isOwn (TaskRow.numbered place t) e := by
      intro e he
      obtain ⟨p, -, rfl⟩ := List.mem_map.1 he
      rw [isOwn_numbered]
      exact beq_self_eq_true t.id
    have others : ∀ e ∈ l.flatMap fun x => x.1.unrepeated.edges,
        isOwn (TaskRow.numbered place t) e = false := by
      intro e he
      obtain ⟨y, hy, he⟩ := List.mem_flatMap.1 he
      obtain ⟨p, -, rfl⟩ := List.mem_map.1 he
      rw [isOwn_numbered]
      exact beq_false_of_ne fun same => new (List.mem_map.2 ⟨y, hy, same⟩)
    have split : (t.unrepeated.edges ++ l.flatMap fun x => x.1.unrepeated.edges).partition
        (isOwn (TaskRow.numbered place t)) =
          (t.unrepeated.edges, l.flatMap fun x => x.1.unrepeated.edges) := by
      rw [List.partition_eq_filter_filter, List.filter_append, List.filter_append,
        List.filter_eq_self.2 mine, List.filter_eq_nil_iff.2 fun e he => by simp [others e he],
        List.filter_eq_nil_iff.2 fun e he => by simp [mine e he],
        List.filter_eq_self.2 fun e he => by simp [others e he], List.append_nil, List.nil_append]
    have named : t.unrepeated.edges.map Edge.prerequisite = t.unrepeated.dependsOn := by
      rw [Task.edges, List.map_map]
      exact List.map_id _
    rw [List.map_cons, List.flatMap_cons, assemble]
    simp only [split, named]
    rw [TaskRow.task_numbered first, ih distinct rest]
    rfl

theorem fits_of_assemble {l : List (Task × Nat)} {edges : List Edge} {tasks : List Task}
    (h : assemble (l.map fun x => TaskRow.numbered x.2 x.1) edges = .ok tasks) :
    ∀ x ∈ l, x.1.FitsRow := by
  induction l generalizing edges tasks with
  | nil => exact fun _ hx => absurd hx List.not_mem_nil
  | cons x l ih =>
    rw [List.map_cons, assemble] at h
    obtain ⟨t, first, h⟩ := exists_of_bind_eq_ok h
    obtain ⟨ts, rest, -⟩ := exists_of_bind_eq_ok h
    exact List.forall_mem_cons.2 ⟨TaskRow.fits_of_task (eq_ok_of_mapError first), ih rest⟩

theorem mapM_integers (l : List (Task × Nat)) :
    (l.map fun x => TaskRow.ofTask x.2 x.1).mapM TaskRow.integers =
      .ok (l.map fun x => TaskRow.numbered x.2 x.1) := by
  induction l with
  | nil => rfl
  | cons x l ih =>
    rw [List.map_cons, List.mapM_cons, TaskRow.integers_ofTask, ok_bind, ih]
    rfl

/-- A replica gives back the tasks that it was filled with, in their order. -/
theorem loadTasks_ofTasks {tasks : List Task} (distinct : (tasks.map Task.id).Nodup)
    (fits : ∀ t ∈ tasks, t.FitsRow) (revision : String) :
    (ofTasks tasks revision).loadTasks = .ok (tasks.map Task.unrepeated) := by
  have rows : (ofTasks tasks revision).tasks = _ := taskRows_eq distinct
  have first : tasks.zipIdx.map Prod.fst = tasks := List.zipIdx_map_fst 0 tasks
  have edges : (tasks.flatMap fun t => t.unrepeated.edges) =
      tasks.zipIdx.flatMap fun x => x.1.unrepeated.edges := by
    have all := congrArg (List.flatMap fun t : Task => t.unrepeated.edges) first
    rw [← all, List.flatMap_map]
  have result : tasks.map Task.unrepeated = tasks.zipIdx.map fun x => x.1.unrepeated := by
    have all := congrArg (List.map Task.unrepeated) first
    rw [← all, List.map_map]
    rfl
  have ids : (tasks.zipIdx.map fun x => x.1.id).Nodup := by
    have all := congrArg (List.map Task.id) first
    rw [List.map_map] at all
    rwa [← all] at distinct
  rw [loadTasks, loadEdges_ofTasks distinct, rows, mapM_integers, edges, result]
  exact assemble_numbered ids fun x hx => fits x.1 (List.fst_mem_of_mem_zipIdx hx)

/-- It does so only if the text of each moment in its rows can be read. -/
theorem fits_of_loadTasks {tasks ts : List Task} (distinct : (tasks.map Task.id).Nodup)
    {revision : String} (h : (ofTasks tasks revision).loadTasks = .ok ts) :
    ∀ t ∈ tasks, t.FitsRow := by
  have rows : (ofTasks tasks revision).tasks = _ := taskRows_eq distinct
  rw [loadTasks, rows, mapM_integers] at h
  obtain ⟨_, same, h⟩ := exists_of_bind_eq_ok h
  obtain rfl := Except.ok.inj same
  obtain ⟨edges, -, assembled⟩ := exists_of_bind_eq_ok h
  intro t ht
  rw [← List.zipIdx_map_fst 0 tasks] at ht
  obtain ⟨x, hx, rfl⟩ := List.mem_map.1 ht
  exact fits_of_assemble assembled x hx

end Replica
end Precedence

import Precedence.Proofs.Knot
/-!
Reports about some of the tasks. Such a report names the listed tasks that are not loaded, the
unsound edges that have a listed dependent, and a cycle for each knot that listed tasks make among
themselves. A list of all tasks makes the report about everything.
-/
namespace Precedence

def GraphFault.cycle? : GraphFault → Option (List TaskId)
  | .circularDependency cycle => some cycle
  | _ => none

def Report.cycles (report : Report) : List (List TaskId) :=
  report.faults.filterMap GraphFault.cycle?

@[simp] theorem GraphFault.cycle?_eq_some_iff {fault : GraphFault} {c : List TaskId} :
    fault.cycle? = some c ↔ fault = .circularDependency c := by
  cases fault <;> simp [cycle?]

@[simp] theorem Report.mem_cycles {report : Report} {c : List TaskId} :
    c ∈ report.cycles ↔ .circularDependency c ∈ report.faults := by
  simp [cycles]

namespace Graph

variable {g : Graph} {keep : TaskId → Bool}

/-- A cycle of tasks that are kept is a cycle of the part. -/
theorem IsCycle.induced {c : List TaskId} (h : IsCycle g.Link c) (kept : ∀ v ∈ c, keep v = true) :
    IsCycle (g.induced keep).Link c where
  two_le := h.two_le
  distinct := h.distinct
  chain := h.chain.imp_of_mem_imp fun v w hv hw link => link_induced.2 ⟨link, kept w hw, kept v hv⟩
  closed v hv w hw := link_induced.2 ⟨h.closed v hv w hw, kept w (List.mem_of_mem_head? hw),
    kept v (List.mem_of_getLast? hv)⟩

theorem IsCycle.of_induced {c : List TaskId} (h : IsCycle (g.induced keep).Link c) :
    IsCycle g.Link c ∧ ∀ v ∈ c, keep v = true := by
  refine ⟨h.mono fun _ _ link => (link_induced.1 link).1, fun v hv => ?_⟩
  obtain ⟨w, -, link⟩ := Relation.TransGen.tail'_iff.1 (h.reaches hv hv)
  exact (link_induced.1 link).2.1

/-- Nothing of a graph is left out if all its tasks are kept. -/
theorem induced_eq_self (sound : g.Sound) (notes : g.NotesMissing)
    (all : ∀ id ∈ g.ids, keep id = true) :
    g.induced keep = g := by
  have tasks : (g.tasks.filter fun t => keep t.id) = g.tasks :=
    List.filter_eq_self.2 fun t ht => all t.id (List.mem_map_of_mem ht)
  have links : (g.links.filter fun e => keep e.dependent && keep e.prerequisite) = g.links :=
    List.filter_eq_self.2 fun e he => by
      rw [all _ (sound.dependent_mem e he), all _ (sound.prerequisite_mem e he)]
      rfl
  have unresolved : (g.unresolved.filter fun e => keep e.dependent) = g.unresolved :=
    List.filter_eq_self.2 fun e he => all _ (notes.dependent_mem e he)
  rw [Graph.induced, tasks, links, unresolved]

/-- There is one of some cycles for each knot, and it stays in the knot. -/
def WitnessesKnots (g : Graph) (cycles : List (List TaskId)) : Prop :=
  ∃ knots : List (List TaskId), (∀ knot, g.IsKnot knot ↔ ∃ l ∈ knots, knot = {v | v ∈ l}) ∧
    knots.Pairwise List.Disjoint ∧ List.Forall₂ (fun l c => IsCycle g.Link c ∧ c ⊆ l) knots cycles

theorem Sound.witnessesKnots (h : g.Sound) {r : Ranking} (ranks : r.order.Perm g.ids) :
    g.WitnessesKnots (g.cycles r) := by
  refine ⟨g.knots r, fun knot => isKnot_iff h ranks,
    (pairwise_knots h ranks).imp fun both => both.1, ?_⟩
  rw [cycles_eq_map h ranks, List.forall₂_map_right_iff, List.forall₂_same]
  exact fun l hl => isCycle_witness h hl

theorem Sound.isCycle_of_mem_cycles (h : g.Sound) {r : Ranking} (ranks : r.order.Perm g.ids)
    {c : List TaskId} (hc : c ∈ g.cycles r) : IsCycle g.Link c := by
  rw [cycles_eq_map h ranks] at hc
  obtain ⟨l, hl, rfl⟩ := List.mem_map.1 hc
  exact (isCycle_witness h hl).1

end Graph

namespace Snapshot

/-- A report names what is wrong with listed tasks: those that are not loaded, the unsound edges of
which they are dependents, and cycles among them. -/
structure ReportsOn (s : Snapshot) (ids : List TaskId) (report : Report) : Prop where
  unknown : ∀ id, .unknownTask id ∈ report.faults ↔ id ∈ ids ∧ id ∉ s.tasks.map Task.id
  unsound : ∀ e ∈ s.edges, ∀ fault, s.fault? e = some fault →
    (fault ∈ report.faults ↔ e.dependent ∈ ids)
  cyclic : (∃ c, .circularDependency c ∈ report.faults) ↔
    ∃ c, Graph.IsCycle s.graph.Link c ∧ c ⊆ ids
  cycle : ∀ c, .circularDependency c ∈ report.faults → Graph.IsCycle s.graph.Link c ∧ c ⊆ ids
  knots : (s.graph.induced ids.contains).WitnessesKnots report.cycles
  only : ∀ fault ∈ report.faults, (∃ id, fault = .unknownTask id) ∨
    (∃ c, fault = .circularDependency c) ∨ ∃ e ∈ s.edges, s.fault? e = some fault

variable {s : Snapshot} {options : AnalysisOptions} {compare : Comparison} {ids : List TaskId}

/-- A fault of an edge concerns its dependent. -/
theorem concerns_of_fault? {e : Edge} {fault : GraphFault} (h : s.fault? e = some fault) :
    Analyzer.concerns ids fault = ids.contains e.dependent := by
  rcases Graph.fault?_cases h with ⟨id, rfl, rfl⟩ | ⟨missing, rfl⟩ <;> rfl

theorem filter_concerns (s : Snapshot) (ids : List TaskId) :
    (s.edges.filterMap s.fault?).filter (Analyzer.concerns ids) =
      (s.edges.filter fun e => ids.contains e.dependent).filterMap s.fault? := by
  rw [List.filter_filterMap, List.filterMap_filter]
  apply List.filterMap_congr
  intro e _
  cases found : s.fault? e with
  | none => simp
  | some fault => simp [Option.filter, concerns_of_fault? found]

theorem cycle?_of_fault? {e : Edge} {fault : GraphFault} (h : s.fault? e = some fault) :
    fault.cycle? = none := by
  rcases Graph.fault?_cases h with ⟨id, rfl, -⟩ | ⟨missing, rfl⟩ <;> rfl

theorem fault?_ne_circularDependency {e : Edge} {c : List TaskId} :
    s.fault? e ≠ some (.circularDependency c) := fun found => nomatch cycle?_of_fault? found

theorem fault?_ne_unknownTask {e : Edge} {id : TaskId} : s.fault? e ≠ some (.unknownTask id) := by
  intro found
  rcases Graph.fault?_cases found with ⟨_, other, -⟩ | ⟨_, other⟩ <;> contradiction

/-- The cycles that listed tasks make among themselves. -/
def cyclesAmong (s : Snapshot) (compare : Comparison) (ids : List TaskId) : List (List TaskId) :=
  (s.graph.induced ids.contains).cycles (.ofGraph (s.graph.induced ids.contains) compare)

theorem faults_validate_part (s : Snapshot) (options : AnalysisOptions) (compare : Comparison)
    (ids : List TaskId) : ((Analyzer.withOrder s options compare).validate (some ids)).faults =
      ((ids.filter fun id => !s.graph.contains id).map .unknownTask ++
        (s.edges.filter fun e => ids.contains e.dependent).filterMap s.fault?) ++
      (s.cyclesAmong compare ids).map .circularDependency := by
  rw [← filter_concerns, ← problems_withOrder]
  rfl

theorem mem_validate_part {fault : GraphFault} :
    fault ∈ ((Analyzer.withOrder s options compare).validate (some ids)).faults ↔
      (∃ id, (id ∈ ids ∧ id ∉ s.tasks.map Task.id) ∧ .unknownTask id = fault) ∨
      (∃ e ∈ s.edges, e.dependent ∈ ids ∧ s.fault? e = some fault) ∨
      ∃ c ∈ s.cyclesAmong compare ids, .circularDependency c = fault := by
  have loaded {id : TaskId} : s.graph.contains id = true ↔ id ∈ s.tasks.map Task.id :=
    (s.graph.contains_iff id).trans Graph.mem_ids_buildLenient
  rw [faults_validate_part, List.mem_append, List.mem_append, or_assoc, List.mem_map,
    List.mem_filterMap, List.mem_map]
  simp only [List.mem_filter, Bool.not_eq_true', ← Bool.not_eq_true, loaded, List.contains_iff_mem,
    and_assoc]

theorem circularDependency_mem_validate_part {c : List TaskId} : .circularDependency c ∈
    ((Analyzer.withOrder s options compare).validate (some ids)).faults ↔
      c ∈ s.cyclesAmong compare ids := by
  simp [mem_validate_part, fault?_ne_circularDependency]

theorem fault_mem_validate_part {e : Edge} (he : e ∈ s.edges) {fault : GraphFault}
    (found : s.fault? e = some fault) :
    fault ∈ ((Analyzer.withOrder s options compare).validate (some ids)).faults ↔
      e.dependent ∈ ids := by
  rw [mem_validate_part]
  constructor
  · rintro (⟨id, -, rfl⟩ | ⟨e', -, listed, found'⟩ | ⟨c, -, rfl⟩)
    · exact absurd found fault?_ne_unknownTask
    · rwa [Graph.fault?_inj _ e e' fault found found']
    · exact absurd found fault?_ne_circularDependency
  · intro listed
    exact .inr (.inl ⟨e, he, listed, found⟩)

@[simp] theorem cycles_validate_part (s : Snapshot) (options : AnalysisOptions)
    (compare : Comparison)
    (ids : List TaskId) : ((Analyzer.withOrder s options compare).validate (some ids)).cycles =
      s.cyclesAmong compare ids := by
  have unknown (l : List TaskId) :
      (l.map GraphFault.unknownTask).filterMap GraphFault.cycle? = [] := by
    simp [GraphFault.cycle?]
  have unsound (l : List Edge) : (l.filterMap s.fault?).filterMap GraphFault.cycle? = [] := by
    rw [List.filterMap_eq_nil_iff]
    intro fault hf
    obtain ⟨e, -, found⟩ := List.mem_filterMap.1 hf
    exact cycle?_of_fault? found
  have circular (l : List (List TaskId)) :
      (l.map GraphFault.circularDependency).filterMap GraphFault.cycle? = l := by
    rw [List.filterMap_map]
    exact List.filterMap_some
  rw [Report.cycles, faults_validate_part, List.filterMap_append, List.filterMap_append,
    unknown, unsound, circular]
  rfl

theorem reportsOn_validate (s : Snapshot) (options : AnalysisOptions) (compare : Comparison)
    (ids : List TaskId) :
    s.ReportsOn ids ((Analyzer.withOrder s options compare).validate (some ids)) := by
  have sound : (s.graph.induced ids.contains).Sound := (Graph.sound_buildLenient _ _).induced _
  have ranks := Ranking.order_perm (s.graph.induced ids.contains) compare
  have cycle {c : List TaskId} (hc : c ∈ s.cyclesAmong compare ids) :
      Graph.IsCycle s.graph.Link c ∧ c ⊆ ids := by
    obtain ⟨cycle, listed⟩ := (sound.isCycle_of_mem_cycles ranks hc).of_induced
    exact ⟨cycle, fun v hv => List.contains_iff_mem.1 (listed v hv)⟩
  refine ⟨fun id => ?_, fun e he fault found => fault_mem_validate_part he found, ⟨?_, ?_⟩,
    fun c hc => cycle (circularDependency_mem_validate_part.1 hc), ?_, fun fault hf => ?_⟩
  · simp [mem_validate_part, fault?_ne_unknownTask]
  · rintro ⟨c, hc⟩
    exact ⟨c, cycle (circularDependency_mem_validate_part.1 hc)⟩
  · rintro ⟨c, round, listed⟩
    have inside := round.induced fun v hv => List.contains_iff_mem.2 (listed hv)
    obtain ⟨v, -, back⟩ := inside.round
    have some : s.cyclesAmong compare ids ≠ [] := fun none =>
      (Graph.cycles_eq_nil_iff_acyclic sound ranks).1 none v back
    obtain ⟨c, hc⟩ := List.exists_mem_of_ne_nil _ some
    exact ⟨c, circularDependency_mem_validate_part.2 hc⟩
  · rw [cycles_validate_part]
    exact sound.witnessesKnots ranks
  · rcases mem_validate_part.1 hf with ⟨id, -, same⟩ | ⟨e, he, -, found⟩ | ⟨c, -, same⟩
    · exact .inl ⟨id, same.symm⟩
    · exact .inr (.inr ⟨e, he, found⟩)
    · exact .inr (.inl ⟨c, same.symm⟩)

/-- A list of all tasks makes the report about everything. -/
theorem validate_all (loaded : ∀ e ∈ s.edges, e.dependent ∈ s.tasks.map Task.id)
    (all : ∀ id, id ∈ ids ↔ id ∈ s.tasks.map Task.id) :
    (Analyzer.withOrder s options compare).validate (some ids) =
      (Analyzer.withOrder s options compare).validate none := by
  have known : (ids.filter fun id => !s.graph.contains id) = [] := by
    rw [List.filter_eq_nil_iff]
    intro id hid
    have there : id ∈ s.graph.ids := Graph.mem_ids_buildLenient.2 ((all id).1 hid)
    simp [there]
  have every : (s.edges.filter fun e => ids.contains e.dependent) = s.edges :=
    List.filter_eq_self.2 fun e he => List.contains_iff_mem.2 ((all _).2 (loaded e he))
  have whole : s.graph.induced ids.contains = s.graph :=
    Graph.induced_eq_self (Graph.sound_buildLenient _ _) (Graph.notesMissing_buildLenient _ _)
      fun id hid => List.contains_iff_mem.2 ((all id).2 (Graph.mem_ids_buildLenient.1 hid))
  apply congrArg Report.mk
  refine (faults_validate_part s options compare ids).trans ?_
  rw [known, every, cyclesAmong, whole, ← problems_withOrder s options compare]
  rfl

/-- No part of a valid snapshot is reported invalid. -/
theorem isValid_validate_part
    (valid : ((Analyzer.withOrder s options compare).validate none).isValid = true)
    (known : ∀ id ∈ ids, id ∈ s.tasks.map Task.id) :
    ((Analyzer.withOrder s options compare).validate (some ids)).isValid = true := by
  obtain ⟨joins, acyclic⟩ := (s.isValid_validate options compare).1 valid
  have report := s.reportsOn_validate options compare ids
  rw [Report.isValid, List.isEmpty_iff, List.eq_nil_iff_forall_not_mem]
  intro fault hf
  rcases report.only fault hf with ⟨id, rfl⟩ | ⟨c, rfl⟩ | ⟨e, he, found⟩
  · obtain ⟨listed, unknown⟩ := (report.unknown id).1 hf
    exact unknown (known id listed)
  · obtain ⟨v, -, back⟩ := (report.cycle c hf).1.round
    exact acyclic v back
  · rw [fault?, Edge.joins_iff.1 (joins e he)] at found
    contradiction

/-- Reports about listed tasks agree with the one about everything. If each task is listed, in any
order and however often, and nothing unknown, both are the same. If everything is valid then so are
all loaded tasks that are listed. Otherwise what is reported is what concerns a listed task: that it
is not loaded, an unsound edge of which it is the dependent, and a cycle for each knot among listed
tasks. -/
theorem report_of_part (s : Snapshot) (options : AnalysisOptions) (compare : Comparison)
    (loaded : ∀ e ∈ s.edges, e.dependent ∈ s.tasks.map Task.id) (ids : List TaskId) :
    let a := Analyzer.withOrder s options compare
    ((∀ id, id ∈ ids ↔ id ∈ s.tasks.map Task.id) → a.validate (some ids) = a.validate none) ∧
    ((a.validate none).isValid = true → (∀ id ∈ ids, id ∈ s.tasks.map Task.id) →
      (a.validate (some ids)).isValid = true) ∧
    s.ReportsOn ids (a.validate (some ids)) :=
  ⟨validate_all loaded, isValid_validate_part, reportsOn_validate s options compare ids⟩

theorem dependent_mem_ofTasks (tasks : List Task) :
    ∀ e ∈ (ofTasks tasks).edges, e.dependent ∈ (ofTasks tasks).tasks.map Task.id := by
  intro e he
  obtain ⟨t, ht, named⟩ := List.mem_flatMap.1 he
  rw [Task.edges] at named
  obtain ⟨p, -, rfl⟩ := List.mem_map.1 named
  exact List.mem_map_of_mem ht

open TaskMap in
/-- Two tasks that wait for each other, one of them also for a task that is not loaded. -/
theorem report_of_part_of_tangled :
    let s := ofTasks
      [{ sample a "x" with dependsOn := [b, c] }, { sample b "y" with dependsOn := [a] }]
    let x := Analyzer.ofSnapshot s {}
    (∀ e ∈ s.edges, e.dependent ∈ s.tasks.map Task.id) ∧
      x.validate (some [b, a, b]) = x.validate none ∧
      x.validate (some [b, c]) = ⟨[.unknownTask c]⟩ := by
  intro s x
  have loaded := dependent_mem_ofTasks
    [{ sample a "x" with dependsOn := [b, c] }, { sample b "y" with dependsOn := [a] }]
  have all : ∀ id, id ∈ [b, a, b] ↔ id ∈ s.tasks.map Task.id := by
    intro id
    change id ∈ [b, a, b] ↔ id ∈ [a, b]
    simp only [List.mem_cons, List.not_mem_nil, or_false]
    tauto
  exact ⟨loaded, (report_of_part s {} _ loaded [b, a, b]).1 all, by decide +kernel⟩

end Snapshot
end Precedence

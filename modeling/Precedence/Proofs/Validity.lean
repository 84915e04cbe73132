import Precedence.Analyzer.Consultation
import Precedence.Proofs.Building
import Precedence.Proofs.Depth
/-!
Validity. A snapshot is reported valid exactly if all its edges join two of its tasks without
closing a cycle. An analyzer answers no question that depends on that for an invalid snapshot,
always for the same reason, and never gives such a reason for a valid one. What it was asked before
makes no difference.
-/
namespace Precedence

/-! What was asked before -/

namespace Consultation

/-- Has kept the right verdict, if any. -/
def Kept (c : Consultation) : Prop := ∀ verdict ∈ c.verdict, verdict = c.analyzer.ensureValid

/-- An analyzer after some questions. -/
def after (c : Consultation) (earlier : List ((α : Type) × Question α)) : Consultation :=
  earlier.foldl (fun c q => (c.ask q.2).2) c

variable {α β : Type} {c : Consultation}

theorem Kept.ensureValid (h : c.Kept) : c.ensureValid.1 = c.analyzer.ensureValid ∧
    c.ensureValid.2.Kept ∧ c.ensureValid.2.analyzer = c.analyzer := by
  rw [Consultation.ensureValid]
  split
  · next verdict kept => exact ⟨h verdict kept, h, rfl⟩
  · refine ⟨rfl, fun verdict kept => ?_, rfl⟩
    exact (Option.some.inj kept).symm

theorem Kept.checked (h : c.Kept) (parameters : Except GraphFault β)
    (answer : β → Except GraphFault α) :
    (c.checked parameters answer).1 = (do
      let x ← parameters
      c.analyzer.ensureValid
      answer x) ∧
      (c.checked parameters answer).2.Kept ∧
      (c.checked parameters answer).2.analyzer = c.analyzer := by
  cases parameters with
  | error fault => exact ⟨rfl, h, rfl⟩
  | ok x =>
    obtain ⟨verdict, kept, same⟩ := h.ensureValid
    refine ⟨?_, kept, same⟩
    rw [← verdict]
    rfl

/-- An analyzer in use answers as one that has not been asked anything. -/
theorem Kept.ask (h : c.Kept) (q : Question α) :
    (c.ask q).1 = c.analyzer.answer q ∧ (c.ask q).2.Kept ∧ (c.ask q).2.analyzer = c.analyzer := by
  cases q with
  | executionOrder ids => cases ids <;> exact h.checked _ _
  | walk direction seed maxDepth => exact h.checked _ _
  | levels | orphans | leaves | criticalPath | depths => exact h.checked (.ok ()) _
  | ready | blocked | missing | validate => exact ⟨rfl, h, rfl⟩

theorem Kept.after (h : c.Kept) (earlier : List ((α : Type) × Question α)) :
    (c.after earlier).Kept ∧ (c.after earlier).analyzer = c.analyzer := by
  induction earlier generalizing c with
  | nil => exact ⟨h, rfl⟩
  | cons q earlier ih =>
    obtain ⟨-, kept, same⟩ := h.ask q.2
    obtain ⟨kept', same'⟩ := ih kept
    exact ⟨kept', same'.trans same⟩

@[simp] theorem ask_after (a : Analyzer) (earlier : List ((α : Type) × Question α))
    (q : Question α) : ((after ⟨a, none⟩ earlier).ask q).1 = a.answer q := by
  have fresh : Kept ⟨a, none⟩ := fun _ kept => nomatch kept
  obtain ⟨kept, same⟩ := fresh.after earlier
  rw [(kept.ask q).1, same]

end Consultation

/-! Faults of a snapshot -/

/-- A fault of a snapshot, not of a question about it. -/
def GraphFault.isStructural : GraphFault → Bool
  | .brokenReference .. | .selfDependency _ | .circularDependency _ => true
  | _ => false

/-- An edge between two different ones of some tasks. -/
def Edge.Joins (e : Edge) (tasks : List Task) : Prop :=
  e.dependent ≠ e.prerequisite ∧ e.dependent ∈ tasks.map Task.id ∧
    e.prerequisite ∈ tasks.map Task.id

theorem Edge.joins_iff {e : Edge} {tasks : List Task} :
    e.Joins tasks ↔ Graph.fault? { tasks } e = none := by
  rw [Graph.fault?_eq_none_iff]
  rfl

namespace Snapshot

def graph (s : Snapshot) : Graph := (Graph.buildLenient s.tasks s.edges).1

/-- What is wrong with an edge of a snapshot. -/
def fault? (s : Snapshot) (e : Edge) : Option GraphFault := Graph.fault? { tasks := s.tasks } e

/-- What is wrong with the first unsound edge, or else the cycle that is found. -/
def firstFault? (s : Snapshot) (compare : Comparison) : Option GraphFault :=
  (s.edges.findSome? s.fault?).or
    ((s.graph.findCycle (.ofGraph s.graph compare)).map .circularDependency)

variable {s : Snapshot} {compare : Comparison}

theorem findSome?_fault?_eq_none_iff :
    s.edges.findSome? s.fault? = none ↔ ∀ e ∈ s.edges, e.Joins s.tasks := by
  rw [List.findSome?_eq_none_iff]
  exact forall₂_congr fun e _ => Edge.joins_iff.symm

theorem firstFault?_eq_none_iff : s.firstFault? compare = none ↔
    (∀ e ∈ s.edges, e.Joins s.tasks) ∧ s.graph.Acyclic := by
  have sound : s.graph.Sound := Graph.sound_buildLenient _ _
  rw [firstFault?, Option.or_eq_none_iff, findSome?_fault?_eq_none_iff, Option.map_eq_none_iff,
    Graph.findCycle_eq_none_iff sound (Ranking.order_perm _ _)]

end Snapshot

/-! Answers about valid snapshots -/

/-- A result that blames nothing on the snapshot. -/
def Acquits {α : Type} (r : Except GraphFault α) : Prop :=
  ∀ fault, r = .error fault → fault.isStructural = false

theorem acquits_ok {α : Type} (x : α) : Acquits (.ok x) := fun _ h => nomatch h

theorem acquits_error {α : Type} {fault : GraphFault} (h : fault.isStructural = false) :
    Acquits (.error fault : Except GraphFault α) := by
  intro _ same
  rwa [← Except.error.inj same]

theorem Acquits.bind {α β : Type} {r : Except GraphFault α} {f : α → Except GraphFault β}
    (h : Acquits r) (h' : ∀ x, r = .ok x → Acquits (f x)) : Acquits (r >>= f) := by
  cases r with
  | error fault => exact acquits_error (h fault rfl)
  | ok x => exact h' x rfl

namespace Graph

variable {g : Graph} {r : Ranking}

theorem acquits_require (g : Graph) (id : TaskId) : Acquits (g.require id) := by
  unfold require
  split
  · exact acquits_ok ()
  · exact acquits_error rfl

theorem acquits_forM_require (g : Graph) (ids : List TaskId) : Acquits (ids.forM g.require) := by
  induction ids with
  | nil => exact acquits_ok ()
  | cons id ids ih => exact (g.acquits_require id).bind fun _ _ => ih

theorem acquits_subgraph (g : Graph) (ids : List TaskId) : Acquits (g.subgraph ids) :=
  (g.acquits_forM_require ids).bind fun _ _ => acquits_ok _

theorem acquits_requireEnd (g : Graph) (id : Option TaskId) : Acquits (id.forM g.require) := by
  cases id with
  | none => exact acquits_ok ()
  | some id => exact g.acquits_require id

theorem forM_require_eq_ok {ids : List TaskId} (known : ∀ id ∈ ids, id ∈ g.ids) :
    ids.forM g.require = .ok () := by
  induction ids with
  | nil => rfl
  | cons id ids ih =>
    have loaded :
        g.require id = .ok () := if_pos ((g.contains_iff id).2 (known id List.mem_cons_self))
    calc g.require id >>= (fun _ => ids.forM g.require)
      _ = ids.forM g.require := by rw [loaded]; rfl
      _ = .ok () := ih fun p hp => known p (List.mem_cons_of_mem _ hp)

/-- A part of a graph has no cycle that the graph does not have. -/
theorem Acyclic.induced (h : g.Acyclic) (keep : TaskId → Bool) : (g.induced keep).Acyclic := by
  intro v round
  have inside : (g.induced keep).Link ≤ g.Link := fun p d link => (List.mem_filter.1 link).1
  exact h v (Relation.TransGen.mono inside v v round)

variable (sound : g.Sound) (acyclic : g.Acyclic) (ranks : r.order.Perm g.ids)

theorem acquits_walk (g : Graph) (r : Ranking) (direction : Direction) (seed : TaskId)
    (maxDepth : Nat) : Acquits (g.walk r direction seed maxDepth) :=
  (g.acquits_require seed).bind fun _ _ => acquits_ok _

include sound acyclic ranks

theorem acquits_executionOrder : Acquits (g.executionOrder r) := by
  obtain ⟨order, scheduled, -⟩ := exists_schedule sound ranks acyclic
  rw [scheduled]
  exact acquits_ok order

theorem acquits_depths : Acquits (g.depths r) :=
  (acquits_executionOrder sound acyclic ranks).bind fun _ _ => acquits_ok _

theorem acquits_levels : Acquits (g.levels r) :=
  (acquits_executionOrder sound acyclic ranks).bind fun _ _ => acquits_ok _

theorem acquits_criticalPath (start finish : Option TaskId) :
    Acquits (g.criticalPath r start finish) := by
  refine (g.acquits_requireEnd start).bind fun _ _ => (g.acquits_requireEnd finish).bind fun _ _ =>
    (acquits_executionOrder sound acyclic ranks).bind fun order _ => ?_
  cases start with
  | none =>
    dsimp only
    split <;> exact acquits_ok _
  | some s =>
    cases finish with
    | none =>
      dsimp only
      split <;> exact acquits_ok _
    | some f =>
      dsimp only
      split
      · exact acquits_error rfl
      · split <;> exact acquits_ok _

end Graph

/-! Answers that depend on validity -/

namespace Question

/-- Depends on the snapshot being valid. -/
inductive IsGated : {α : Type} → Question (Except GraphFault α) → Prop where
  | executionOrder (ids : Option (List TaskId)) : IsGated (.executionOrder ids)
  | levels : IsGated .levels
  | walk (direction : Direction) (seed : TaskId) (maxDepth : Option Int) :
    IsGated (.walk direction seed maxDepth)
  | orphans (policy : OrphanPolicy) : IsGated (.orphans policy)
  | leaves (status : Option Status) : IsGated (.leaves status)
  | criticalPath (start finish : Option TaskId) : IsGated (.criticalPath start finish)
  | depths : IsGated .depths

/-- Names only known tasks as a part to order, and no depth that is not allowed. -/
def IsAccepted (tasks : List Task) (options : AnalysisOptions) : {α : Type} → Question α → Prop
  | _, .executionOrder (some ids) => ∀ id ∈ ids, id ∈ tasks.map Task.id
  | _, .walk _ _ (some depth) => 0 ≤ depth ∧ depth ≤ options.maxDepthLimit
  | _, _ => True

end Question

namespace Analyzer

variable {α : Type} {a : Analyzer}

theorem resolveDepth_eq_ok {depth : Int} (accepted : 0 ≤ depth ∧ depth ≤ a.options.maxDepthLimit) :
    a.resolveDepth (some depth) = .ok depth.toNat := by
  have notNegative : ¬ depth < 0 := by omega
  have withinLimit : ¬ a.options.maxDepthLimit < depth.toNat := by omega
  rw [resolveDepth, if_neg notNegative, if_neg withinLimit]

theorem acquits_resolveDepth (a : Analyzer) (maxDepth : Option Int) :
    Acquits (a.resolveDepth maxDepth) := by
  cases maxDepth with
  | none => exact acquits_ok _
  | some depth =>
    unfold resolveDepth
    dsimp only
    split
    · exact acquits_error rfl
    split
    · exact acquits_error rfl
    · exact acquits_ok _

/-- An invalid snapshot is the reason to refuse each question that depends on its validity. -/
theorem answer_of_invalid {tasks : List Task} {fault : GraphFault}
    (loaded : ∀ id, id ∈ a.graph.ids ↔ id ∈ tasks.map Task.id)
    (invalid : a.ensureValid = .error fault)
    {q : Question (Except GraphFault α)} (gated : q.IsGated)
    (accepted : q.IsAccepted tasks a.options) :
    a.answer q = .error fault := by
  cases gated with
  | executionOrder ids =>
    cases ids with
    | none =>
      rw [answer, executionOrder, invalid]
      rfl
    | some ids =>
      have known : ids.forM a.graph.require = .ok () :=
        Graph.forM_require_eq_ok fun id hid => (loaded id).2 (accepted id hid)
      rw [answer, executionOrder, invalid]
      dsimp only
      rw [Graph.subgraph, known]
      rfl
  | walk direction seed maxDepth =>
    cases maxDepth with
    | none =>
      rw [answer, walk, invalid]
      rfl
    | some depth =>
      rw [answer, walk, resolveDepth_eq_ok accepted, invalid]
      rfl
  | levels => rw [answer, levels, invalid]; rfl
  | orphans policy => rw [answer, orphans, invalid]; rfl
  | leaves status => rw [answer, leaves, invalid]; rfl
  | criticalPath start finish => rw [answer, criticalPath, invalid]; rfl
  | depths => rw [answer, depths, invalid]; rfl

/-- Nothing is blamed on a valid snapshot. -/
theorem acquits_answer (sound : a.graph.Sound) (valid : a.ensureValid = .ok ())
    (acyclic : a.graph.Acyclic) {q : Question (Except GraphFault α)} (gated : q.IsGated) :
    Acquits (a.answer q) := by
  have ranks : a.ranking.order.Perm a.graph.ids := Ranking.order_perm _ _
  have passed : Acquits a.ensureValid := valid ▸ acquits_ok ()
  cases gated with
  | executionOrder ids =>
    cases ids with
    | none => exact passed.bind fun _ _ => Graph.acquits_executionOrder sound acyclic ranks
    | some ids =>
      have part : Acquits (a.graph.subgraph ids >>= fun g =>
          a.ensureValid >>= fun _ => g.executionOrder (.ofGraph g a.compare)) := by
        refine (a.graph.acquits_subgraph ids).bind fun g made => passed.bind fun _ _ => ?_
        rw [Graph.eq_induced_of_subgraph made]
        exact Graph.acquits_executionOrder (sound.induced _) (acyclic.induced _)
          (Ranking.order_perm _ _)
      exact part
  | levels => exact passed.bind fun _ _ => Graph.acquits_levels sound acyclic ranks
  | walk direction seed maxDepth =>
    exact (a.acquits_resolveDepth maxDepth).bind fun _ _ => passed.bind fun _ _ =>
      Graph.acquits_walk _ _ _ _ _
  | orphans | leaves => exact passed.bind fun _ _ => acquits_ok _
  | criticalPath start finish =>
    exact passed.bind fun _ _ => Graph.acquits_criticalPath sound acyclic ranks start finish
  | depths => exact passed.bind fun _ _ => Graph.acquits_depths sound acyclic ranks

end Analyzer

namespace Snapshot

variable (s : Snapshot) (options : AnalysisOptions) (compare : Comparison)

@[simp] theorem problems_withOrder :
    (Analyzer.withOrder s options compare).problems = s.edges.filterMap s.fault? :=
  Graph.problems_buildLenient s.tasks s.edges

theorem ensureValid_withOrder : (Analyzer.withOrder s options compare).ensureValid =
    match s.firstFault? compare with
    | some fault => .error fault
    | none => .ok () := by
  have cycle : (Analyzer.withOrder s options compare).graph.checkAcyclic
      (Analyzer.withOrder s options compare).ranking =
        s.graph.checkAcyclic (.ofGraph s.graph compare) := rfl
  rw [Analyzer.ensureValid, problems_withOrder, cycle, firstFault?, ← List.head?_filterMap,
    Graph.checkAcyclic]
  cases s.edges.filterMap s.fault? with
  | cons problem problems => rfl
  | nil => cases s.graph.findCycle (.ofGraph s.graph compare) <;> rfl

theorem isValid_validate :
    ((Analyzer.withOrder s options compare).validate none).isValid = true ↔
      (∀ e ∈ s.edges, e.Joins s.tasks) ∧ s.graph.Acyclic := by
  have sound : s.graph.Sound := Graph.sound_buildLenient _ _
  have ranks := Ranking.order_perm s.graph compare
  have cycles : (Analyzer.withOrder s options compare).graph.cycles
      (Analyzer.withOrder s options compare).ranking =
        s.graph.cycles (.ofGraph s.graph compare) := rfl
  rw [Analyzer.validate, Graph.validate, Report.isValid, List.isEmpty_iff, problems_withOrder,
    cycles, List.append_eq_nil_iff, List.map_eq_nil_iff,
    Graph.cycles_eq_nil_iff_acyclic sound ranks, ← findSome?_fault?_eq_none_iff]
  rw [← List.head?_filterMap, List.head?_eq_none_iff]

/-- Validity gates the analyses. A snapshot is reported valid exactly if its edges join two
different ones of its tasks each and close no cycle. If it is not, the first unsound edge, or else
the cycle that is found, is the one reason to refuse all questions that depend on validity; if it
is, no such question is refused for an unsound edge or a cycle, whatever else is wrong with it. It
does not matter what the analyzer was asked before. -/
theorem validity_gates (earlier : List ((α : Type) × Question α)) :
    let c := Consultation.after ⟨Analyzer.withOrder s options compare, none⟩ earlier
    ((c.ask (.validate none)).1.isValid = true ↔
      (∀ e ∈ s.edges, e.Joins s.tasks) ∧ s.graph.Acyclic) ∧
    ((c.ask (.validate none)).1.isValid = false → ∃ fault, s.firstFault? compare = some fault ∧
      ∀ {α : Type} (q : Question (Except GraphFault α)), q.IsGated → q.IsAccepted s.tasks options →
        (c.ask q).1 = .error fault) ∧
    ((c.ask (.validate none)).1.isValid = true →
      ∀ {α : Type} (q : Question (Except GraphFault α)), q.IsGated →
        ∀ fault, (c.ask q).1 = .error fault → fault.isStructural = false) := by
  intro c
  have asked {α : Type} (q : Question α) :
      (c.ask q).1 = (Analyzer.withOrder s options compare).answer q :=
    Consultation.ask_after _ earlier q
  have report := s.isValid_validate options compare
  have gate := s.ensureValid_withOrder options compare
  simp only [asked, Analyzer.answer]
  refine ⟨report, fun invalid => ?_, fun valid => ?_⟩
  · cases found : s.firstFault? compare with
    | none =>
      have valid := report.2 (firstFault?_eq_none_iff.1 found)
      rw [invalid] at valid
      contradiction
    | some fault =>
      rw [found] at gate
      refine ⟨fault, rfl, fun q gated accepted => ?_⟩
      exact Analyzer.answer_of_invalid (fun _ => Graph.mem_ids_buildLenient) gate gated accepted
  · intro α q gated
    have faultless := report.1 valid
    rw [firstFault?_eq_none_iff.2 faultless] at gate
    exact Analyzer.acquits_answer (Graph.sound_buildLenient _ _) gate faultless.2 gated

end Snapshot
end Precedence

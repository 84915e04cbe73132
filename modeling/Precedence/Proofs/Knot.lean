import Mathlib.Data.Set.Card
import Precedence.Proofs.Ranking
import Precedence.Proofs.Validity
/-!
Knots: the components of several tasks that all depend on each other. The tasks that lead their
knots, as the best-ranked ones, tell the knots apart and put them in order, and the search from each
of them finds one cycle that stays in its knot.
-/
namespace Precedence

/-- A construction problem is no cycle, nor is a wrong parameter. -/
def GraphFault.isCircular : GraphFault → Bool
  | .circularDependency _ => true
  | _ => false

namespace Graph

open Relation

variable {g : Graph} {r : Ranking}

/-- Two tasks that depend on each other, or are the same. -/
def Tied (g : Graph) (v w : TaskId) : Prop := ReflTransGen g.Link v w ∧ ReflTransGen g.Link w v

/-- A component of several tasks. -/
def IsKnot (g : Graph) (knot : Set TaskId) : Prop :=
  knot.Nontrivial ∧ ∃ v, knot = {w | g.Tied v w}

theorem IsCycle.subset {link : TaskId → TaskId → Prop} {c knot : List TaskId} (h : IsCycle link c)
    (inside : ∀ v w, link v w → w ∈ knot) : c ⊆ knot := by
  intro v hv
  obtain ⟨before, after, rfl⟩ := List.append_of_mem hv
  -- The task before it on the cycle is linked to it; before the first one is the last.
  cases before using List.reverseRecOn with
  | nil =>
    exact inside _ v (h.closed _ (List.getLast_mem_getLast? (List.cons_ne_nil v after)) v rfl)
  | append_singleton before u =>
    have chain := h.chain
    rw [List.append_assoc, List.isChain_append] at chain
    exact inside u v (List.isChain_cons_cons.1 chain.2.1).1

/-! Components -/

theorem self_mem_component (h : g.Sound) (v : TaskId) : v ∈ g.component r v :=
  h.mem_component.2 ⟨.refl, .refl⟩

theorem mem_component_symm (h : g.Sound) {v w : TaskId} :
    v ∈ g.component r w ↔ w ∈ g.component r v := by
  simp [h, and_comm]

theorem mem_component_trans (h : g.Sound) {u v w : TaskId} (hv : v ∈ g.component r u)
    (hw : w ∈ g.component r v) : w ∈ g.component r u := by
  rw [h.mem_component] at *
  exact ⟨hv.1.trans hw.1, hw.2.trans hv.2⟩

theorem two_le_component_of_mem (h : g.Sound) {v w : TaskId} (hw : w ∈ g.component r v)
    (two : 2 ≤ (g.component r v).length) : 2 ≤ (g.component r w).length := by
  rw [h.mem_component] at hw
  rw [h.two_le_component] at *
  exact .trans_right hw.2 (two.trans_left hw.1)

/-! Leaders -/

/-- The best-ranked task of a component of several tasks. -/
def Leads (g : Graph) (r : Ranking) (v : TaskId) : Prop :=
  2 ≤ (g.component r v).length ∧ ∀ w ∈ g.component r v, r.rank v ≤ r.rank w

instance (g : Graph) (r : Ranking) (v : TaskId) : Decidable (g.Leads r v) :=
  inferInstanceAs (Decidable (_ ∧ _))

/-- In a knot with some task of a list. -/
def KnottedTo (g : Graph) (r : Ranking) (before : List TaskId) (v : TaskId) : Prop :=
  ∃ u ∈ before, 2 ≤ (g.component r u).length ∧ v ∈ g.component r u

theorem knottedTo_concat {before : List TaskId} {v w : TaskId} : g.KnottedTo r (before ++ [v]) w ↔
    g.KnottedTo r before w ∨ 2 ≤ (g.component r v).length ∧ w ∈ g.component r v := by
  simp only [KnottedTo, List.mem_append, List.mem_singleton, or_and_right, exists_or,
    exists_eq_left]

theorem KnottedTo.trans (h : g.Sound) {before : List TaskId} {v w : TaskId}
    (knotted : g.KnottedTo r before v) (hw : w ∈ g.component r v) : g.KnottedTo r before w := by
  obtain ⟨u, hu, two, hv⟩ := knotted
  exact ⟨u, hu, two, mem_component_trans h hv hw⟩

/-- The leader of a knot is the first of its tasks in the order of the ranks. -/
theorem leads_iff (h : g.Sound) (ranks : r.order.Perm g.ids) {before after : List TaskId}
    {v : TaskId} (e : r.order = before ++ v :: after) :
    g.Leads r v ↔ 2 ≤ (g.component r v).length ∧ ¬ g.KnottedTo r before v := by
  have sorted := Ranking.pairwise_order (ranks.nodup_iff.2 h.distinct)
  rw [e, List.pairwise_append, List.pairwise_cons] at sorted
  obtain ⟨-, ⟨later, -⟩, earlier⟩ := sorted
  refine and_congr_right fun two => ⟨fun least => ?_, fun first w hw => ?_⟩
  · rintro ⟨u, hu, -, hv⟩
    have := least u ((mem_component_symm h).1 hv)
    have := earlier u hu v List.mem_cons_self
    omega
  · have ranked : w ∈ r.order := by
      rcases (h.mem_component.1 hw).1.cases_tail with rfl | ⟨_, -, link⟩
      · simp [e]
      · exact ranks.mem_iff.2 (h.mem_of_link link).2
    rw [e, List.mem_append, List.mem_cons] at ranked
    rcases ranked with old | rfl | new
    · exact absurd ⟨w, old, two_le_component_of_mem h hw two, (mem_component_symm h).1 hw⟩ first
    · exact Nat.le_refl _
    · exact Nat.le_of_lt (later w new)

/-- A knot is listed at its leader, and all its tasks are met then. -/
theorem knotsAmong_cons (h : g.Sound) (ranks : r.order.Perm g.ids) {before vs seen : List TaskId}
    {v : TaskId} (e : r.order = before ++ v :: vs) (met : ∀ w, w ∈ seen ↔ g.KnottedTo r before w) :
    ∃ seen', (∀ w, w ∈ seen' ↔ g.KnottedTo r (before ++ [v]) w) ∧ g.knotsAmong r seen (v :: vs) =
      (if g.Leads r v then [g.component r v] else []) ++ g.knotsAmong r seen' vs := by
  have leads := leads_iff h ranks e
  simp only [knottedTo_concat, ← met]
  rw [← met] at leads
  rw [knotsAmong]
  -- The task was met with its knot before, or it leads its knot, or it is alone in its component.
  split
  · next old =>
    refine ⟨seen, fun w => (or_iff_left_of_imp fun hw => ?_).symm, by simp [leads, old]⟩
    exact (met w).2 (((met v).1 old).trans h hw.2)
  · next new =>
    split
    · next a b others several =>
      exact ⟨seen ++ a :: b :: others, by simp [several], by simp [leads, new, several]⟩
    · next single =>
      have few : ¬ 2 ≤ (g.component r v).length := by
        cases e : g.component r v with
        | nil => simp
        | cons a others =>
          cases others with
          | nil => simp
          | cons b others => exact absurd e (single a b others)
      exact ⟨seen, by simp [few], by simp [leads, few]⟩

theorem knotsAmong_eq (h : g.Sound) (ranks : r.order.Perm g.ids) {before vs seen : List TaskId}
    (e : r.order = before ++ vs) (met : ∀ v, v ∈ seen ↔ g.KnottedTo r before v) :
    g.knotsAmong r seen vs = (vs.filter (g.Leads r ·)).map (g.component r) := by
  induction vs generalizing before seen with
  | nil => rfl
  | cons v vs ih =>
    obtain ⟨seen', met', step⟩ := knotsAmong_cons h ranks e met
    rw [step, ih (by simpa using e) met', List.filter_cons]
    split <;> simp_all

/-- There is a knot for each leader, in the order of their ranks. -/
theorem knots_eq (h : g.Sound) (ranks : r.order.Perm g.ids) :
    g.knots r = (r.order.filter (g.Leads r ·)).map (g.component r) := by
  apply knotsAmong_eq h ranks (List.nil_append r.order).symm
  simp [KnottedTo]

theorem exists_leader (h : g.Sound) {v : TaskId} (two : 2 ≤ (g.component r v).length) :
    ∃ u ∈ g.component r v, g.Leads r u := by
  have sorted : (g.component r v).Pairwise fun a b => r.rank a ≤ r.rank b := r.pairwise_sort _
  cases e : g.component r v with
  | nil => simp [e] at two
  | cons u others =>
    have hu : u ∈ g.component r v := by simp [e]
    refine ⟨u, List.mem_cons_self, two_le_component_of_mem h hu two, fun w hw => ?_⟩
    have within := mem_component_trans h hu hw
    rw [e] at sorted within
    rcases List.mem_cons.1 within with rfl | hw
    · exact Nat.le_refl _
    · exact (List.pairwise_cons.1 sorted).1 w hw

theorem mem_knots_iff (h : g.Sound) (ranks : r.order.Perm g.ids) {knot : List TaskId} :
    knot ∈ g.knots r ↔ ∃ v, g.Leads r v ∧ g.component r v = knot := by
  simp only [knots_eq h ranks, List.mem_map, List.mem_filter, decide_eq_true_eq, and_assoc]
  refine exists_congr fun v => and_iff_right_of_imp fun ⟨leads, _⟩ => ?_
  obtain ⟨w, link, -⟩ := TransGen.head'_iff.1 ((h.two_le_component v).1 leads.1)
  exact ranks.mem_iff.2 (h.mem_of_link link).1

/-- The knots that are listed are all that there are. -/
theorem isKnot_iff (h : g.Sound) (ranks : r.order.Perm g.ids) {knot : Set TaskId} :
    g.IsKnot knot ↔ ∃ l ∈ g.knots r, knot = {v | v ∈ l} := by
  have members (v : TaskId) : {w | w ∈ g.component r v} = {w | g.Tied v w} :=
    Set.ext fun w => h.mem_component
  constructor
  · rintro ⟨⟨x, hx, y, hy, ne⟩, v, rfl⟩
    have pair : [x, y] ⊆ g.component r v := by
      simp only [List.cons_subset, List.nil_subset, and_true, h.mem_component]
      exact ⟨hx, hy⟩
    have two := (List.subperm_of_subset (by simpa using ne) pair).length_le
    obtain ⟨u, hu, leads⟩ := exists_leader h two
    refine ⟨_, (mem_knots_iff h ranks).2 ⟨u, leads, rfl⟩, ?_⟩
    rw [← members]
    ext w
    exact ⟨mem_component_trans h ((mem_component_symm h).1 hu), mem_component_trans h hu⟩
  · rintro ⟨l, hl, rfl⟩
    obtain ⟨v, leads, rfl⟩ := (mem_knots_iff h ranks).1 hl
    refine ⟨?_, v, members v⟩
    have second : 1 < (g.component r v).length := leads.1
    refine ⟨_, List.getElem_mem (Nat.zero_lt_of_lt second), _, List.getElem_mem second, ?_⟩
    rw [Ne, (g.nodup_component v).getElem_inj_iff]
    exact Nat.zero_ne_one

/-- Knots share no task, and the leader of each goes before all tasks of those after it. -/
theorem pairwise_knots (h : g.Sound) (ranks : r.order.Perm g.ids) :
    (g.knots r).Pairwise fun knot later => knot.Disjoint later ∧
      ∃ v ∈ knot, (∀ w ∈ knot, r.rank v ≤ r.rank w) ∧ ∀ w ∈ later, r.rank v < r.rank w := by
  rw [knots_eq h ranks, List.pairwise_map]
  have sorted := (Ranking.pairwise_order (ranks.nodup_iff.2 h.distinct)).filter (g.Leads r ·)
  apply sorted.imp_of_mem
  intro u v hu hv less
  have first : g.Leads r u := by simpa using (List.mem_filter.1 hu).2
  have second : g.Leads r v := by simpa using (List.mem_filter.1 hv).2
  refine ⟨fun w hw hw' => ?_, u, self_mem_component h u, first.2, fun w hw => ?_⟩
  · have := second.2 u (mem_component_trans h hw' ((mem_component_symm h).1 hw))
    omega
  · have := second.2 w hw
    omega

theorem ncard_knots (h : g.Sound) (ranks : r.order.Perm g.ids) :
    {knot | g.IsKnot knot}.ncard = (g.knots r).length := by
  have apart := (pairwise_knots h ranks).imp fun both => both.1
  have inhabited {knot : List TaskId} (hk : knot ∈ g.knots r) : ∃ v, v ∈ knot := by
    obtain ⟨v, leads, rfl⟩ := (mem_knots_iff h ranks).1 hk
    exact ⟨v, self_mem_component h v⟩
  have distinct : (g.knots r).Nodup := by
    apply apart.imp_of_mem
    rintro knot _ hk - disjoint rfl
    obtain ⟨v, hv⟩ := inhabited hk
    exact disjoint hv hv
  have image :
      {knot | g.IsKnot knot} = (fun l : List TaskId => {v | v ∈ l}) '' {l | l ∈ g.knots r} := by
    ext knot
    simp [isKnot_iff h ranks, eq_comm]
  have injective : Set.InjOn (fun l : List TaskId => {v | v ∈ l}) {l | l ∈ g.knots r} := by
    intro l hl l' hl' same
    obtain ⟨v, hv⟩ := inhabited hl
    have hv' : v ∈ l' := (Set.ext_iff.1 same v).1 hv
    by_contra ne
    have : Std.Symm (List.Disjoint (α := TaskId)) := ⟨fun _ _ disjoint => disjoint.symm⟩
    exact apart.forall hl hl' ne hv hv'
  rw [image, injective.ncard_image, ← List.coe_toFinset, Set.ncard_coe_finset,
    List.toFinset_card_of_nodup distinct]

/-! Witnesses -/

/-- The cycle that is found in a knot from its first task. -/
def witness (g : Graph) (r : Ranking) (knot : List TaskId) : List TaskId :=
  (g.search r knot.contains (knot.take 1)).getD []

theorem filterMap_eq_map_getD {α β : Type} {f : α → Option β} (b : β) {l : List α}
    (h : ∀ a ∈ l, (f a).isSome) : l.filterMap f = l.map fun a => (f a).getD b := by
  induction l with
  | nil => rfl
  | cons a l ih =>
    obtain ⟨first, others⟩ := List.forall_mem_cons.1 h
    obtain ⟨c, e⟩ := Option.isSome_iff_exists.1 first
    rw [List.filterMap_cons_some e, List.map_cons, e, ih others, Option.getD_some]

theorem cycles_eq_map (h : g.Sound) (ranks : r.order.Perm g.ids) :
    g.cycles r = (g.knots r).map (g.witness r) := by
  rw [cycles_eq_knotCycles h ranks, knotCycles]
  apply filterMap_eq_map_getD
  intro knot hk
  obtain ⟨c, found, -⟩ := exists_cycle_of_mem_knots h hk
  rw [found]
  rfl

theorem isCycle_witness (h : g.Sound) {knot : List TaskId} (hk : knot ∈ g.knots r) :
    IsCycle g.Link (g.witness r knot) ∧ g.witness r knot ⊆ knot := by
  obtain ⟨c, found, cycle⟩ := exists_cycle_of_mem_knots h hk
  rw [witness, found, Option.getD_some]
  refine ⟨cycle.mono fun _ _ link => link.1, cycle.subset fun v w link => ?_⟩
  simpa using link.2

theorem disjoint_cycles (h : g.Sound) (ranks : r.order.Perm g.ids) :
    (g.cycles r).Pairwise List.Disjoint := by
  rw [cycles_eq_map h ranks, List.pairwise_map]
  apply (pairwise_knots h ranks).imp_of_mem
  intro l l' hl hl' both v hv hv'
  exact both.1 ((isCycle_witness h hl).2 hv) ((isCycle_witness h hl').2 hv')

theorem length_cycles (h : g.Sound) (ranks : r.order.Perm g.ids) :
    (g.cycles r).length = {knot | g.IsKnot knot}.ncard := by
  rw [cycles_eq_map h ranks, List.length_map, ncard_knots h ranks]

theorem countP_circular_validate (problems : List GraphFault) :
    (g.validate r problems).faults.countP GraphFault.isCircular =
      problems.countP GraphFault.isCircular + (g.cycles r).length := by
  have all : (g.cycles r).countP (GraphFault.isCircular ∘ .circularDependency) =
      (g.cycles r).length := List.countP_eq_length.2 fun _ _ => rfl
  rw [validate, List.countP_append, List.countP_map, all]

end Graph

theorem Snapshot.countP_circular_problems (s : Snapshot) (options : AnalysisOptions)
    (compare : Comparison) :
    (Analyzer.withOrder s options compare).problems.countP GraphFault.isCircular = 0 := by
  rw [problems_withOrder, List.countP_eq_zero]
  intro fault hf
  obtain ⟨e, -, found⟩ := List.mem_filterMap.1 hf
  rcases Graph.fault?_cases found with ⟨_, rfl, -⟩ | ⟨_, rfl⟩ <;> exact Bool.false_ne_true

/-- There is one witness for each knot and no other cycle. Each is a cycle inside its knot, so those
of different knots share no task, and they stand in the order of the best ranks in their knots.
Therefore a report has as many cycles as the graph has knots. -/
theorem Graph.cycles_witness_knots {g : Graph} (made : g.Made) (compare : Comparison) :
    let r := Ranking.ofGraph g compare
    (∃ (knots : List (List TaskId)) (witness : List TaskId → List TaskId),
      (∀ knot, g.IsKnot knot ↔ ∃ l ∈ knots, knot = {v | v ∈ l}) ∧
      knots.Pairwise List.Disjoint ∧
      g.cycles r = knots.map witness ∧
      (∀ l ∈ knots, IsCycle g.Link (witness l) ∧ witness l ⊆ l) ∧
      knots.Pairwise fun l later =>
        ∃ v ∈ l, (∀ w ∈ l, r.rank v ≤ r.rank w) ∧ ∀ w ∈ later, r.rank v < r.rank w) ∧
    (g.cycles r).Pairwise List.Disjoint ∧
    (g.cycles r).length = {knot | g.IsKnot knot}.ncard ∧
    (∀ problems, (g.validate r problems).faults.countP GraphFault.isCircular =
      problems.countP GraphFault.isCircular + {knot | g.IsKnot knot}.ncard) ∧
    ∀ s options, s.graph = g → ((Analyzer.withOrder s options compare).validate
      none).faults.countP GraphFault.isCircular = {knot | g.IsKnot knot}.ncard := by
  intro r
  have sound := made.sound
  have ranks : r.order.Perm g.ids := Ranking.order_perm g compare
  have sorted := pairwise_knots sound ranks
  have count := length_cycles sound ranks
  refine ⟨⟨g.knots r, g.witness r, fun knot => isKnot_iff sound ranks,
    sorted.imp fun both => both.1,
    cycles_eq_map sound ranks, fun l hl => isCycle_witness sound hl, sorted.imp fun both => both.2⟩,
    disjoint_cycles sound ranks, count, fun problems => ?_, fun s options same => ?_⟩
  · rw [countP_circular_validate, count]
  · subst same
    calc ((Analyzer.withOrder s options compare).validate none).faults.countP GraphFault.isCircular
      _ = (Analyzer.withOrder s options compare).problems.countP GraphFault.isCircular +
          (s.graph.cycles r).length := countP_circular_validate _
      _ = {knot | s.graph.IsKnot knot}.ncard := by
        rw [s.countP_circular_problems, Nat.zero_add, count]

open TaskMap in
theorem Graph.isKnot_pair : pair.IsKnot {a, b} := by
  have made : pair.Made := .lenient _ _
  have ids : pair.ids = [a, b] := by decide +kernel
  have there : pair.Link a b := by unfold Link; decide +kernel
  have back : pair.Link b a := by unfold Link; decide +kernel
  refine ⟨⟨a, by simp, b, by simp, by decide⟩, a, ?_⟩
  ext v
  constructor
  · rintro (rfl | rfl)
    · exact ⟨.refl, .refl⟩
    · exact ⟨.single there, .single back⟩
  · rintro ⟨path, -⟩
    rcases path.cases_tail with rfl | ⟨_, -, link⟩
    · simp
    · simpa [ids] using (made.sound.mem_of_link link).2

open TaskMap in
theorem Graph.cycles_witness_knots_of_pair :
    pair.Made ∧ pair.IsKnot {a, b} ∧
      ∃ c ∈ pair.cycles (.ofGraph pair TieBreak.id.compare), IsCycle pair.Link c ∧ c ⊆ [a, b] := by
  have made : pair.Made := .lenient _ _
  obtain ⟨⟨knots, witness, listed, -, all, inside, -⟩, -⟩ :=
    cycles_witness_knots made TieBreak.id.compare
  obtain ⟨l, hl, same⟩ := (listed _).1 isKnot_pair
  obtain ⟨cycle, within⟩ := inside l hl
  refine ⟨made, isKnot_pair, witness l, ?_, cycle, fun v hv => ?_⟩
  · rw [all]
    exact List.mem_map_of_mem hl
  · have : v ∈ ({a, b} : Set TaskId) := same ▸ within hv
    simpa using this

end Precedence

import Precedence.Proofs.Closure
import Precedence.Proofs.Countdown
import Precedence.Proofs.Search
import Precedence.Proofs.Steps
/-!
The three ways of finding cycles agree: the search over all tasks, the schedule that gets stuck, and
the search in each knot.
-/
namespace Precedence.Graph

open Relation

variable {g : Graph} {r : Ranking}

/-! The search -/

@[simp] theorem Sound.mem_successors (h : g.Sound) {member : TaskId → Bool} {v w : TaskId} :
    w ∈ g.successors r member v ↔ g.Link v w ∧ member w := by
  simp [successors, h]

/-- Around a cycle every task leads to every other one, and back to itself. -/
theorem IsCycle.reaches {link : TaskId → TaskId → Prop} {c : List TaskId} (h : IsCycle link c)
    {v w : TaskId} (hv : v ∈ c) (hw : w ∈ c) : TransGen link v w := by
  have nonempty := List.ne_nil_of_mem hv
  have first := List.head?_eq_some_head nonempty
  have last := List.getLast?_eq_some_getLast nonempty
  exact .trans_right (reaches_of_getLast h.chain last hv)
    (.head' (h.closed _ last _ first) (reaches_of_head h.chain first hw))

theorem IsCycle.round {link : TaskId → TaskId → Prop} {c : List TaskId} (h : IsCycle link c) :
    ∃ v ∈ c, TransGen link v v := by
  obtain ⟨v, hv⟩ := List.exists_mem_of_length_pos (Nat.lt_of_lt_of_le Nat.two_pos h.two_le)
  exact ⟨v, hv, h.reaches hv hv⟩

theorem IsCycle.mono {link link' : TaskId → TaskId → Prop} (h : ∀ a b, link a b → link' a b)
    {c : List TaskId} (cycle : IsCycle link c) : IsCycle link' c :=
  ⟨cycle.two_le, cycle.distinct, cycle.chain.imp h, fun a ha b hb => h a b (cycle.closed a ha b hb)⟩

/-- A search finds a cycle, or there is none through what is reached from its roots. -/
theorem search_cases (h : g.Sound) (r : Ranking) (member : TaskId → Bool) (roots : List TaskId) :
    (∃ c, g.search r member roots = some c ∧
      IsCycle (fun v w => g.Link v w ∧ member w) c) ∨
    g.search r member roots = none ∧
      ∀ v ∈ roots, ¬ TransGen (fun v w => g.Link v w ∧ member w) v v := by
  have follow : Search.Follows (g.successors r member) = fun v w => g.Link v w ∧ member w := by
    funext v w
    exact propext h.mem_successors
  have noSelf (v : TaskId) : v ∉ g.successors r member v := fun hv =>
    h.ne_of_link (h.mem_successors.1 hv).1 rfl
  have inside (v w : TaskId) (hw : w ∈ g.successors r member v) : w ∈ g.ids :=
    (h.mem_of_link (h.mem_successors.1 hw).1).2
  have few (v : TaskId) : (g.successors r member v).length ≤ g.ids.length := by
    rw [successors, (r.sort_perm _).length_eq]
    exact Nat.le_trans (List.length_filter_le _ _) (List.length_filter_le _ _)
  have enough : (g.ids.length + 1) * (g.ids.length + 2) ≤ g.searchBound := by
    rw [searchBound, length_ids]
  have good := Search.good_visits noSelf inside few enough Search.inv_start rfl roots
  rw [search]
  cases e : roots.foldlM (Search.visit (g.successors r member) g.searchBound) {} with
  | error found =>
    rw [e] at good
    obtain ⟨c, rfl, cycle⟩ := good
    exact .inl ⟨c, rfl, follow ▸ cycle⟩
  | ok s =>
    rw [e] at good
    obtain ⟨inv, -, met, empty⟩ := good
    refine .inr ⟨rfl, fun v hv => follow ▸ inv.acyclic v ?_⟩
    -- Nothing is in progress, as nothing is left on the path.
    cases m : s.mark? v with
    | none => exact absurd (met v hv) (by rw [m]; decide)
    | some x =>
      cases x with
      | done => rfl
      | inProgress =>
        have on := (inv.inProgress v).1 m
        rw [empty] at on
        exact absurd on List.not_mem_nil

theorem findCycle_cases (h : g.Sound) (ranks : r.order.Perm g.ids) :
    (∃ c, g.findCycle r = some c ∧ IsCycle g.Link c) ∨ g.findCycle r = none ∧ g.Acyclic := by
  rcases g.search_cases h r (fun _ => true) r.order with ⟨c, found, cycle⟩ | ⟨none, acyclic⟩
  · exact .inl ⟨c, found, cycle.mono fun _ _ link => link.1⟩
  · refine .inr ⟨none, fun v round => ?_⟩
    obtain ⟨w, link, -⟩ := TransGen.head'_iff.1 round
    apply acyclic v (ranks.mem_iff.2 (h.mem_of_link link).1)
    simpa using round

theorem findCycle_eq_none_iff (h : g.Sound) (ranks : r.order.Perm g.ids) :
    g.findCycle r = none ↔ g.Acyclic := by
  rcases findCycle_cases h ranks with ⟨c, found, cycle⟩ | ⟨nothing, acyclic⟩
  · obtain ⟨v, -, round⟩ := cycle.round
    rw [found]
    exact ⟨fun e => by contradiction, fun acyclic => absurd round (acyclic v)⟩
  · exact ⟨fun _ => acyclic, fun _ => nothing⟩

/-! The schedule -/

/-- A graph has an order of execution unless a cycle is found, and then it is refused for that
cycle. -/
theorem executionOrder_eq (h : g.Sound) (ranks : r.order.Perm g.ids) :
    g.executionOrder r = match g.findCycle r with
      | none => .ok (Countdown.run g r g.tasks.length (.start g r)).order
      | some c => .error (.circularDependency c) := by
  have inv := (Countdown.inv_start h ranks).run h ranks g.tasks.length
  have stuck := Countdown.run_free h ranks (Countdown.inv_start h ranks)
    (Nat.le_trans (Nat.le_of_eq g.length_ids) (Nat.le_add_left _ _))
  rw [executionOrder, ← length_ids] at *
  split
  · next less =>
    have cyclic := inv.not_acyclic h stuck less
    rcases findCycle_cases h ranks with ⟨c, found, -⟩ | ⟨-, acyclic⟩
    · rw [found]
      rfl
    · exact absurd acyclic cyclic
  · next all =>
    rw [(findCycle_eq_none_iff h ranks).2 (inv.acyclic h (Nat.le_of_not_lt all))]

theorem acyclic_of_executionOrder (h : g.Sound) (ranks : r.order.Perm g.ids) {order : List TaskId}
    (scheduled : g.executionOrder r = .ok order) : g.Acyclic := by
  rw [executionOrder_eq h ranks] at scheduled
  rw [← findCycle_eq_none_iff h ranks]
  cases e : g.findCycle r with
  | none => rfl
  | some c =>
    rw [e] at scheduled
    contradiction

/-! Knots -/

@[simp] theorem Sound.mem_component (h : g.Sound) {v w : TaskId} :
    w ∈ g.component r v ↔ ReflTransGen g.Link v w ∧ ReflTransGen g.Link w v := by
  have up : ReflTransGen (g.linkAlong .up) v w ↔ ReflTransGen g.Link w v :=
    reflTransGen_swap (r := g.Link)
  have down : g.linkAlong .down = g.Link := rfl
  simp [component, h, up, down]

theorem nodup_component (v : TaskId) : (g.component r v).Nodup :=
  (r.sort_perm _).nodup_iff.2 ((nodup_closure g .down v).filter _)

theorem Sound.two_le_component (h : g.Sound) (v : TaskId) :
    2 ≤ (g.component r v).length ↔ TransGen g.Link v v := by
  have distinct := g.nodup_component (r := r) v
  have mem {w : TaskId} := h.mem_component (r := r) (v := v) (w := w)
  have round {w : TaskId} (hw : w ∈ g.component r v) (other : w ≠ v) : TransGen g.Link v v := by
    obtain ⟨there, back⟩ := mem.1 hw
    rcases reflTransGen_iff_eq_or_transGen.1 there with same | there
    · exact absurd same other
    · exact there.trans_left back
  constructor
  · intro two
    cases e : g.component r v with
    | nil => rw [e] at two; contradiction
    | cons a rest =>
      cases rest with
      | nil => rw [e] at two; contradiction
      | cons b rest =>
        rw [e] at distinct round
        by_cases same : a = v
        · subst same
          apply round (List.mem_cons_of_mem _ List.mem_cons_self)
          rintro rfl
          exact (List.nodup_cons.1 distinct).1 List.mem_cons_self
        · exact round List.mem_cons_self same
  · intro path
    obtain ⟨w, link, back⟩ := TransGen.head'_iff.1 path
    have pair : [v, w] ⊆ g.component r v := by
      intro x hx
      rcases List.mem_cons.1 hx with rfl | hx
      · exact mem.2 ⟨.refl, .refl⟩
      · rw [List.mem_singleton.1 hx]
        exact mem.2 ⟨.single link, back⟩
    have two : [v, w].Nodup := by simpa using h.ne_of_link link
    exact (List.subperm_of_subset two pair).length_le

theorem knotsAmong_eq_nil_iff (seen vs : List TaskId) :
    g.knotsAmong r seen vs = [] ↔ ∀ v ∈ vs, v ∈ seen ∨ (g.component r v).length < 2 := by
  induction vs generalizing seen with
  | nil => simp [knotsAmong]
  | cons v vs ih =>
    rw [knotsAmong, List.forall_mem_cons]
    split
    · next old => simp [ih, old]
    · next new =>
      split
      · next e => simp [e, new]
      · next few =>
        have short : (g.component r v).length < 2 := by
          cases e : g.component r v with
          | nil => simp
          | cons a rest =>
            cases rest with
            | nil => simp
            | cons b rest => exact absurd e (few a b rest)
        simp [ih, short]

theorem exists_of_mem_knotsAmong {seen vs knot : List TaskId} (h : knot ∈ g.knotsAmong r seen vs) :
    ∃ v, knot = g.component r v ∧ 2 ≤ knot.length := by
  induction vs generalizing seen with
  | nil => exact absurd h List.not_mem_nil
  | cons v vs ih =>
    rw [knotsAmong] at h
    split at h
    · exact ih h
    · split at h
      · next e =>
        rcases List.mem_cons.1 h with rfl | h
        · exact ⟨v, e.symm, by simp⟩
        · exact ih h
      · exact ih h

theorem knots_eq_nil_iff (h : g.Sound) (ranks : r.order.Perm g.ids) :
    g.knots r = [] ↔ g.Acyclic := by
  rw [knots, knotsAmong_eq_nil_iff]
  constructor
  · intro single v round
    obtain ⟨w, link, -⟩ := TransGen.head'_iff.1 round
    have short := (single v (ranks.mem_iff.2 (h.mem_of_link link).1)).resolve_left List.not_mem_nil
    have := (h.two_le_component (r := r) v).2 round
    omega
  · intro acyclic v _
    refine .inr (Nat.lt_of_not_le fun two => acyclic v ((h.two_le_component v).1 two))

/-- From the first task of a knot a way around leads through the knot. -/
theorem round_in_knot (h : g.Sound) {v a : TaskId} (ha : a ∈ g.component r v)
    (round : TransGen g.Link a a) :
    TransGen (fun x y => g.Link x y ∧ (g.component r v).contains y) a a := by
  obtain ⟨there, back⟩ := h.mem_component.1 ha
  have inside {x : TaskId} (out : ReflTransGen g.Link a x) (home : ReflTransGen g.Link x a) :
      (g.component r v).contains x := by
    rw [List.contains_iff_mem, h.mem_component]
    exact ⟨there.trans out, home.trans back⟩
  have kept {x : TaskId} (path : TransGen g.Link a x) (home : ReflTransGen g.Link x a) :
      TransGen (fun x y => g.Link x y ∧ (g.component r v).contains y) a x := by
    induction path with
    | single link => exact .single ⟨link, inside (.single link) home⟩
    | tail path link ih =>
      exact (ih (.head link home)).tail ⟨link, inside (path.tail link).to_reflTransGen home⟩
  exact kept round .refl

/-- The search from the first task of a knot finds a cycle inside the knot. -/
theorem exists_cycle_of_mem_knots (h : g.Sound) {knot : List TaskId} (hk : knot ∈ g.knots r) :
    ∃ c, g.search r knot.contains (knot.take 1) = some c ∧
      IsCycle (fun x y => g.Link x y ∧ knot.contains y) c := by
  obtain ⟨v, rfl, two⟩ := exists_of_mem_knotsAmong hk
  cases e : g.component r v with
  | nil => rw [e] at two; contradiction
  | cons a rest =>
    have ha : a ∈ g.component r v := e ▸ List.mem_cons_self
    have same : TransGen g.Link a a := by
      have round := (h.two_le_component v).1 two
      obtain ⟨there, back⟩ := h.mem_component.1 ha
      exact .trans_right back (round.trans_left there)
    have inner := round_in_knot h ha same
    rw [← e]
    rcases g.search_cases h r (g.component r v).contains ((g.component r v).take 1) with
      found | ⟨-, acyclic⟩
    · exact found
    · exact absurd inner (acyclic a (by simp [e]))

/-- The cycles of all knots, looked for whether or not there is a cycle at all. -/
def knotCycles (g : Graph) (r : Ranking) : List (List TaskId) :=
  (g.knots r).filterMap fun knot => g.search r knot.contains (knot.take 1)

theorem knotCycles_eq_nil_iff (h : g.Sound) : g.knotCycles r = [] ↔ g.knots r = [] := by
  rw [knotCycles, List.filterMap_eq_nil_iff]
  constructor
  · intro nothing
    rw [List.eq_nil_iff_forall_not_mem]
    intro knot hk
    obtain ⟨c, found, -⟩ := exists_cycle_of_mem_knots h hk
    rw [nothing knot hk] at found
    contradiction
  · intro e knot hk
    rw [e] at hk
    exact absurd hk List.not_mem_nil

theorem cycles_eq_knotCycles (h : g.Sound) (ranks : r.order.Perm g.ids) :
    g.cycles r = g.knotCycles r := by
  rw [cycles]
  split
  · next nothing =>
    have acyclic := (findCycle_eq_none_iff h ranks).1 (Option.isNone_iff_eq_none.1 nothing)
    rw [knotCycles, (knots_eq_nil_iff h ranks).2 acyclic]
    rfl
  · rfl

theorem cycles_eq_nil_iff (h : g.Sound) (ranks : r.order.Perm g.ids) :
    g.cycles r = [] ↔ g.findCycle r = none := by
  rw [cycles_eq_knotCycles h ranks, findCycle_eq_none_iff h ranks, ← knots_eq_nil_iff h ranks,
    knotCycles_eq_nil_iff h]

theorem cycles_eq_nil_iff_acyclic (h : g.Sound) (ranks : r.order.Perm g.ids) :
    g.cycles r = [] ↔ g.Acyclic := by
  rw [cycles_eq_nil_iff h ranks, findCycle_eq_none_iff h ranks]

/-- All ways of finding cycles agree on every graph that is made, in whatever order of preference
its tasks are taken. A search finds a cycle where there is one and nothing where there is none;
there is an order of execution exactly where nothing is found, else it is refused for the cycle that
is found, and no counter is taken below zero on the way; and there is a cycle for some knot exactly
where one is found. -/
theorem cycle_detection_agrees {g : Graph} (made : g.Made) (compare : Comparison) :
    (¬ g.Acyclic → ∃ c, g.findCycle (.ofGraph g compare) = some c ∧ IsCycle g.Link c) ∧
    (g.Acyclic → g.findCycle (.ofGraph g compare) = none) ∧
    ((∃ order, g.executionOrder (.ofGraph g compare) = .ok order) ↔
      g.findCycle (.ofGraph g compare) = none) ∧
    (∀ fault, g.executionOrder (.ofGraph g compare) = .error fault →
      ∃ c, g.findCycle (.ofGraph g compare) = some c ∧ fault = .circularDependency c) ∧
    (∀ fuel, Countdown.IsSafe g (.ofGraph g compare)
      (Countdown.run g (.ofGraph g compare) fuel (.start g (.ofGraph g compare)))) ∧
    (g.cycles (.ofGraph g compare) = [] ↔ g.findCycle (.ofGraph g compare) = none) ∧
    g.cycles (.ofGraph g compare) = g.knotCycles (.ofGraph g compare) := by
  have h := made.sound
  have ranks := Ranking.order_perm g compare
  have order := executionOrder_eq h ranks
  refine ⟨fun cyclic => ?_, (findCycle_eq_none_iff h ranks).2, ?_, fun fault refused => ?_,
    Countdown.isSafe_run h ranks, cycles_eq_nil_iff h ranks, cycles_eq_knotCycles h ranks⟩
  · exact (findCycle_cases h ranks).resolve_right fun missed => cyclic missed.2
  · rw [order]
    cases g.findCycle (.ofGraph g compare) with
    | none => simp
    | some c => simp
  · rw [order] at refused
    cases e : g.findCycle (.ofGraph g compare) with
    | none => rw [e] at refused; contradiction
    | some c =>
      rw [e] at refused
      exact ⟨c, rfl, (Except.error.inj refused).symm⟩

open TaskMap in
def pair : Graph := (buildLenient [sample a "x", sample b "y"] [⟨a, b⟩, ⟨b, a⟩]).1

open TaskMap in
theorem cycle_detection_agrees_on_pair :
    pair.Made ∧ ¬ pair.Acyclic ∧
      ∃ c, pair.findCycle (.ofGraph pair TieBreak.id.compare) = some c ∧ IsCycle pair.Link c := by
  have made : pair.Made := .lenient _ _
  have there : pair.Link a b := by unfold Link; decide +kernel
  have back : pair.Link b a := by unfold Link; decide +kernel
  have cyclic : ¬ pair.Acyclic := fun acyclic => acyclic a (.tail (.single there) back)
  exact ⟨made, cyclic, (cycle_detection_agrees made TieBreak.id.compare).1 cyclic⟩

end Precedence.Graph

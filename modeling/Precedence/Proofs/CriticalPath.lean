import Precedence.Proofs.Finish
import Precedence.Proofs.Greedy
import Precedence.Proofs.Validity
/-!
The critical path: the heaviest path between given ends. It ends in the best of the tasks in scope
that have the greatest finish, and goes back from each task to the best of the prerequisites that
have.
-/
namespace Precedence.Graph

open Relation
open CriticalPath (Chain)

variable {g : Graph} {r : Ranking} {start finish : Option TaskId}

/-! Scope -/

/-- After the start and before the finish, where these are given. -/
structure InScope (g : Graph) (start finish : Option TaskId) (v : TaskId) : Prop where
  loaded : v ∈ g.ids
  after : ∀ s ∈ start, ReflTransGen g.Link s v
  before : ∀ f ∈ finish, ReflTransGen g.Link v f

theorem mem_between (sound : g.Sound) {v : TaskId} :
    v ∈ g.between start finish ↔ g.InScope start finish v := by
  have below {s : TaskId} : v ∈ g.closure .down s ↔ ReflTransGen g.Link s v := sound.mem_closure
  have above {f : TaskId} : v ∈ g.closure .up f ↔ ReflTransGen g.Link v f :=
    sound.mem_closure.trans reflTransGen_swap
  rw [between, List.mem_filter, Bool.and_eq_true]
  simp only [Option.all_map, Option.all_eq_true, List.contains_iff_mem, below, above]
  exact ⟨fun ⟨loaded, after, before⟩ => ⟨loaded, after, before⟩, fun h => ⟨h.1, h.2, h.3⟩⟩

theorem InScope.prerequisite (sound : g.Sound) {p v : TaskId} (h : g.InScope start finish v)
    (link : g.Link p v) (reached : ∀ s ∈ start, ReflTransGen g.Link s p) :
    g.InScope start finish p where
  loaded := (sound.mem_of_link link).1
  after := reached
  before := fun f hf => .head link (h.before f hf)

theorem InScope.dependent (sound : g.Sound) {v d : TaskId} (h : g.InScope start none v)
    (link : g.Link v d) : g.InScope start none d where
  loaded := (sound.mem_of_link link).2
  after := fun s hs => (h.after s hs).tail link
  before := nofun

/-- A chain of tasks from the start to the finish, where these are given. -/
structure IsPath (g : Graph) (start finish : Option TaskId) (l : List TaskId) : Prop where
  loaded : ∀ v ∈ l, v ∈ g.ids
  chain : l.IsChain g.Link
  first : ∀ s ∈ start, l.head? = some s
  last : ∀ f ∈ finish, l.getLast? = some f

theorem IsPath.inScope {l : List TaskId} (h : g.IsPath start finish l) :
    ∀ v ∈ l, g.InScope start finish v := by
  intro v hv
  exact ⟨h.loaded v hv, fun s hs => reaches_of_head h.chain (h.first s hs) hv,
    fun f hf => reaches_of_getLast h.chain (h.last f hf) hv⟩

theorem IsFinish.weight_le {fin : TaskId → Nat} (h : g.IsFinish (g.InScope start finish) fin)
    {l : List TaskId} {v : TaskId} (path : g.IsPath start finish l) (last : l.getLast? = some v) :
    g.weight l ≤ fin v :=
  (h v (path.inScope v (List.mem_of_getLast? last))).2 ⟨l, ⟨path.inScope, path.chain, last⟩, rfl⟩

/-- Has the tasks in scope, each once and before none of its prerequisites. -/
structure Scopes (g : Graph) (r : Ranking) (start finish : Option TaskId) (order : List TaskId) :
    Prop where
  arranges : g.Arranges order
  mem_iff : ∀ v, v ∈ order ↔ g.InScope start finish v
  ranked : order ⊆ r.order

theorem IsSchedule.scopes (sound : g.Sound) (ranks : r.order.Perm g.ids) {order : List TaskId}
    (h : g.IsSchedule order) :
    g.Scopes r start finish (order.filter (g.between start finish).contains) where
  arranges := (h.arranges sound).filter _
  mem_iff := by
    intro v
    rw [List.mem_filter, h.perm.mem_iff, List.contains_iff_mem, mem_between sound]
    exact and_iff_right_of_imp fun within => within.loaded
  ranked := by
    intro v hv
    rw [ranks.mem_iff, ← h.perm.mem_iff]
    exact List.mem_of_mem_filter hv

theorem Scopes.eq {order : List TaskId} (h : g.Scopes r start finish order) :
    (· ∈ order) = g.InScope start finish := funext fun v => propext (h.mem_iff v)

theorem Scopes.isFinish (sound : g.Sound) {order : List TaskId}
    (h : g.Scopes r start finish order) :
    g.IsFinish (g.InScope start finish) (g.finish r order) := by
  rw [← h.eq]
  exact isFinish_finish sound h.arranges

/-! The end of the path -/

section

variable (isLast : TaskId → Bool)

/-- Ends compare by their sums, and then by whether any task comes after them. -/
def endKey (c : Chain) : Nat := 2 * c.finish + (isLast c.last).toNat

theorem laterEnd_eq (a b : Chain) :
    laterEnd isLast a b = if endKey isLast b ≤ endKey isLast a then a else b := by
  unfold laterEnd endKey
  congr 1
  cases isLast a.last <;> cases isLast b.last <;> simp <;> omega

theorem foldl_laterEnd_mem (c : Chain) (cs : List Chain) :
    cs.foldl (laterEnd isLast) c ∈ c :: cs := by
  induction cs generalizing c with
  | nil => exact List.mem_cons_self
  | cons d cs ih =>
    rcases List.mem_cons.1 (ih (laterEnd isLast c d)) with same | later
    · rw [List.foldl_cons, same, laterEnd_eq]
      split <;> simp
    · exact List.mem_cons_of_mem c (List.mem_cons_of_mem d later)

/-- Of ends in the order of their ranks the first of the best is taken. -/
theorem le_foldl_laterEnd {c : Chain} {cs : List Chain}
    (sorted : (c :: cs).Pairwise fun a b => r.rank a.last < r.rank b.last) : ∀ a ∈ c :: cs,
      endKey isLast a < endKey isLast (cs.foldl (laterEnd isLast) c) ∨
      endKey isLast a = endKey isLast (cs.foldl (laterEnd isLast) c) ∧
        r.rank (cs.foldl (laterEnd isLast) c).last ≤ r.rank a.last := by
  induction cs generalizing c with
  | nil => simp
  | cons d cs ih =>
    obtain ⟨first, later⟩ := List.pairwise_cons.1 sorted
    have less := first d List.mem_cons_self
    simp only [List.foldl_cons, List.forall_mem_cons, laterEnd_eq]
    split
    · next le =>
      have best := ih (sorted.sublist ((List.sublist_cons_self d cs).cons_cons c))
      rw [List.forall_mem_cons] at best
      refine ⟨best.1, ?_, best.2⟩
      have := best.1
      omega
    · next gt =>
      have best := ih later
      rw [List.forall_mem_cons] at best
      refine ⟨?_, best⟩
      have := best.1
      omega

end

/-- The best-ranked of the tasks in scope that no task waits for and that have the greatest
finish. -/
structure IsBestEnd (g : Graph) (r : Ranking) (scope : TaskId → Prop) (fin : TaskId → Nat)
    (v : TaskId) : Prop where
  last : ∀ d, ¬ g.Link v d
  greatest : ∀ w, scope w → fin w ≤ fin v
  best : ∀ w, scope w → fin w = fin v → (∀ d, ¬ g.Link w d) → r.rank v ≤ r.rank w

/-- The chains that the path is taken from. -/
def ends (g : Graph) (r : Ranking) (finish : Option TaskId) (order : List TaskId) : List Chain :=
  match finish with
  | some f => (g.chainsFrom r [] order).filter (·.last = f)
  | none => r.order.filterMap (g.chain? r order)

section

variable {order : List TaskId}

theorem Scopes.mem_ends (h : g.Scopes r start finish order) {c : Chain} :
    c ∈ g.ends r finish order ↔
      g.chain? r order c.last = some c ∧ ∀ f ∈ finish, c.last = f := by
  cases finish with
  | some f =>
    simp only [ends, List.mem_filter, decide_eq_true_eq, Option.mem_some_iff, forall_eq']
    apply and_congr_left'
    exact ⟨chain?_of_mem h.arranges.nodup, List.mem_of_find?_eq_some⟩
  | none =>
    simp only [ends, List.mem_filterMap, Option.mem_def, reduceCtorEq, false_imp_iff, implies_true,
      and_true]
    constructor
    · rintro ⟨v, -, kept⟩
      rwa [last_of_chain? kept]
    · intro kept
      exact ⟨c.last, h.ranked (mem_of_chain? kept), kept⟩

theorem Scopes.exists_end (sound : g.Sound) (h : g.Scopes r start finish order) {v : TaskId}
    (hv : g.InScope start finish v) (asked : ∀ f ∈ finish, v = f) :
    ∃ c ∈ g.ends r finish order, c.last = v := by
  obtain ⟨c, kept, -⟩ := h.arranges.settled (r := r) sound v ((h.mem_iff v).2 hv)
  obtain rfl := last_of_chain? kept
  exact ⟨c, h.mem_ends.2 ⟨kept, asked⟩, rfl⟩

theorem pairwise_ends (g : Graph) (order : List TaskId) (distinct : r.order.Nodup) :
    (g.ends r none order).Pairwise fun a b => r.rank a.last < r.rank b.last := by
  apply List.pairwise_filterMap.2
  apply (Ranking.pairwise_order distinct).imp
  intro v w less a ha b hb
  rwa [last_of_chain? ha, last_of_chain? hb]

/-- Whether no task of a list waits for a task. -/
def isLast (g : Graph) (within : List TaskId) (v : TaskId) : Bool :=
  !(g.dependents v).any within.contains

theorem isLast_iff (sound : g.Sound) {v : TaskId} (hv : g.InScope start none v) :
    g.isLast (g.between start none) v = true ↔ ∀ d, ¬ g.Link v d := by
  simp only [isLast, Bool.not_eq_true', List.any_eq_false, sound.mem_dependents,
    List.contains_iff_mem, mem_between sound]
  apply forall_congr'
  intro d
  exact ⟨fun off link => off link (hv.dependent sound link), fun last link => absurd link last⟩

/-- Goes before all other tasks in scope: by its finish, by no task coming after it, then by its
rank. -/
def IsTop (g : Graph) (r : Ranking) (isLast : TaskId → Bool) (order : List TaskId) (v : TaskId) :
    Prop :=
  ∀ w ∈ order,
    2 * g.finish r order w + (isLast w).toNat < 2 * g.finish r order v + (isLast v).toNat ∨
    2 * g.finish r order w + (isLast w).toNat = 2 * g.finish r order v + (isLast v).toNat ∧
      r.rank v ≤ r.rank w

/-- The end that is taken where none is asked for. -/
theorem Scopes.isTop (sound : g.Sound) (distinct : r.order.Nodup) (h : g.Scopes r start none order)
    (isLast : TaskId → Bool) {c : Chain} {cs : List Chain} (e : g.ends r none order = c :: cs) :
    g.IsTop r isLast order (cs.foldl (laterEnd isLast) c).last := by
  have mem : cs.foldl (laterEnd isLast) c ∈ g.ends r none order :=
    e ▸ foldl_laterEnd_mem isLast c cs
  have sorted := pairwise_ends g order distinct
  rw [e] at sorted
  intro w hw
  obtain ⟨b, hb, rfl⟩ := h.exists_end sound ((h.mem_iff w).1 hw) nofun
  rw [finish_eq (h.mem_ends.1 hb).1, finish_eq (h.mem_ends.1 mem).1]
  exact le_foldl_laterEnd isLast sorted b (e ▸ hb)

theorem IsTop.isBestEnd (sound : g.Sound) (acyclic : g.Acyclic) (h : g.Scopes r start none order)
    {isLast : TaskId → Bool}
    (lasts : ∀ v, g.InScope start none v → (isLast v = true ↔ ∀ d, ¬ g.Link v d)) {v : TaskId}
    (hv : v ∈ order) (top : g.IsTop r isLast order v) :
    g.IsBestEnd r (g.InScope start none) (g.finish r order) v := by
  have scope {w : TaskId} := h.mem_iff w
  -- A task at the end of the scope finishes no earlier and would be taken before one that is not.
  have last : isLast v = true := by
    obtain ⟨w, hw, le, none⟩ := (isFinish_finish (r := r) sound h.arranges).exists_last acyclic hv
    have lastly : isLast w = true := by
      rw [lasts w (scope.1 hw)]
      intro d link
      exact none d (scope.2 ((scope.1 hw).dependent sound link)) link
    have less := top w hw
    rw [lastly, Bool.toNat_true] at less
    by_contra early
    rw [Bool.eq_false_iff.2 early, Bool.toNat_false] at less
    omega
  unfold IsTop at top
  rw [last, Bool.toNat_true] at top
  refine ⟨(lasts v (scope.1 hv)).1 last, fun w hw => ?_, fun w hw same lastly => ?_⟩
  · have := top w (scope.2 hw)
    omega
  · have less := top w (scope.2 hw)
    rw [(lasts w hw).2 lastly, Bool.toNat_true] at less
    omega

end

/-! The path -/

/-- A path that is critical: of the greatest weight and, where others weigh as much, settled by
rank. -/
structure IsCritical (g : Graph) (r : Ranking) (start finish : Option TaskId) (fin : TaskId → Nat)
    (c : CriticalPath) : Prop where
  path : g.IsPath start finish c.path
  nonempty : c.path ≠ []
  begins : start = none → ∀ v ∈ c.path.head?, ∀ p, ¬ g.Link p v
  ends : finish = none → ∀ v ∈ c.path.getLast?, g.IsBestEnd r (g.InScope start finish) fin v
  follows : c.path.IsChain (g.Follows r (g.InScope start finish) fin)
  weighs : c.totalDuration = g.weight c.path
  greatest : ∀ l, g.IsPath start finish l → g.weight l ≤ c.totalDuration

section

variable {order : List TaskId} {c : Chain}

theorem Settles.isPath (sound : g.Sound) (scopes : g.Scopes r start finish order)
    (settles : Settles g r order c) (asked : ∀ f ∈ finish, c.last = f) :
    g.IsPath start finish c.tasks where
  loaded := fun v hv => ((scopes.mem_iff v).1 (settles.inside v hv)).loaded
  chain := settles.follows.imp fun _ _ both => both.link
  first := by
    intro s hs
    obtain rfl : start = some s := hs
    have e := List.head?_eq_some_head c.tasks_ne_nil
    have within := (scopes.mem_iff _).1 (settles.inside _ (List.head_mem c.tasks_ne_nil))
    -- A task that is reached from the start and is another one has a prerequisite in scope.
    rcases (within.after s rfl).cases_tail with same | ⟨p, path, link⟩
    · rw [e, same]
    · refine absurd ((scopes.mem_iff p).2 ?_) (settles.begins _ e p link)
      exact within.prerequisite sound link (by simpa using path)
  last := by
    intro f hf
    rw [c.getLast?_tasks, asked f hf]

theorem Settles.isCritical (sound : g.Sound) (scopes : g.Scopes r start finish order)
    (kept : g.chain? r order c.last = some c) (settles : Settles g r order c)
    (asked : ∀ f ∈ finish, c.last = f)
    (best : finish = none → g.IsBestEnd r (g.InScope start finish) (g.finish r order) c.last) :
    g.IsCritical r start finish (g.finish r order) c.path where
  path := settles.isPath sound scopes asked
  nonempty := c.tasks_ne_nil
  begins := by
    rintro rfl v hv p link
    have within := (scopes.mem_iff v).1 (settles.inside v (List.mem_of_head? hv))
    exact settles.begins v hv p link ((scopes.mem_iff p).2 (within.prerequisite sound link nofun))
  ends := by
    intro free v hv
    obtain rfl : c.last = v := Option.some.inj (c.getLast?_tasks.symm.trans hv)
    exact best free
  follows := scopes.eq ▸ settles.follows
  weighs := settles.weighs
  greatest := by
    intro l path
    cases last : l.getLast? with
    | none => simp [List.getLast?_eq_none_iff.1 last, weight]
    | some v =>
      calc g.weight l
        _ ≤ g.finish r order v := (scopes.isFinish sound).weight_le path last
        _ ≤ g.finish r order c.last := by
          cases finish with
          | none => exact (best rfl).greatest v (path.inScope v (List.mem_of_getLast? last))
          | some f =>
            obtain rfl : v = f := Option.some.inj (last.symm.trans (path.last f rfl))
            rw [asked v rfl]
        _ = c.finish := finish_eq kept

end

/-- The path that is taken from the tasks of an order that are in scope. -/
def pathOf (g : Graph) (r : Ranking) (finish : Option TaskId) (within order : List TaskId) :
    CriticalPath :=
  match g.ends r finish (order.filter within.contains) with
  | [] => ⟨[], 0⟩
  | c :: cs => (cs.foldl (laterEnd (g.isLast within)) c).path

theorem forM_require_option {id : Option TaskId} (known : ∀ v ∈ id, v ∈ g.ids) :
    id.forM g.require = .ok () := by
  cases id with
  | none => rfl
  | some v => exact if_pos ((g.contains_iff v).2 (known v rfl))

section

variable {order : List TaskId} (hs : ∀ s ∈ start, s ∈ g.ids)
  (hf : ∀ f ∈ finish, f ∈ g.ids) (scheduled : g.executionOrder r = .ok order)

include hs hf scheduled

theorem criticalPath_eq : g.criticalPath r start finish =
    match start, finish with
    | some s, some f =>
      if f ∈ g.between start finish then .ok (g.pathOf r finish (g.between start finish) order)
      else .error (.noPathExists s f)
    | _, _ => .ok (g.pathOf r finish (g.between start finish) order) := by
  have rest : (match g.ends r finish (order.filter (g.between start finish).contains) with
      | [] => .ok ⟨[], 0⟩
      | c :: cs => .ok (cs.foldl (laterEnd (g.isLast (g.between start finish))) c).path) =
      (.ok (g.pathOf r finish (g.between start finish) order) :
        Except GraphFault CriticalPath) := by
    unfold pathOf
    cases g.ends r finish (order.filter (g.between start finish).contains) <;> rfl
  rw [criticalPath, forM_require_option hs, forM_require_option hf, scheduled]
  cases start with
  | none => cases finish <;> exact rest
  | some s =>
    cases finish with
    | none => exact rest
    | some f =>
      by_cases within : f ∈ g.between (some s) (some f)
      · have held := List.contains_iff_mem.2 within
        simp only [bind, Except.bind, held, within, Bool.not_true, Bool.false_eq_true,
          if_false, if_true]
        exact rest
      · have off : (g.between (some s) (some f)).contains f = false := by simpa using within
        simp only [bind, Except.bind, off, within, Bool.not_false, if_true, if_false]
        rfl

end

theorem exists_inScope (loaded : g.tasks ≠ []) (hs : ∀ s ∈ start, s ∈ g.ids)
    (hf : ∀ f ∈ finish, f ∈ g.ids) (reaches : ∀ s ∈ start, ∀ f ∈ finish, ReflTransGen g.Link s f) :
    ∃ v, g.InScope start finish v ∧ ∀ f ∈ finish, v = f := by
  cases finish with
  | some f =>
    refine ⟨f, ⟨hf f rfl, fun s given => reaches s given f rfl, ?_⟩, by simp⟩
    simp [ReflTransGen.refl]
  | none =>
    cases start with
    | some s => exact ⟨s, ⟨hs s rfl, by simp [ReflTransGen.refl], nofun⟩, nofun⟩
    | none =>
      obtain ⟨t, ht⟩ := List.exists_mem_of_ne_nil _ loaded
      exact ⟨t.id, ⟨List.mem_map_of_mem ht, nofun, nofun⟩, nofun⟩

/-- A path is found, and it is critical. -/
theorem isCritical_pathOf (sound : g.Sound) (acyclic : g.Acyclic) (ranks : r.order.Perm g.ids)
    {order : List TaskId} (schedule : g.IsSchedule order)
    (some : ∃ v, g.InScope start finish v ∧ ∀ f ∈ finish, v = f) :
    ∃ fin, g.IsFinish (g.InScope start finish) fin ∧
      g.IsCritical r start finish fin (g.pathOf r finish (g.between start finish) order) := by
  have scopes : g.Scopes r start finish _ := schedule.scopes sound ranks
  rw [pathOf]
  generalize order.filter (g.between start finish).contains = inside at scopes ⊢
  refine ⟨g.finish r inside, scopes.isFinish sound, ?_⟩
  cases e : g.ends r finish inside with
  | nil =>
    obtain ⟨v, hv, asked⟩ := some
    obtain ⟨c, hc, -⟩ := scopes.exists_end sound hv asked
    simp [e] at hc
  | cons c cs =>
    have taken := foldl_laterEnd_mem (g.isLast (g.between start finish)) c cs
    rw [← e, scopes.mem_ends] at taken
    obtain ⟨kept, asked⟩ := taken
    have settles := (scopes.arranges.settled sound _ (mem_of_chain? kept)).settles kept
    apply settles.isCritical sound scopes kept asked
    rintro rfl
    have distinct := ranks.nodup_iff.2 sound.distinct
    apply (scopes.isTop sound distinct (g.isLast (g.between start none)) e).isBestEnd sound
      acyclic scopes
    · exact fun v hv => isLast_iff sound hv
    · exact mem_of_chain? kept

/-- The critical path is the heaviest. Where the finish is not reached from the start there is no
path, and a graph without tasks has the empty one. In all other cases the path leads from the start
to the finish, or begins and ends where no task comes before and after; its duration is the sum of
its tasks' as far as a word holds it, which no other such path exceeds; and each task on it, from
the last one back, is the best-ranked of those that could stand there and have the greatest
finish. -/
theorem criticalPath_heaviest {g : Graph} (made : g.Made) (acyclic : g.Acyclic)
    (compare : Comparison)
    (start finish : Option TaskId) (hs : ∀ s ∈ start, s ∈ g.ids) (hf : ∀ f ∈ finish, f ∈ g.ids) :
    let r := Ranking.ofGraph g compare
    (∀ s ∈ start, ∀ f ∈ finish, ¬ ReflTransGen g.Link s f →
      g.criticalPath r start finish = .error (.noPathExists s f)) ∧
    (g.tasks = [] → g.criticalPath r start finish = .ok ⟨[], 0⟩) ∧
    (g.tasks ≠ [] → (∀ s ∈ start, ∀ f ∈ finish, ReflTransGen g.Link s f) →
      ∃ c fin, g.criticalPath r start finish = .ok c ∧ g.IsFinish (g.InScope start finish) fin ∧
        g.IsCritical r start finish fin c) := by
  intro r
  have sound := made.sound
  have ranks : r.order.Perm g.ids := Ranking.order_perm g compare
  obtain ⟨order, scheduled, schedule⟩ := exists_schedule sound ranks acyclic
  have computed := criticalPath_eq hs hf scheduled
  refine ⟨fun s given f given' apart => ?_, fun empty => ?_, fun loaded reaches => ?_⟩
  · obtain rfl : start = some s := given
    obtain rfl : finish = some f := given'
    have off : f ∉ g.between (some s) (some f) := fun within =>
      apart (((mem_between sound).1 within).after s rfl)
    rw [computed]
    exact if_neg off
  · have none (id : TaskId) : id ∉ g.ids := by simp [ids, empty]
    obtain rfl : start = .none :=
      Option.eq_none_iff_forall_not_mem.2 fun s given => none s (hs s given)
    obtain rfl : finish = .none :=
      Option.eq_none_iff_forall_not_mem.2 fun f given => none f (hf f given)
    have unranked : r.order = [] := List.eq_nil_iff_forall_not_mem.2 fun v hv =>
      none v (ranks.mem_iff.1 hv)
    rw [computed]
    simp [pathOf, ends, unranked]
  · have some := exists_inScope loaded hs hf reaches
    obtain ⟨fin, isFinish, critical⟩ := isCritical_pathOf sound acyclic ranks schedule some
    refine ⟨_, fin, ?_, isFinish, critical⟩
    rw [computed]
    split
    · next s f =>
      obtain ⟨v, hv, asked⟩ := some
      rw [asked _ rfl] at hv
      exact if_pos ((mem_between sound).2 hv)
    · rfl

/-- The tasks of which one waits, which takes no time; the other two take as long as each other. -/
def untimed : Graph := (buildLenient
  (waitingTasks.map fun t =>
    if t.id = TaskMap.b then t else { t with estimatedDuration := some (.ofNat 5) })
  [⟨TaskMap.b, TaskMap.a⟩]).1

open TaskMap in
/-- The path goes on to the task that takes no time. -/
theorem criticalPath_heaviest_of_untimed :
    untimed.Made ∧ untimed.Acyclic ∧ (∀ s ∈ some a, s ∈ untimed.ids) ∧ untimed.tasks ≠ [] ∧
      ∃ fin, untimed.IsFinish (untimed.InScope (some a) none) fin ∧
        untimed.IsCritical (.ofGraph untimed TieBreak.id.compare) (some a) none fin
          ⟨[a, b], 5⟩ := by
  have made : untimed.Made := .lenient _ _
  have ranked : Ranking.ofGraph untimed TieBreak.id.compare = ⟨untimed.ids⟩ :=
    Ranking.ofGraph_of_pairwise (by decide +kernel)
  have scheduled :
      untimed.executionOrder (.ofGraph untimed TieBreak.id.compare) = .ok [c, a, b] := by
    rw [ranked]
    decide +kernel
  have acyclic : untimed.Acyclic :=
    acyclic_of_executionOrder made.sound (Ranking.order_perm _ _) scheduled
  have loaded : untimed.tasks ≠ [] := List.ne_nil_of_length_pos (by decide +kernel)
  have known : ∀ s ∈ some a, s ∈ untimed.ids := by
    simp only [Option.mem_some_iff, forall_eq']
    decide +kernel
  have computed : untimed.criticalPath (.ofGraph untimed TieBreak.id.compare) (some a) none =
      .ok ⟨[a, b], 5⟩ := by
    rw [ranked]
    decide +kernel
  obtain ⟨-, -, heaviest⟩ :=
    criticalPath_heaviest made acyclic TieBreak.id.compare (some a) none known (by simp)
  obtain ⟨c, fin, found, isFinish, critical⟩ := heaviest loaded (by simp)
  obtain rfl : ⟨[a, b], 5⟩ = c := Except.ok.inj (computed.symm.trans found)
  exact ⟨made, acyclic, known, loaded, fin, isFinish, critical⟩

end Precedence.Graph

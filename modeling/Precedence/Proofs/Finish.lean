import Mathlib.Data.List.Chain
import Mathlib.Order.Bounds.Basic
import Precedence.Proofs.Chain
import Precedence.Proofs.Depth
/-!
The finish of a task: the greatest weight of a chain that ends in it. The chains kept for the tasks
of an order have these weights, as the best chain that ends in a prerequisite and then the task make
the best chain that ends in the task.
-/
namespace Precedence

theorem CriticalPath.add_eq_min (m n : Nat) :
    add (min greatest m) n = min greatest (m + n) := by
  unfold add
  omega

theorem CriticalPath.add_le_add {m m' : Nat} (h : m ≤ m') (n : Nat) : add m n ≤ add m' n := by
  unfold add
  omega

namespace CriticalPath.Chain

@[simp] theorem last_extend (v : TaskId) (n : Nat) (c : Option Chain) :
    (extend v n c).last = v := by
  cases c <;> rfl

/-- The tasks of a chain, from the first to the last. -/
def tasks (c : Chain) : List TaskId := c.path.path

@[simp] theorem getLast?_tasks (c : Chain) : c.tasks.getLast? = some c.last := by
  simp [tasks, path]

theorem tasks_ne_nil (c : Chain) : c.tasks ≠ [] := by
  simp [tasks, path]

@[simp] theorem tasks_extend_none (v : TaskId) (n : Nat) : (extend v n none).tasks = [v] := rfl

@[simp] theorem tasks_extend_some (v : TaskId) (n : Nat) (c : Chain) :
    (extend v n (some c)).tasks = c.tasks ++ [v] := List.reverse_cons

end CriticalPath.Chain

namespace Graph

open CriticalPath (Chain)

variable {g : Graph} {r : Ranking} {order : List TaskId}

/-! Weights and finishes -/

def duration (g : Graph) (v : TaskId) : Nat := ((g.task? v).map fun t => t.duration.toNat).getD 0

/-- The durations of some tasks together, as far as a word holds their sum. -/
def weight (g : Graph) (l : List TaskId) : Nat :=
  min CriticalPath.greatest (l.map g.duration).sum

theorem weight_concat (l : List TaskId) (v : TaskId) :
    g.weight (l ++ [v]) = CriticalPath.add (g.weight l) (g.duration v) := by
  simp [weight, CriticalPath.add_eq_min]

/-- A chain of tasks in scope that ends in a task. -/
structure EndsIn (g : Graph) (scope : TaskId → Prop) (v : TaskId) (l : List TaskId) : Prop where
  inside : ∀ u ∈ l, scope u
  chain : l.IsChain g.Link
  last : l.getLast? = some v

/-- The greatest weight of a chain that ends in a task. -/
def IsFinish (g : Graph) (scope : TaskId → Prop) (finish : TaskId → Nat) : Prop :=
  ∀ v, scope v → IsGreatest (g.weight '' {l | g.EndsIn scope v l}) (finish v)

/-- The best-ranked of the prerequisites in scope that have the greatest finish. -/
structure Follows (g : Graph) (r : Ranking) (scope : TaskId → Prop) (finish : TaskId → Nat)
    (p d : TaskId) : Prop where
  link : g.Link p d
  best : ∀ q, scope q → g.Link q d →
    finish q < finish p ∨ finish q = finish p ∧ r.rank p ≤ r.rank q

/-- A chain that ends in a task is the task alone or goes on with it after a prerequisite. -/
theorem EndsIn.cases {scope : TaskId → Prop} {v : TaskId} {l : List TaskId}
    (h : g.EndsIn scope v l) :
    l = [v] ∨ ∃ p l', l = l' ++ [v] ∧ g.Link p v ∧ g.EndsIn scope p l' := by
  obtain ⟨l', rfl⟩ := List.getLast?_eq_some_iff.1 h.last
  have chain := List.isChain_append.1 h.chain
  cases e : l'.getLast? with
  | none => exact .inl (by simp [List.getLast?_eq_none_iff.1 e])
  | some p =>
    refine .inr ⟨p, l', rfl, chain.2.2 p e v rfl, ?_, chain.1, e⟩
    intro u hu
    exact h.inside u (List.mem_append_left _ hu)

theorem EndsIn.concat {scope : TaskId → Prop} {p v : TaskId} {l : List TaskId}
    (h : g.EndsIn scope p l) (hv : scope v) (link : g.Link p v) : g.EndsIn scope v (l ++ [v]) where
  inside := by
    rw [List.forall_mem_append, List.forall_mem_singleton]
    exact ⟨h.inside, hv⟩
  chain := by
    rw [List.isChain_append]
    refine ⟨h.chain, List.isChain_singleton v, ?_⟩
    simpa [h.last] using link
  last := by simp

theorem IsFinish.le_of_link {scope : TaskId → Prop} {finish : TaskId → Nat}
    (h : g.IsFinish scope finish) {p v : TaskId} (hp : scope p) (hv : scope v) (link : g.Link p v) :
    finish p ≤ finish v := by
  obtain ⟨⟨l, ends, weighs⟩, -⟩ := h p hp
  rw [← weighs]
  calc g.weight l
    _ ≤ g.weight (l ++ [v]) := by simp only [weight, List.map_append, List.sum_append]; omega
    _ ≤ finish v := (h v hv).2 ⟨_, ends.concat hv link, rfl⟩

/-- Some task with no dependent in scope finishes no earlier than a given one. -/
theorem IsFinish.exists_last (acyclic : g.Acyclic) {finish : TaskId → Nat}
    (h : g.IsFinish (· ∈ order) finish) {v : TaskId} (hv : v ∈ order) :
    ∃ w ∈ order, finish v ≤ finish w ∧ ∀ d ∈ order, ¬ g.Link w d := by
  by_contra none
  have more : ∀ w ∈ order.filter (finish v ≤ finish ·),
      ∃ d ∈ order.filter (finish v ≤ finish ·), g.Link w d := by
    simp only [List.mem_filter, decide_eq_true_eq]
    rintro w ⟨hw, le⟩
    by_contra last
    refine none ⟨w, hw, le, fun d hd link => last ⟨d, ⟨hd, ?_⟩, link⟩⟩
    exact le.trans (h.le_of_link hw hd link)
  have nonempty : order.filter (finish v ≤ finish ·) ≠ [] :=
    List.ne_nil_of_mem (List.mem_filter.2 ⟨hv, decide_eq_true (Nat.le_refl _)⟩)
  -- Were each of these followed by another one there would be a round.
  obtain ⟨w, round⟩ := @Countdown.exists_round (Function.swap g.Link) _ nonempty more
  exact acyclic w (Relation.transGen_swap.1 round)

/-! Orders -/

/-- Has each task once, and before none of its prerequisites. -/
def Arranges (g : Graph) (order : List TaskId) : Prop :=
  order.Pairwise fun v w => v ≠ w ∧ ¬ g.Link w v

theorem IsSchedule.arranges (sound : g.Sound) (h : g.IsSchedule order) : g.Arranges order := by
  have once := h.perm.nodup_iff.2 sound.distinct
  have ends (before after : List TaskId) (e : order = before ++ after) : g.Arranges after := by
    induction after generalizing before with
    | nil => exact .nil
    | cons v after ih =>
      refine List.pairwise_cons.2 ⟨fun w hw => ?_, ih (before ++ [v]) (by simpa using e)⟩
      rw [e, List.nodup_append, List.nodup_cons] at once
      constructor
      · rintro rfl
        exact once.2.1.1 hw
      · intro link
        have first := h.ordered before v after e w (sound.mem_prerequisites.2 link)
        exact once.2.2 w first w (List.mem_cons_of_mem _ hw) rfl
  exact ends [] order rfl

theorem Arranges.nodup (h : g.Arranges order) : order.Nodup := h.imp fun both => both.1

theorem Arranges.not_mem (sound : g.Sound) {before after : List TaskId} {v p : TaskId}
    (h : g.Arranges (before ++ v :: after)) (link : g.Link p v) : p ∉ v :: after := by
  intro hp
  rcases List.mem_cons.1 hp with rfl | hp
  · exact sound.ne_of_link link rfl
  · exact ((List.pairwise_cons.1 (List.pairwise_append.1 h).2.1).1 p hp).2 link

/-- What holds of a task when it holds of all its prerequisites in an order holds of the whole
order. -/
theorem Arranges.induction (sound : g.Sound) (h : g.Arranges order) {P : TaskId → Prop}
    (step : ∀ v ∈ order, (∀ p ∈ order, g.Link p v → P p) → P v) : ∀ v ∈ order, P v := by
  -- On how much of the order is done: a prerequisite stands nowhere but in that part.
  have starts (before after : List TaskId) (e : order = before ++ after) : ∀ v ∈ before, P v := by
    induction before using List.reverseRecOn generalizing after with
    | nil => simp
    | append_singleton before v ih =>
      have e' : order = before ++ v :: after := by simpa using e
      have earlier := ih (v :: after) e'
      rw [List.forall_mem_append, List.forall_mem_singleton]
      refine ⟨earlier, step v (by simp [e]) fun p hp link => ?_⟩
      rw [e'] at hp h
      exact earlier p ((List.mem_append.1 hp).resolve_right (h.not_mem sound link))
  exact starts order [] (by simp)

/-! The chains of an order -/

/-- The chain that is kept for a task. -/
def chain? (g : Graph) (r : Ranking) (order : List TaskId) (v : TaskId) : Option Chain :=
  (g.chainsFrom r [] order).find? (·.last == v)

theorem chainsFrom_append (known : List Chain) (before after : List TaskId) :
    g.chainsFrom r known (before ++ after) =
      g.chainsFrom r (g.chainsFrom r known before) after := by
  induction before generalizing known with
  | nil => rfl
  | cons v before ih => exact ih _

theorem find?_chainsFrom {known : List Chain} {l : List TaskId} {v : TaskId} (other : v ∉ l) :
    (g.chainsFrom r known l).find? (·.last == v) = known.find? (·.last == v) := by
  induction l generalizing known with
  | nil => rfl
  | cons w l ih =>
    have ne : w ≠ v := (List.ne_of_not_mem_cons other).symm
    rw [chainsFrom, ih (List.not_mem_of_not_mem_cons other),
      List.find?_cons_of_neg (by simpa using ne)]

@[simp] theorem map_last_chainsFrom (known : List Chain) (l : List TaskId) :
    (g.chainsFrom r known l).map Chain.last = l.reverse ++ known.map Chain.last := by
  induction l generalizing known with
  | nil => rfl
  | cons v l ih => simp [chainsFrom, ih]

theorem last_of_chain? {v : TaskId} {c : Chain} (h : g.chain? r order v = some c) : c.last = v := by
  simpa using List.find?_some h

theorem chain?_of_mem (once : order.Nodup) {c : Chain} (h : c ∈ g.chainsFrom r [] order) :
    g.chain? r order c.last = some c := by
  have apart : ((g.chainsFrom r [] order).map Chain.last).Nodup := by
    simpa using once
  cases e : g.chain? r order c.last with
  | none => simpa using List.find?_eq_none.1 e c h
  | some c' =>
    rw [List.inj_on_of_nodup_map apart (List.mem_of_find?_eq_some e) h (last_of_chain? e)]

theorem mem_of_chain? {v : TaskId} {c : Chain} (h : g.chain? r order v = some c) : v ∈ order := by
  by_contra other
  have unkept : g.chain? r order v = none := find?_chainsFrom other
  rw [unkept] at h
  contradiction

/-- The chain of a task goes on from the best chain of its prerequisites. -/
theorem chain?_eq (sound : g.Sound) (h : g.Arranges order) {v : TaskId} (hv : v ∈ order) :
    g.chain? r order v = some (.extend v (g.duration v)
      (Chain.best? r ((g.prerequisites v).filterMap (g.chain? r order)))) := by
  obtain ⟨before, after, rfl⟩ := List.append_of_mem hv
  have later : v ∉ after := (List.nodup_cons.1 (List.nodup_append.1 h.nodup).2.1).1
  have ahead : (g.prerequisites v).filterMap (g.chain? r (before ++ v :: after)) =
      (g.prerequisites v).filterMap fun p => (g.chainsFrom r [] before).find? (·.last == p) := by
    apply List.filterMap_congr
    intro p hp
    rw [chain?, chainsFrom_append]
    exact find?_chainsFrom (h.not_mem sound (sound.mem_prerequisites.1 hp))
  rw [ahead, chain?, chainsFrom_append, chainsFrom, find?_chainsFrom later,
    List.find?_cons_of_pos (by simp)]
  rfl

def finish (g : Graph) (r : Ranking) (order : List TaskId) (v : TaskId) : Nat :=
  ((g.chain? r order v).map Chain.finish).getD 0

theorem finish_eq {v : TaskId} {c : Chain} (h : g.chain? r order v = some c) :
    g.finish r order v = c.finish := by
  simp [finish, h]

/-- A chain that is kept for its last task. -/
structure Settles (g : Graph) (r : Ranking) (order : List TaskId) (c : Chain) : Prop where
  inside : ∀ u ∈ c.tasks, u ∈ order
  follows : c.tasks.IsChain (g.Follows r (· ∈ order) (g.finish r order))
  begins : ∀ u ∈ c.tasks.head?, ∀ p, g.Link p u → p ∉ order
  weighs : c.finish = g.weight c.tasks
  heaviest : ∀ l, g.EndsIn (· ∈ order) c.last l → g.weight l ≤ c.finish

/-- A task alone, where it has no prerequisite in the order. -/
theorem settles_single {v : TaskId} (hv : v ∈ order) (first : ∀ p, g.Link p v → p ∉ order) :
    Settles g r order (.extend v (g.duration v) none) where
  inside := by simpa using hv
  follows := by simp
  begins := by simpa using first
  weighs := weight_concat [] v ▸ rfl
  heaviest := by
    intro l ends
    rcases ends.cases with rfl | ⟨p, l', rfl, link, before⟩
    · exact Nat.le_of_eq (weight_concat [] v)
    · exact absurd (before.inside p (List.mem_of_getLast? before.last)) (first p link)

/-- The best chain of a prerequisite, and then the task. -/
theorem Settles.extend {c : Chain} (h : Settles g r order c) {v : TaskId} (hv : v ∈ order)
    (follows : g.Follows r (· ∈ order) (g.finish r order) c.last v)
    (bound : ∀ p ∈ order, g.Link p v → ∀ l, g.EndsIn (· ∈ order) p l → g.weight l ≤ c.finish) :
    Settles g r order (.extend v (g.duration v) (some c)) where
  inside := by
    simp only [Chain.tasks_extend_some, List.forall_mem_append, List.forall_mem_singleton]
    exact ⟨h.inside, hv⟩
  follows := by
    rw [Chain.tasks_extend_some, List.isChain_append]
    refine ⟨h.follows, List.isChain_singleton v, ?_⟩
    simpa using follows
  begins := by
    intro u hu
    rw [Chain.tasks_extend_some, List.head?_append_of_ne_nil _ c.tasks_ne_nil] at hu
    exact h.begins u hu
  weighs := by
    rw [Chain.tasks_extend_some, weight_concat, ← h.weighs]
    rfl
  heaviest := by
    intro l ends
    change g.weight l ≤ CriticalPath.add c.finish (g.duration v)
    rcases ends.cases with rfl | ⟨p, l', rfl, link, before⟩
    · exact (Nat.le_of_eq (weight_concat [] v)).trans (CriticalPath.add_le_add (by simp [weight]) _)
    · have hp := before.inside p (List.mem_of_getLast? before.last)
      rw [weight_concat]
      exact CriticalPath.add_le_add (bound p hp link l' before) _

/-- A chain is kept for a task and settles it. -/
def Settled (g : Graph) (r : Ranking) (order : List TaskId) (v : TaskId) : Prop :=
  ∃ c, g.chain? r order v = some c ∧ Settles g r order c

theorem Settled.settles {v : TaskId} (h : g.Settled r order v) {c : Chain}
    (kept : g.chain? r order v = some c) : Settles g r order c := by
  obtain ⟨c', kept', settles⟩ := h
  obtain rfl : c' = c := Option.some.inj (kept'.symm.trans kept)
  exact settles

theorem Settled.step (sound : g.Sound) (h : g.Arranges order) {v : TaskId} (hv : v ∈ order)
    (settled : ∀ p ∈ order, g.Link p v → g.Settled r order p) : g.Settled r order v := by
  refine ⟨_, chain?_eq sound h hv, ?_⟩
  cases best : Chain.best? r ((g.prerequisites v).filterMap (g.chain? r order)) with
  | none =>
    -- No prerequisite is in the order, else a chain would be kept for it.
    apply settles_single hv
    intro p link hp
    obtain ⟨c, kept, -⟩ := settled p hp link
    have unkept := List.filterMap_eq_nil_iff.1 (Chain.best?_eq_none_iff.1 best) p
      (sound.mem_prerequisites.2 link)
    rw [kept] at unkept
    contradiction
  | some c =>
    obtain ⟨p, hp, kept⟩ := List.mem_filterMap.1 (Chain.mem_of_best? best)
    obtain rfl := last_of_chain? kept
    have link : g.Link c.last v := sound.mem_prerequisites.1 hp
    have settles := (settled c.last (mem_of_chain? kept) link).settles kept
    have top {q : TaskId} {b : Chain} (linked : g.Link q v) (kept : g.chain? r order q = some b) :
        Chain.Le r b c := Chain.le_of_best? best b
      (List.mem_filterMap.2 ⟨q, sound.mem_prerequisites.2 linked, kept⟩)
    apply settles.extend hv
    · refine ⟨link, fun q hq linked => ?_⟩
      obtain ⟨b, kept', -⟩ := settled q hq linked
      rw [finish_eq kept', finish_eq kept, ← last_of_chain? kept']
      exact top linked kept'
    · intro q hq linked l ends
      obtain ⟨b, kept', settles'⟩ := settled q hq linked
      have weighed := settles'.heaviest l (last_of_chain? kept' ▸ ends)
      have le := top linked kept'
      unfold Chain.Le at le
      omega

theorem Arranges.settled (sound : g.Sound) (h : g.Arranges order) :
    ∀ v ∈ order, g.Settled r order v :=
  h.induction sound fun _ hv settled => Settled.step sound h hv settled

/-- The sums of the chains that are kept are the finishes. -/
theorem isFinish_finish (sound : g.Sound) (h : g.Arranges order) :
    g.IsFinish (· ∈ order) (g.finish r order) := by
  intro v hv
  obtain ⟨c, kept, settles⟩ := h.settled (r := r) sound v hv
  have last := last_of_chain? kept
  rw [finish_eq kept]
  constructor
  · refine ⟨c.tasks, ⟨settles.inside, settles.follows.imp fun _ _ both => both.link, ?_⟩,
      settles.weighs.symm⟩
    rw [c.getLast?_tasks, last]
  · rintro _ ⟨l, ends, rfl⟩
    exact settles.heaviest l (last ▸ ends)

end Graph
end Precedence

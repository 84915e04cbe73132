import Mathlib.Data.List.Perm.Subperm
import Mathlib.Order.WellFoundedSet
import Precedence.Graph.Schedule
import Precedence.Proofs.Graph
/-!
Scheduling by counters. The counter of a task is the number of its prerequisites that are not
scheduled, so no counter falls below zero, every task comes after its prerequisites, and what is
left over when no task is free has a cycle.
-/
namespace Precedence.Countdown

open Relation

/-! The queue of ranks and the counters -/

theorem enqueue_perm (k : Nat) (ks : List Nat) : (enqueue k ks).Perm (k :: ks) := by
  induction ks with
  | nil => rfl
  | cons m ks ih =>
    rw [enqueue]
    split
    · rfl
    · exact (ih.cons m).trans (.swap k m ks)

theorem foldl_enqueue_perm {α : Type} (f : α → Nat) (xs : List α) (ks : List Nat) :
    (xs.foldl (fun ks x => enqueue (f x) ks) ks).Perm (xs.map f ++ ks) := by
  induction xs generalizing ks with
  | nil => rfl
  | cons x xs ih =>
    exact (ih _).trans (((enqueue_perm (f x) ks).append_left _).trans List.perm_middle)

theorem relax_keys (r : Ranking) (c : Countdown) (w : TaskId) :
    (c.relax r w).counters.map (·.1) = c.counters.map (·.1) := by
  rw [relax, List.map_map]
  apply List.map_congr_left
  intro x _
  rw [Function.comp_apply]
  split
  · next e => exact e.symm
  · rfl

theorem relax_counter_ne (r : Ranking) (c : Countdown) {v w : TaskId} (h : v ≠ w) :
    (c.relax r w).counter v = c.counter v := by
  have same (counters : List (TaskId × Int)) (n : Int) :
      (counters.map fun x => if x.1 = w then (w, n) else x).lookup v = counters.lookup v := by
    induction counters with
    | nil => rfl
    | cons x counters ih =>
      rw [List.map_cons, List.lookup_cons, List.lookup_cons, ih]
      by_cases same : x.1 = w
      · rw [if_pos same, beq_eq_false_iff_ne.2 h, same, beq_eq_false_iff_ne.2 h]
      · rw [if_neg same]
  rw [counter, relax, same]
  rfl

theorem relax_counter_self (r : Ranking) (c : Countdown) {w : TaskId}
    (h : w ∈ c.counters.map (·.1)) : (c.relax r w).counter w = c.counter w - 1 := by
  have found (counters : List (TaskId × Int)) (n : Int) (h : w ∈ counters.map (·.1)) :
      (counters.map fun x => if x.1 = w then (w, n) else x).lookup w = some n := by
    induction counters with
    | nil => exact absurd h List.not_mem_nil
    | cons x counters ih =>
      rw [List.map_cons, List.lookup_cons]
      by_cases same : x.1 = w
      · rw [if_pos same, beq_self_eq_true]
      · rw [if_neg same, beq_eq_false_iff_ne.2 (Ne.symm same)]
        exact ih ((List.mem_cons.1 h).resolve_left (Ne.symm same))
  rw [counter, relax, found _ _ h]
  rfl

theorem mem_relax_free {r : Ranking} {c : Countdown} {w : TaskId} {k : Nat} :
    k ∈ (c.relax r w).free ↔ (k = r.rank w ∧ c.counter w = 1) ∨ k ∈ c.free := by
  rw [relax]
  dsimp only
  split
  · next zero =>
    rw [(enqueue_perm _ _).mem_iff, List.mem_cons]
    have one : c.counter w = 1 := by omega
    simp [one]
  · next more =>
    have other : c.counter w ≠ 1 := by omega
    simp [other]

/-! The invariant -/

/-- The invariant of a schedule whose last task is still to be counted off for some dependents. -/
structure Inv (g : Graph) (r : Ranking) (todo : List TaskId) (c : Countdown) : Prop where
  keys : c.counters.map (·.1) = g.ids
  counter : ∀ v ∈ g.ids,
    c.counter v = (g.prerequisites v).countP (· ∉ c.order) + if v ∈ todo then 1 else 0
  free : ∀ v ∈ g.ids, r.rank v ∈ c.free ↔ c.counter v = 0 ∧ v ∉ c.order
  ranked : ∀ k ∈ c.free, ∃ v ∈ g.ids, r.rank v = k
  free_distinct : c.free.Nodup
  distinct : c.order.Nodup
  inside : ∀ v ∈ c.order, v ∈ g.ids
  ordered : ∀ before v after, c.order = before ++ v :: after → ∀ p ∈ g.prerequisites v, p ∈ before
  todo_new : ∀ w ∈ todo, w ∈ g.ids ∧ w ∉ c.order

variable {g : Graph} {r : Ranking}

theorem lookup_map_self {α : Type} {ids : List TaskId} {v : TaskId} (h : v ∈ ids) (f : TaskId → α) :
    (ids.map fun v => (v, f v)).lookup v = some (f v) := by
  induction ids with
  | nil => exact absurd h List.not_mem_nil
  | cons w ids ih =>
    rw [List.map_cons, List.lookup_cons]
    by_cases same : v = w
    · rw [same, beq_self_eq_true]
    · rw [beq_eq_false_iff_ne.2 same]
      exact ih ((List.mem_cons.1 h).resolve_left same)

/-! The start -/

@[simp] theorem keys_start : (start g r).counters.map (·.1) = g.ids := by
  rw [start, List.map_map]
  exact List.map_id _

theorem counter_start {v : TaskId} (hv : v ∈ g.ids) :
    (start g r).counter v = ((g.prerequisites v).length : Int) := by
  rw [Countdown.counter, start, lookup_map_self hv]
  rfl

@[simp] theorem mem_counters_start {x : TaskId × Int} : x ∈ (start g r).counters ↔
    x.1 ∈ g.ids ∧ x.2 = ((g.prerequisites x.1).length : Int) := by
  rw [start, List.mem_map]
  constructor
  · rintro ⟨v, hv, rfl⟩
    exact ⟨hv, rfl⟩
  · rintro ⟨hv, e⟩
    exact ⟨x.1, hv, Prod.ext rfl e.symm⟩

theorem free_start : (start g r).free.Perm
    (((start g r).counters.filter (·.2 = 0)).map fun x => r.rank x.1) := by
  have perm := foldl_enqueue_perm (fun x : TaskId × Int => r.rank x.1)
    ((start g r).counters.filter (·.2 = 0)) []
  rwa [List.append_nil] at perm

theorem mem_free_start (ranks : r.order.Perm g.ids) {v : TaskId} (hv : v ∈ g.ids) :
    r.rank v ∈ (start g r).free ↔ (start g r).counter v = 0 := by
  rw [free_start.mem_iff, List.mem_map]
  constructor
  · rintro ⟨x, hx, e⟩
    obtain ⟨hx, zero⟩ := List.mem_filter.1 hx
    obtain ⟨hx, e'⟩ := mem_counters_start.1 hx
    obtain rfl := Ranking.rank_inj (ranks.mem_iff.2 hx) e
    rw [counter_start hx, ← e']
    simpa using zero
  · intro zero
    refine ⟨(v, 0), List.mem_filter.2 ⟨mem_counters_start.2 ⟨hv, ?_⟩, by simp⟩, rfl⟩
    rw [← counter_start hv, zero]

theorem nodup_free_start (sound : g.Sound) (ranks : r.order.Perm g.ids) :
    (start g r).free.Nodup := by
  have distinct : ((start g r).counters.filter (·.2 = 0)).map (·.1) |>.Nodup :=
    (keys_start ▸ sound.distinct).sublist (List.filter_sublist.map _)
  rw [free_start.nodup_iff, show (fun x : TaskId × Int => r.rank x.1) = r.rank ∘ (·.1) from rfl,
    ← List.map_map]
  refine List.Nodup.map_on (fun v hv w _ e => Ranking.rank_inj (ranks.mem_iff.2 ?_) e) distinct
  obtain ⟨x, hx, rfl⟩ := List.mem_map.1 hv
  exact (mem_counters_start.1 (List.mem_filter.1 hx).1).1

theorem inv_start (sound : g.Sound) (ranks : r.order.Perm g.ids) : Inv g r [] (start g r) where
  keys := keys_start
  counter v hv := by
    rw [counter_start hv, if_neg List.not_mem_nil, Int.add_zero]
    congr 1
    exact (List.countP_eq_length.2 fun p _ => by simp [start]).symm
  free v hv := (mem_free_start ranks hv).trans (and_iff_left List.not_mem_nil).symm
  ranked k hk := by
    obtain ⟨x, hx, rfl⟩ := List.mem_map.1 (free_start.mem_iff.1 hk)
    exact ⟨x.1, (mem_counters_start.1 (List.mem_filter.1 hx).1).1, rfl⟩
  free_distinct := nodup_free_start sound ranks
  distinct := List.nodup_nil
  inside v hv := absurd hv List.not_mem_nil
  ordered before v after e := absurd e (by simp [start])
  todo_new w hw := absurd hw List.not_mem_nil

/-! Steps -/

theorem countP_schedule {order ps : List TaskId} {v : TaskId} (new : v ∉ order)
    (distinct : ps.Nodup) :
    ps.countP (· ∉ order) = ps.countP (· ∉ order ++ [v]) + if v ∈ ps then 1 else 0 := by
  induction ps with
  | nil => simp
  | cons p ps ih =>
    obtain ⟨off, distinct⟩ := List.nodup_cons.1 distinct
    have rest := ih distinct
    rw [List.countP_cons, List.countP_cons, rest]
    by_cases same : p = v
    · subst same
      simp [off, new]
    · have other : v ≠ p := Ne.symm same
      have head : (decide (p ∉ order ++ [v]) = true) = (decide (p ∉ order) = true) := by
        simp [same]
      simp only [head, List.mem_cons, other, false_or]
      omega

theorem prerequisites_scheduled {c : Countdown} (h : Inv g r [] c) {v : TaskId} (hv : v ∈ g.ids)
    (zero : c.counter v = 0) : ∀ p ∈ g.prerequisites v, p ∈ c.order := by
  have waiting := h.counter v hv
  rw [zero, if_neg List.not_mem_nil, Int.add_zero] at waiting
  have counted : (g.prerequisites v).countP (· ∉ c.order) = 0 := Int.ofNat_eq_zero.1 waiting.symm
  intro p hp
  simpa using List.countP_eq_zero.1 counted p hp

theorem Inv.not_mem_of_link {todo : List TaskId} {c : Countdown} (sound : g.Sound)
    (h : Inv g r todo c) {v w : TaskId} (link : g.Link v w) (new : v ∉ c.order) : w ∉ c.order := by
  intro old
  obtain ⟨before, after, e⟩ := List.append_of_mem old
  have earlier := h.ordered before w after e v (sound.mem_prerequisites.2 link)
  exact new (e ▸ List.mem_append_left _ earlier)

theorem ordered_concat {order : List TaskId} {v : TaskId}
    (ordered : ∀ before w after, order = before ++ w :: after → ∀ p ∈ g.prerequisites w, p ∈ before)
    (last : ∀ p ∈ g.prerequisites v, p ∈ order) (before : List TaskId) (w : TaskId)
    (after : List TaskId) (parts : order ++ [v] = before ++ w :: after) :
    ∀ p ∈ g.prerequisites w, p ∈ before := by
  rcases List.eq_nil_or_concat after with rfl | ⟨after, x, rfl⟩
  · obtain ⟨rfl, same⟩ := List.append_inj' parts rfl
    obtain rfl := List.singleton_inj.1 same
    exact last
  · have parts' : order ++ [v] = (before ++ w :: after) ++ [x] := by
      simpa using parts
    exact ordered before w after (List.append_inj' parts' rfl).1

theorem Inv.take {c : Countdown} (sound : g.Sound) (ranks : r.order.Perm g.ids)
    (h : Inv g r [] c) {v : TaskId} (hv : v ∈ g.ids) {free : List Nat}
    (e : c.free = r.rank v :: free) : Inv g r (g.dependents v) (c.take v free) := by
  obtain ⟨zero, new⟩ := (h.free v hv).1 (e ▸ List.mem_cons_self)
  obtain ⟨off, free_distinct⟩ := List.nodup_cons.1 (e ▸ h.free_distinct)
  refine
    { keys := h.keys
      counter := fun w hw => ?_
      free := fun w hw => ?_
      ranked := fun k hk => h.ranked k (e ▸ List.mem_cons_of_mem _ hk)
      free_distinct
      distinct := ?_
      inside := fun w hw => ?_
      ordered := ordered_concat h.ordered (prerequisites_scheduled h hv zero)
      todo_new := fun w hw => ?_ }
  -- One prerequisite less is counted for a dependent, which makes up for its place among those to
  -- do.
  · have counted := h.counter w hw
    have dependent : w ∈ g.dependents v ↔ v ∈ g.prerequisites w := by simp [sound]
    rw [if_neg List.not_mem_nil, countP_schedule new (sound.nodup_prerequisites w)] at counted
    simp only [Countdown.take, dependent]
    show c.counter w = _
    rw [counted]
    split <;> simp
  · show r.rank w ∈ free ↔ c.counter w = 0 ∧ w ∉ c.order ++ [v]
    by_cases same : w = v
    · subst same
      simp [off]
    · have other : r.rank w ≠ r.rank v := fun e =>
        same (Ranking.rank_inj (ranks.mem_iff.2 hw) e)
      have before := h.free w hw
      rw [e, List.mem_cons] at before
      simp only [other, false_or] at before
      rw [before]
      simp [same]
  · exact List.nodup_append.2 ⟨h.distinct, List.nodup_singleton v, fun a ha b hb same =>
      new (List.mem_singleton.1 hb ▸ same ▸ ha)⟩
  · rcases List.mem_append.1 hw with hw | hw
    · exact h.inside w hw
    · exact List.mem_singleton.1 hw ▸ hv
  · have link := sound.mem_dependents.1 hw
    refine ⟨(sound.mem_of_link link).2, fun old => ?_⟩
    rcases List.mem_append.1 old with old | same
    · exact h.not_mem_of_link sound link new old
    · exact sound.ne_of_link link (List.mem_singleton.1 same).symm

theorem Inv.relax {c : Countdown} (ranks : r.order.Perm g.ids) {w : TaskId} {todo : List TaskId}
    (h : Inv g r (w :: todo) c) (once : w ∉ todo) : Inv g r todo (c.relax r w) := by
  obtain ⟨there, new⟩ := h.todo_new w List.mem_cons_self
  have key : w ∈ c.counters.map (·.1) := h.keys ▸ there
  have counted := h.counter w there
  rw [if_pos List.mem_cons_self] at counted
  have waits : r.rank w ∉ c.free := by
    intro hw
    have := ((h.free w there).1 hw).1
    omega
  have other {v : TaskId} (hv : v ∈ g.ids) (ne : v ≠ w) : r.rank v ≠ r.rank w := fun e =>
    ne (Ranking.rank_inj (ranks.mem_iff.2 hv) e)
  refine
    { keys := (c.relax_keys r w).trans h.keys
      counter := fun v hv => ?_
      free := fun v hv => ?_
      ranked := fun k hk => ?_
      free_distinct := ?_
      distinct := h.distinct
      inside := h.inside
      ordered := h.ordered
      todo_new := fun v hv => h.todo_new v (List.mem_cons_of_mem _ hv) }
  · show (c.relax r w).counter v = (g.prerequisites v).countP (· ∉ c.order) + _
    by_cases same : v = w
    · subst same
      rw [relax_counter_self r c key, counted, if_neg once]
      omega
    · rw [relax_counter_ne r c same, h.counter v hv]
      simp [same]
  · show _ ↔ _ ∧ v ∉ c.order
    rw [mem_relax_free]
    by_cases same : v = w
    · subst same
      rw [relax_counter_self r c key]
      simp only [waits, or_false, true_and, new, not_false_eq_true, and_true]
      omega
    · rw [relax_counter_ne r c same, h.free v hv]
      simp [other hv same]
  · rcases mem_relax_free.1 hk with ⟨rfl, -⟩ | hk
    · exact ⟨w, there, rfl⟩
    · exact h.ranked k hk
  · rw [Countdown.relax]
    dsimp only
    split
    · exact (enqueue_perm _ _).nodup_iff.2 (List.nodup_cons.2 ⟨waits, h.free_distinct⟩)
    · exact h.free_distinct

theorem Inv.relaxAll {c : Countdown} (ranks : r.order.Perm g.ids) {todo rest : List TaskId}
    (h : Inv g r (todo ++ rest) c) (once : (todo ++ rest).Nodup) :
    Inv g r rest (todo.foldl (Countdown.relax r) c) := by
  induction todo generalizing c with
  | nil => exact h
  | cons w todo ih =>
    obtain ⟨off, once⟩ := List.nodup_cons.1 once
    exact ih (h.relax ranks off) once

/-- What a step does: it schedules the free task of the best rank and counts it off for its
dependents. -/
theorem step_cases {c c' : Countdown} (ranks : r.order.Perm g.ids) (h : Inv g r [] c)
    (step : c.step g r = some c') : ∃ v ∈ g.ids, ∃ free, c.free = r.rank v :: free ∧
      c' = (g.dependents v).foldl (Countdown.relax r) (c.take v free) := by
  unfold Countdown.step at step
  split at step
  · contradiction
  · next k free e =>
    obtain ⟨v, hv, rfl⟩ := h.ranked k (e ▸ List.mem_cons_self)
    rw [Ranking.task?_rank (ranks.mem_iff.2 hv)] at step
    exact ⟨v, hv, free, e, (Option.some.inj step).symm⟩

theorem Inv.step {c c' : Countdown} (sound : g.Sound) (ranks : r.order.Perm g.ids)
    (h : Inv g r [] c) (step : c.step g r = some c') : Inv g r [] c' := by
  obtain ⟨v, hv, free, e, rfl⟩ := step_cases ranks h step
  have taken := h.take sound ranks hv e
  rw [← List.append_nil (g.dependents v)] at taken
  exact taken.relaxAll ranks (by simpa using sound.nodup_dependents v)

@[simp] theorem order_foldl_relax (ws : List TaskId) (c : Countdown) :
    (ws.foldl (Countdown.relax r) c).order = c.order := by
  induction ws generalizing c with
  | nil => rfl
  | cons w ws ih => exact ih _

theorem Inv.run {c : Countdown} (sound : g.Sound) (ranks : r.order.Perm g.ids) (h : Inv g r [] c)
    (fuel : Nat) : Inv g r [] (run g r fuel c) := by
  induction fuel generalizing c with
  | zero => exact h
  | succ fuel ih =>
    rw [Countdown.run]
    split
    · next step => exact ih (h.step sound ranks step)
    · exact h

theorem Inv.free_eq_nil {c : Countdown} (h : Inv g r [] c)
    (all : g.ids.length ≤ c.order.length) : c.free = [] := by
  have perm : c.order.Perm g.ids :=
    (List.subperm_of_subset h.distinct h.inside).perm_of_length_le all
  rw [List.eq_nil_iff_forall_not_mem]
  intro k hk
  obtain ⟨v, hv, rfl⟩ := h.ranked k hk
  exact ((h.free v hv).1 hk).2 (perm.mem_iff.2 hv)

theorem run_free {c : Countdown} (sound : g.Sound) (ranks : r.order.Perm g.ids)
    (h : Inv g r [] c) {fuel : Nat} (enough : g.ids.length ≤ c.order.length + fuel) :
    (run g r fuel c).free = [] := by
  induction fuel generalizing c with
  | zero => exact h.free_eq_nil enough
  | succ fuel ih =>
    rw [Countdown.run]
    split
    · next c' step =>
      apply ih (h.step sound ranks step)
      obtain ⟨v, -, free, -, rfl⟩ := step_cases ranks h step
      rw [order_foldl_relax, Countdown.take]
      simp only [List.length_append, List.length_singleton]
      omega
    · next stopped =>
      unfold Countdown.step at stopped
      split at stopped
      · assumption
      · next k free e =>
        obtain ⟨v, hv, rfl⟩ := h.ranked k (e ▸ List.mem_cons_self)
        rw [Ranking.task?_rank (ranks.mem_iff.2 hv)] at stopped
        contradiction

/-- The counters that a step counts down are all above zero when their turn comes. -/
def IsSafe (g : Graph) (r : Ranking) (c : Countdown) : Prop :=
  ∀ k free v, c.free = k :: free → r.task? k = some v →
    ∀ before w after, g.dependents v = before ++ w :: after →
      0 < (before.foldl (relax r) (c.take v free)).counter w

theorem isSafe_run (sound : g.Sound) (ranks : r.order.Perm g.ids) (fuel : Nat) :
    IsSafe g r (run g r fuel (start g r)) := by
  intro k free v e task before w after parts
  have inv := (inv_start sound ranks).run sound ranks fuel
  obtain ⟨u, hu, rfl⟩ := inv.ranked k (e ▸ List.mem_cons_self)
  rw [Ranking.task?_rank (ranks.mem_iff.2 hu)] at task
  obtain rfl := Option.some.inj task
  have taken := inv.take sound ranks hu e
  have once := sound.nodup_dependents u
  rw [parts] at taken once
  have here := taken.relaxAll ranks once
  have counted := here.counter w (here.todo_new w List.mem_cons_self).1
  rw [if_pos List.mem_cons_self] at counted
  omega

/-! The end of a schedule -/

/-- Where each of finitely many tasks has another one before it, there is a round. -/
theorem exists_round {before : TaskId → TaskId → Prop} {vs : List TaskId} (nonempty : vs ≠ [])
    (h : ∀ v ∈ vs, ∃ p ∈ vs, before p v) : ∃ v, TransGen before v v := by
  by_contra noRound
  rw [not_exists] at noRound
  have : IsStrictOrder TaskId (TransGen before) :=
    { irrefl := noRound, trans := fun _ _ _ => .trans }
  -- Without a round the relation is an order, and a finite set has a least element in it.
  have wf : {v | v ∈ vs}.WellFoundedOn (TransGen before) := vs.finite_toSet.wellFoundedOn
  obtain ⟨v, hv⟩ := List.exists_mem_of_ne_nil vs nonempty
  obtain ⟨m, hm, least⟩ := wf.has_min (Set.univ : Set {v // v ∈ vs}) ⟨⟨v, hv⟩, trivial⟩
  obtain ⟨p, hp, link⟩ := h m.1 m.2
  exact least ⟨p, hp⟩ trivial (.single link)

/-- Where nothing is free and some tasks are not scheduled, these have a cycle. -/
theorem Inv.not_acyclic {c : Countdown} (sound : g.Sound) (h : Inv g r [] c) (stuck : c.free = [])
    (less : c.order.length < g.ids.length) : ¬ g.Acyclic := by
  have nonempty : g.ids.filter (· ∉ c.order) ≠ [] := by
    intro empty
    have all : g.ids ⊆ c.order := by
      intro v hv
      simpa using List.filter_eq_nil_iff.1 empty v hv
    have := (List.subperm_of_subset sound.distinct all).length_le
    omega
  -- A task that is not scheduled waits for a prerequisite that is not scheduled either.
  obtain ⟨v, round⟩ := @exists_round g.Link _ nonempty fun v hv => by
    obtain ⟨hv, new⟩ := List.mem_filter.1 hv
    have new : v ∉ c.order := by simpa using new
    have waits : c.counter v ≠ 0 := by
      intro zero
      have := (h.free v hv).2 ⟨zero, new⟩
      rw [stuck] at this
      exact absurd this List.not_mem_nil
    rw [h.counter v hv, if_neg List.not_mem_nil, Int.add_zero] at waits
    obtain ⟨p, hp, unscheduled⟩ := List.countP_pos_iff.1
      (Nat.pos_of_ne_zero fun zero => waits (by rw [zero]; rfl))
    have link := sound.mem_prerequisites.1 hp
    exact ⟨p, List.mem_filter.2 ⟨(sound.mem_of_link link).1, unscheduled⟩, link⟩
  exact fun acyclic => acyclic v round

theorem Inv.acyclic {c : Countdown} (sound : g.Sound) (h : Inv g r [] c)
    (all : g.ids.length ≤ c.order.length) : g.Acyclic := by
  have perm : c.order.Perm g.ids :=
    (List.subperm_of_subset h.distinct h.inside).perm_of_length_le all
  have earlier {p d : TaskId} (link : g.Link p d) : c.order.idxOf p < c.order.idxOf d := by
    obtain ⟨before, after, e⟩ := List.append_of_mem (perm.mem_iff.2 (sound.mem_of_link link).2)
    have first := h.ordered before d after e p (sound.mem_prerequisites.2 link)
    have new : d ∉ before := by
      intro old
      have distinct := h.distinct
      rw [e, List.nodup_append] at distinct
      exact distinct.2.2 d old d List.mem_cons_self rfl
    rw [e, List.idxOf_append_of_mem first, List.idxOf_append_of_notMem new, List.idxOf_cons_self]
    have := List.idxOf_lt_length_iff.2 first
    omega
  intro v round
  have climbs {a b : TaskId} (path : TransGen g.Link a b) : c.order.idxOf a < c.order.idxOf b := by
    induction path with
    | single link => exact earlier link
    | tail _ link ih => exact Nat.lt_trans ih (earlier link)
  exact Nat.lt_irrefl _ (climbs round)

end Precedence.Countdown

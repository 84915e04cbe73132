import Precedence.Proofs.Cycle
import Precedence.Proofs.Steps
/-!
Shortest paths. A search puts every task into its queue once, in the order of the distances, and
notes where it was met from. So what it notes leads back to the start without a detour, also where
there are cycles, and one that ends without the goal has met everything that can be reached.
-/
namespace Precedence.Trail

open Relation
open Search (Follows)

variable {next : TaskId → List TaskId} {start goal v w : TaskId} {t : Trail}
    {ids near far : List TaskId}
  {on : Option TaskId} {m n fuel : Nat}

@[simp] theorem hasMet_start (start : TaskId) (t : Trail) : t.hasMet start start = true := by
  rw [hasMet, beq_self_eq_true, Bool.true_or]

theorem eq_start_of_hasMet {queue : List TaskId} (h : (⟨[], queue⟩ : Trail).hasMet start v) :
    v = start := by
  simpa [hasMet] using h

theorem hasMet_cons {origins : List (TaskId × TaskId)} {queue queue' : List TaskId} {u : TaskId} :
    (⟨(w, v) :: origins, queue⟩ : Trail).hasMet start u ↔
      u = w ∨ (⟨origins, queue'⟩ : Trail).hasMet start u := by
  by_cases same : u = w
  · simp [hasMet, same]
  · rw [hasMet, hasMet, List.lookup_cons, beq_eq_false_iff_ne.2 same, or_iff_right same]

/-- How many tasks were not met. -/
def unmet (start : TaskId) (ids : List TaskId) (t : Trail) : Nat := ids.countP (!t.hasMet start ·)

theorem unmet_lt {queue : List TaskId} (hw : w ∈ ids) (new : ¬ t.hasMet start w) :
    unmet start ids ⟨(w, v) :: t.origins, queue⟩ < t.unmet start ids := by
  have grown {u : TaskId} : (⟨(w, v) :: t.origins, queue⟩ : Trail).hasMet start u ↔
      u = w ∨ t.hasMet start u := hasMet_cons
  refine countP_lt_countP hw (fun u _ off => ?_) (by simpa using grown.2 (.inl rfl))
    (by simpa using new)
  rw [Bool.not_eq_true', Bool.eq_false_iff] at off ⊢
  exact fun met => off (grown.2 (.inr met))

/-! What is noted -/

/-- What a trail notes: each task was met from one that is a step nearer to the start. There are at
least as many notes as steps to any task that was met. -/
structure Traces (next : TaskId → List TaskId) (start : TaskId) (t : Trail) : Prop where
  origin : ∀ w v, t.origins.lookup w = some v → ∃ n, IsDistance (Follows next) start v n ∧
    IsDistance (Follows next) start w (n + 1) ∧ w ∈ next v ∧ t.hasMet start v
  short : ∀ v n, t.hasMet start v → IsDistance (Follows next) start v n → n ≤ t.origins.length

/-- The notes on a task lead back to the start on a way that is as short as can be. -/
theorem Traces.exists_way (h : Traces next start t) (met : t.hasMet start v)
    (distance : IsDistance (Follows next) start v n) (enough : n ≤ fuel) (path : List TaskId) :
    ∃ way, t.wayTo fuel v path = way ++ path ∧ IsRoute (Follows next) start v way ∧
      way.length = n + 1 := by
  induction n generalizing v fuel path with
  | zero =>
    obtain _ | _ := distance.1
    have unnoted : t.origins.lookup start = none := by
      by_contra noted
      obtain ⟨u, noted⟩ := Option.ne_none_iff_exists'.1 noted
      obtain ⟨k, -, there, -⟩ := h.origin start u noted
      have := there.unique distance
      omega
    refine ⟨[start], ?_, ⟨List.isChain_singleton start, rfl, rfl⟩, rfl⟩
    cases fuel with
    | zero => rfl
    | succ fuel =>
      rw [wayTo, unnoted]
      rfl
  | succ n ih =>
    obtain ⟨fuel, rfl⟩ := Nat.exists_eq_add_of_le' (Nat.le_trans (Nat.le_add_left 1 n) enough)
    have other : v ≠ start := by
      rintro rfl
      have := distance.unique (.self _ v)
      omega
    obtain ⟨u, noted⟩ : ∃ u, t.origins.lookup v = some u :=
      Option.isSome_iff_exists.1 (by simpa [hasMet, other] using met)
    obtain ⟨k, before, there, link, met'⟩ := h.origin v u noted
    obtain rfl : k = n := Nat.succ.inj (there.unique distance)
    obtain ⟨way, e, route, length⟩ := ih met' before (Nat.le_of_succ_le_succ enough) (v :: path)
    refine ⟨way ++ [v], ?_, route.concat link, by rw [List.length_append, length]; rfl⟩
    rw [wayTo, noted, List.append_assoc]
    exact e

/-! The search -/

/-- The invariant of a search. The queue holds the tasks at one distance that are left and then
those at the next one that were met so far; everything nearer was met. A task that left the queue is
not the goal, and what follows it was met, but for the one that the search is at. -/
structure Inv (next : TaskId → List TaskId) (start goal : TaskId) (ids : List TaskId)
    (fuel n : Nat) (near far : List TaskId) (on : Option TaskId) (t : Trail) : Prop extends
    Traces next start t where
  queue : t.queue = near ++ far
  near : ∀ v ∈ near, IsDistance (Follows next) start v n
  far : ∀ v ∈ far, IsDistance (Follows next) start v (n + 1)
  within : ∀ v, ∀ m ≤ n, IsDistance (Follows next) start v m → t.hasMet start v
  passed : ∀ v, t.hasMet start v → v ∉ t.queue → on ≠ some v →
    v ≠ goal ∧ ∀ w ∈ next v, t.hasMet start w
  enough : t.queue.length + t.unmet start ids ≤ fuel

theorem inv_start (next : TaskId → List TaskId) (start goal : TaskId) (ids : List TaskId) :
    Inv next start goal ids (ids.length + 1) 0 [start] [] none ⟨[], [start]⟩ where
  origin := by simp
  short v n met distance := by
    obtain rfl := eq_start_of_hasMet met
    exact Nat.le_of_eq (distance.unique (.self _ v))
  queue := rfl
  near := List.forall_mem_singleton.2 (.self _ start)
  far := List.forall_mem_nil _
  within v m le distance := by
    obtain rfl := Nat.le_zero.1 le
    obtain _ | _ := distance.1
    exact hasMet_start start _
  passed v met off := by
    obtain rfl := eq_start_of_hasMet met
    exact absurd List.mem_cons_self off
  enough := by
    rw [List.length_singleton, Nat.add_comm]
    exact Nat.succ_le_succ List.countP_le_length

/-- Another task is met from the one that the search is at. -/
theorem Inv.meet_new (h : Inv next start goal ids fuel n near far (some v) t)
    (hv : IsDistance (Follows next) start v n) (link : w ∈ next v) (hw : w ∈ ids)
    (new : ¬ t.hasMet start w) :
    Inv next start goal ids fuel n near (far ++ [w])
    (some v) ⟨(w, v) :: t.origins, t.queue ++ [w]⟩ := by
  have grown {u : TaskId} : (⟨(w, v) :: t.origins, t.queue ++ [w]⟩ : Trail).hasMet start u ↔
      u = w ∨ t.hasMet start u := hasMet_cons
  have distance : IsDistance (Follows next) start w (n + 1) := by
    refine ⟨hv.1.succ link, fun k steps => ?_⟩
    obtain ⟨m, le, nearer⟩ := IsDistance.exists_of_steps steps
    by_contra less
    exact new (h.within w m (by omega) nearer)
  have here := h.within v n (Nat.le_refl n) hv
  exact
    { origin := fun u x noted => by
        rw [List.lookup_cons] at noted
        by_cases same : u = w
        · subst same
          rw [beq_self_eq_true] at noted
          obtain rfl := Option.some.inj noted
          exact ⟨n, hv, distance, link, grown.2 (.inr here)⟩
        · rw [beq_eq_false_iff_ne.2 same] at noted
          obtain ⟨k, before, there, last, met⟩ := h.origin u x noted
          exact ⟨k, before, there, last, grown.2 (.inr met)⟩
      short := fun u k met far => by
        rw [List.length_cons]
        rcases grown.1 met with rfl | met
        · have := h.short v n here hv
          have := far.unique distance
          omega
        · exact Nat.le_succ_of_le (h.short u k met far)
      queue := by rw [h.queue, List.append_assoc]
      near := h.near
      far := List.forall_mem_append.2 ⟨h.far, List.forall_mem_singleton.2 distance⟩
      within := fun u k le there => grown.2 (.inr (h.within u k le there))
      passed := fun u met off other => by
        rw [List.mem_append, List.mem_singleton, not_or] at off
        obtain ⟨ne, all⟩ := h.passed u ((grown.1 met).resolve_left off.2) off.1 other
        exact ⟨ne, fun x hx => grown.2 (.inr (all x hx))⟩
      enough := by
        have less : unmet start ids ⟨(w, v) :: t.origins, t.queue ++ [w]⟩ < t.unmet start ids :=
          unmet_lt hw new
        have := h.enough
        rw [List.length_append, List.length_singleton]
        omega }

@[simp] theorem hasMet_meet {u : TaskId} :
    (t.meet start v w).hasMet start u ↔ u = w ∨ t.hasMet start u := by
  unfold meet
  split
  · next met =>
    refine ⟨.inr, ?_⟩
    rintro (rfl | old)
    · exact met
    · exact old
  · exact hasMet_cons

@[simp] theorem hasMet_foldl_meet {u : TaskId} {ws : List TaskId} :
    (ws.foldl (meet start v) t).hasMet start u ↔ u ∈ ws ∨ t.hasMet start u := by
  induction ws generalizing t with
  | nil => simp
  | cons w ws ih =>
    rw [List.foldl_cons, ih, hasMet_meet, List.mem_cons, or_left_comm, or_assoc]

/-- Tasks that follow the one that the search is at are met. -/
theorem Inv.meetAll (h : Inv next start goal ids fuel n near far (some v) t)
    (hv : IsDistance (Follows next) start v n) {ws : List TaskId}
    (links : ∀ w ∈ ws, w ∈ next v ∧ w ∈ ids) :
    ∃ far, Inv next start goal ids fuel n near far (some v) (ws.foldl (meet start v) t) := by
  induction ws generalizing t far with
  | nil => exact ⟨far, h⟩
  | cons w ws ih =>
    obtain ⟨⟨link, hw⟩, links⟩ := List.forall_mem_cons.1 links
    rw [List.foldl_cons, meet]
    split
    · exact ih h links
    · next new => exact ih (h.meet_new hv link hw new) links

/-- The search goes on behind a task at the head of its queue that is not the goal. -/
theorem Inv.step (h : Inv next start goal ids (fuel + 1) n (v :: near) far none t)
    (inside : ∀ w ∈ next v, w ∈ ids) (other : v ≠ goal) :
    ∃ far', Inv next start goal ids fuel n near far' none
      ((next v).foldl (meet start v) { t with queue := near ++ far }) := by
  have hv := h.near v List.mem_cons_self
  have taken : Inv next start goal ids fuel n near far (some v) { t with queue := near ++ far } :=
    { h with
      queue := rfl
      near := (List.forall_mem_cons.1 h.near).2
      passed := fun u met off on => by
        refine h.passed u met ?_ nofun
        rw [h.queue, List.cons_append, List.mem_cons, not_or]
        exact ⟨fun same => on (congrArg some same.symm), off⟩
      enough := by
        have enough := h.enough
        rw [h.queue, List.cons_append, List.length_cons, Nat.succ_add] at enough
        exact Nat.le_of_succ_le_succ enough }
  obtain ⟨far', inv⟩ := taken.meetAll hv fun w hw => ⟨hw, inside w hw⟩
  refine ⟨far', { inv with passed := fun u met off _ => ?_ }⟩
  by_cases same : u = v
  · subst same
    exact ⟨other, fun w hw => hasMet_foldl_meet.2 (.inl hw)⟩
  · exact inv.passed u met off fun on => same (Option.some.inj on).symm

/-- When nothing is left at a distance, everything at the next one was met. -/
theorem Inv.shift (h : Inv next start goal ids fuel n [] far none t) :
    Inv next start goal ids fuel (n + 1) far [] none t :=
  { h with
    queue := by rw [h.queue, List.nil_append, List.append_nil]
    near := h.far
    far := List.forall_mem_nil _
    within := fun v m le distance => by
      rcases Nat.lt_or_eq_of_le le with less | rfl
      · exact h.within v m (Nat.le_of_lt_succ less) distance
      · obtain ⟨u, before, link⟩ := distance.exists_before
        refine (h.passed u (h.within u n (Nat.le_refl n) before) (fun on => ?_) nofun).2 v link
        rw [h.queue, List.nil_append] at on
        have := (h.far u on).unique before
        omega }

theorem Inv.cases (h : Inv next start goal ids fuel n near far none t) : t.queue = [] ∨
    ∃ n v near far, Inv next start goal ids fuel n (v :: near) far none t := by
  cases near with
  | cons v near => exact .inr ⟨n, v, near, far, h⟩
  | nil =>
    cases far with
    | nil => exact .inl h.queue
    | cons v far => exact .inr ⟨n + 1, v, far, [], h.shift⟩

/-- How a search ends: with the goal met, or with everything met that follows what was met. -/
structure Ended (next : TaskId → List TaskId) (start goal : TaskId) (t : Trail) : Prop
    extends Traces next start t where
  stopped : t.hasMet start goal ∨
    ∀ v, t.hasMet start v → v ≠ goal ∧ ∀ w ∈ next v, t.hasMet start w

theorem Inv.ended (h : Inv next start goal ids fuel n near far none t) (empty : t.queue = []) :
    Ended next start goal t where
  toTraces := h.toTraces
  stopped := .inr fun v met => h.passed v met (empty ▸ List.not_mem_nil) nofun

theorem Inv.run (inside : ∀ v, ∀ w ∈ next v, w ∈ ids)
    (h : Inv next start goal ids fuel n near far none t) :
    Ended next start goal (run next start goal fuel t) := by
  induction fuel generalizing n near far t with
  | zero => exact h.ended (List.length_eq_zero_iff.1 (by have := h.enough; omega))
  | succ fuel ih =>
    rw [Trail.run]
    rcases h.cases with empty | ⟨n, v, near, far, h⟩
    · rw [empty]
      exact h.ended empty
    · rw [h.queue, List.cons_append]
      dsimp only
      split
      · next same =>
        refine ⟨h.toTraces, .inl ?_⟩
        rw [← same]
        exact h.within v n (Nat.le_refl n) (h.near v List.mem_cons_self)
      · next other =>
        obtain ⟨far', inv⟩ := h.step (inside v) other
        exact ih inv

theorem Ended.hasMet (h : Ended next start goal t)
    (reached : ReflTransGen (Follows next) start goal) :
    t.hasMet start goal := by
  refine h.stopped.resolve_right fun closed => ?_
  have met {v : TaskId} (path : ReflTransGen (Follows next) start v) : t.hasMet start v := by
    induction path with
    | refl => exact hasMet_start start t
    | tail _ link ih => exact (closed _ ih).2 _ link
  exact (closed goal (met reached)).1 rfl

end Precedence.Trail

namespace Precedence.Graph

open Relation

variable {g : Graph} {start goal : TaskId}

/-- The path that is found to a task that can be reached is a shortest one. -/
theorem Sound.isShortest (h : g.Sound) (reached : ReflTransGen g.Link start goal) :
    IsShortest g.Link start goal (g.shortestPath start goal) := by
  have follow : Search.Follows g.dependents = g.Link := by
    funext v w
    exact propext h.mem_dependents
  have inside (v w : TaskId) (hw : w ∈ g.dependents v) : w ∈ g.ids :=
    mem_ids_of_mem_neighbours .down hw
  have ended := (Trail.inv_start g.dependents start goal g.ids).run inside
  rw [g.length_ids] at ended
  obtain ⟨m, steps⟩ := Steps.exists_of_reaches reached
  obtain ⟨n, -, distance⟩ := IsDistance.exists_of_steps steps
  rw [← follow] at reached distance ⊢
  have met := ended.hasMet reached
  obtain ⟨way, e, route, length⟩ :=
    ended.exists_way met distance (ended.short goal n met distance) []
  rw [List.append_nil] at e
  rw [shortestPath, e]
  exact distance.isShortest route length

end Precedence.Graph

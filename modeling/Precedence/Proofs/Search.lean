import Mathlib.Algebra.GroupWithZero.Nat
import Mathlib.Algebra.Order.BigOperators.Group.List
import Mathlib.Data.List.Chain
import Precedence.Graph.Cycle
import Precedence.Proofs.Graph
/-!
The search for a cycle is sound and complete. A task is in progress exactly while it is on the path,
and what follows a task that is done is done, so a search that ends without a cycle has left none
behind it.
-/
namespace Precedence.Search

open Relation

variable {next : TaskId → List TaskId}

def Follows (next : TaskId → List TaskId) (v w : TaskId) : Prop := w ∈ next v

/-- What holds of the path, from its last task downwards: a successor of a task on it is left to be
looked at, is done, or is the task above. -/
def Frames (next : TaskId → List TaskId) (s : Search) :
    Option TaskId → List (TaskId × List TaskId) → Prop
  | _, [] => True
  | above, (v, ws) :: below =>
    (∀ w ∈ next v, w ∈ ws ∨ s.mark? w = some .done ∨ above = some w) ∧ (∀ w ∈ ws, w ∈ next v) ∧
      (∀ w, above = some w → w ∈ next v) ∧ Frames next s (some v) below

/-- The invariant of a search that is about to go on to a task, or to none. -/
structure Inv (next : TaskId → List TaskId) (above : Option TaskId) (s : Search) : Prop where
  inProgress : ∀ v, s.mark? v = some .inProgress ↔ v ∈ s.stack.map (·.1)
  distinct : (s.stack.map (·.1)).Nodup
  frames : Frames next s above s.stack
  closed : ∀ v, s.mark? v = some .done → ∀ w ∈ next v, s.mark? w = some .done
  acyclic : ∀ v, s.mark? v = some .done → ¬ TransGen (Follows next) v v

theorem inv_start : Inv next none {} where
  inProgress := by simp [mark?]
  distinct := List.nodup_nil
  frames := trivial
  closed := by simp [mark?]
  acyclic := by simp [mark?]

@[simp] theorem mark?_cons (s : Search) (v w : TaskId) (m : Mark)
    (stack : List (TaskId × List TaskId)) :
    (⟨(v, m) :: s.marks, stack⟩ : Search).mark? w = if w = v then some m else s.mark? w := by
  rw [mark?, List.lookup_cons]
  by_cases same : w = v
  · rw [if_pos same, beq_iff_eq.2 same]
  · rw [if_neg same, beq_eq_false_iff_ne.2 same]
    rfl

theorem Frames.mono {s s' : Search} (h : ∀ w, s.mark? w = some .done → s'.mark? w = some .done)
    {above : Option TaskId} {stack : List (TaskId × List TaskId)}
    (frames : Frames next s above stack) :
    Frames next s' above stack := by
  induction stack generalizing above with
  | nil => trivial
  | cons f below ih =>
    obtain ⟨all, part, up, rest⟩ := frames
    exact ⟨fun w hw => (all w hw).imp_right (Or.imp_left (h w)), part, up, ih rest⟩

theorem Frames.clear {s : Search} {w : TaskId} (h : s.mark? w = some .done)
    {stack : List (TaskId × List TaskId)} (frames : Frames next s (some w) stack) :
    Frames next s none stack := by
  cases stack with
  | nil => trivial
  | cons f below =>
    obtain ⟨all, part, -, rest⟩ := frames
    refine ⟨fun x hx => ?_, part, by rintro _ ⟨⟩, rest⟩
    rcases all x hx with left | done | same
    · exact .inl left
    · exact .inr (.inl done)
    · obtain rfl := Option.some.inj same
      exact .inr (.inl h)

theorem Frames.chain {s : Search} {above : Option TaskId} {stack : List (TaskId × List TaskId)}
    (frames : Frames next s above stack) :
    (above.toList ++ stack.map (·.1)).IsChain fun w v => Follows next v w := by
  induction stack generalizing above with
  | nil => cases above <;> simp
  | cons f below ih =>
    obtain ⟨-, -, up, rest⟩ := frames
    have chain := ih rest
    cases above with
    | none => exact chain
    | some w => exact List.isChain_cons_cons.2 ⟨up w rfl, chain⟩

/-- What is reached from a task that is done is done. -/
theorem done_of_reaches {s : Search}
    (closed : ∀ v, s.mark? v = some .done → ∀ w ∈ next v, s.mark? w = some .done) {v w : TaskId}
    (done : s.mark? v = some .done) (h : ReflTransGen (Follows next) v w) :
    s.mark? w = some .done := by
  induction h with
  | refl => exact done
  | tail _ last ih => exact closed _ ih _ last

theorem Inv.enter {s : Search} {v : TaskId} (h : Inv next (some v) s) (new : s.mark? v = none) :
    Inv next none (s.enter next v) := by
  have old {w : TaskId} (done : s.mark? w = some .done) : w ≠ v := by
    rintro rfl
    rw [new] at done
    contradiction
  have keep (w : TaskId) (done : s.mark? w = some .done) :
      (s.enter next v).mark? w = some .done := by
    rw [Search.enter, mark?_cons, if_neg (old done), done]
  have back (w : TaskId) (done : (s.enter next v).mark? w = some .done) :
      s.mark? w = some .done := by
    rw [Search.enter, mark?_cons] at done
    split at done
    · contradiction
    · exact done
  have off : v ∉ s.stack.map (·.1) := by
    intro on
    rw [(h.inProgress v).2 on] at new
    contradiction
  refine ⟨fun w => ?_, List.nodup_cons.2 ⟨off, h.distinct⟩,
    ⟨fun w hw => .inl hw, fun w hw => hw, by rintro _ ⟨⟩, h.frames.mono keep⟩,
    fun w done x hx => keep x (h.closed w (back w done) x hx),
    fun w done => h.acyclic w (back w done)⟩
  rw [Search.enter, mark?_cons, List.map_cons, List.mem_cons, ← h.inProgress]
  split
  · next same => simp [same]
  · next other => simp [other]

theorem Inv.leave {s : Search} {v : TaskId} {below : List (TaskId × List TaskId)}
    (h : Inv next none s) (e : s.stack = (v, []) :: below) :
    Inv next none ⟨(v, .done) :: s.marks, below⟩ := by
  obtain ⟨inProgress, distinct, frames, closed, acyclic⟩ := h
  rw [e] at inProgress distinct frames
  obtain ⟨all, -, -, rest⟩ := frames
  obtain ⟨off, distinct⟩ := List.nodup_cons.1 distinct
  have here : s.mark? v = some .inProgress := (inProgress v).2 List.mem_cons_self
  have next_done (w : TaskId) (hw : w ∈ next v) : s.mark? w = some .done := by
    rcases all w hw with left | done | same
    · exact absurd left List.not_mem_nil
    · exact done
    · contradiction
  have keep (w : TaskId) (done : s.mark? w = some .done) :
      (⟨(v, .done) :: s.marks, below⟩ : Search).mark? w = some .done := by
    rw [mark?_cons]
    split
    · rfl
    · exact done
  -- What is reached from a task that was done before was done before, and the task itself was not.
  have noWayBack : ¬ TransGen (Follows next) v v := by
    intro round
    obtain ⟨w, first, rest⟩ := TransGen.head'_iff.1 round
    have done := done_of_reaches closed (next_done w first) rest
    rw [here] at done
    contradiction
  refine ⟨fun w => ?_, distinct, (rest.mono keep).clear (by rw [mark?_cons, if_pos rfl]),
    fun w done x hx => ?_, fun w done => ?_⟩
  · rw [mark?_cons]
    split
    · next same =>
      subst same
      simp only [Option.some.injEq, reduceCtorEq, false_iff]
      exact off
    · next other =>
      rw [inProgress, List.map_cons, List.mem_cons]
      simp [other]
  · rw [mark?_cons] at done
    split at done
    · next same => exact keep x (next_done x (same ▸ hx))
    · exact keep x (closed w done x hx)
  · rw [mark?_cons] at done
    split at done
    · next same => exact same ▸ noWayBack
    · exact acyclic w done

/-- A successor in progress closes a cycle: the path from it on. -/
theorem Inv.cycle {s : Search} {w : TaskId} (h : Inv next (some w) s) (noSelf : ∀ v, v ∉ next v)
    (on : s.mark? w = some .inProgress) :
    ∃ c, s.pathFrom? w = some c ∧ Graph.IsCycle (Follows next) c := by
  have chain : (s.path ++ [w]).IsChain (Follows next) := by
    rw [path, ← List.reverse_cons, List.isChain_reverse]
    exact h.frames.chain
  have there : w ∈ s.path := List.mem_reverse.2 ((h.inProgress w).1 on)
  cases found : s.path.findIdx? (· == w) with
  | none => exact absurd (List.findIdx?_eq_none_iff.1 found w there) (by simp)
  | some i =>
    obtain ⟨inside, here, -⟩ := List.findIdx?_eq_some_iff_getElem.1 found
    have cut : s.path.drop i = w :: s.path.drop (i + 1) := by
      rw [List.drop_eq_getElem_cons inside, eq_of_beq here]
    have around : (s.path.drop i ++ [w]).IsChain (Follows next) := by
      have dropped := chain.drop i
      rwa [List.drop_append_of_le_length (Nat.le_of_lt inside)] at dropped
    obtain ⟨inner, -, last⟩ := List.isChain_append.1 around
    refine ⟨s.path.drop i, by rw [pathFrom?, found]; rfl, ?_, ?_, inner, ?_⟩
    · cases e : s.path.drop (i + 1) with
      | nil =>
        rw [cut, e] at last
        exact absurd (last w rfl w rfl) (noSelf w)
      | cons a as => rw [cut, e]; simp
    · exact (List.nodup_reverse.2 h.distinct).sublist (List.drop_sublist i _)
    · rw [cut] at last ⊢
      exact last

/-! Steps -/

/-- What ends well is a search of which the invariant holds, and what ends otherwise is a cycle. -/
def Good (next : TaskId → List TaskId) (ok : Search → Prop) :
    Except (Option (List TaskId)) Search → Prop
  | .ok s => Inv next none s ∧ ok s
  | .error found => ∃ c, found = some c ∧ Graph.IsCycle (Follows next) c

def unmet (ids : List TaskId) (s : Search) : Nat := ids.countP fun v => (s.mark? v).isNone

theorem unmet_enter (next : TaskId → List TaskId) {ids : List TaskId} {s : Search} {v : TaskId}
    (there : v ∈ ids) (new : s.mark? v = none) : (s.enter next v).unmet ids < s.unmet ids := by
  refine countP_lt_countP there (fun w _ unmet => ?_) ?_ ?_
  · rw [enter, mark?_cons] at unmet
    split at unmet
    · contradiction
    · exact unmet
  · rw [enter, mark?_cons, if_pos rfl]
    rfl
  · rw [new]
    rfl

/-- What is left to be done: entering the tasks that were not met, and looking at what is left on
the path. -/
def left (ids : List TaskId) (s : Search) : Nat :=
  s.unmet ids * (ids.length + 2) +
    (s.stack.map fun f => f.2.length + 1).sum

def Met (s s' : Search) : Prop := ∀ v, (s.mark? v).isSome → (s'.mark? v).isSome

theorem met_cons (s : Search) (v : TaskId) (m : Mark) (stack : List (TaskId × List TaskId)) :
    s.Met ⟨(v, m) :: s.marks, stack⟩ := by
  intro w met
  rw [mark?_cons]
  split
  · rfl
  · exact met

theorem Met.unmet_le {s s' : Search} (h : s.Met s') (ids : List TaskId) :
    s'.unmet ids ≤ s.unmet ids := by
  apply List.countP_mono_left
  intro v _ unmet
  cases e : s.mark? v with
  | none => rfl
  | some m =>
    have met := h v (by rw [e]; rfl)
    simp_all

theorem left_eq (ids : List TaskId) {s : Search} {v : TaskId} {ws : List TaskId}
    {below : List (TaskId × List TaskId)} (e : s.stack = (v, ws) :: below) : s.left ids =
      s.unmet ids * (ids.length + 2) +
        (ws.length + 1 + (below.map fun f => f.2.length + 1).sum) := by
  rw [left, e, List.map_cons, List.sum_cons]

theorem Inv.look {s : Search} {v w : TaskId} {ws : List TaskId}
    {below : List (TaskId × List TaskId)} (h : Inv next none s)
    (e : s.stack = (v, w :: ws) :: below) :
    Inv next (some w) { s with stack := (v, ws) :: below } := by
  obtain ⟨inProgress, distinct, frames, closed, acyclic⟩ := h
  rw [e] at inProgress distinct frames
  obtain ⟨all, part, -, rest⟩ := frames
  have same (x : TaskId) (done : s.mark? x = some .done) :
      (⟨s.marks, (v, ws) :: below⟩ : Search).mark? x = some .done := done
  refine ⟨inProgress, distinct, ⟨fun x hx => ?_, fun x hx => part x (List.mem_cons_of_mem _ hx),
    ?_, rest.mono same⟩, closed, acyclic⟩
  · rcases all x hx with left | done | same
    · rcases List.mem_cons.1 left with rfl | left
      · exact .inr (.inr rfl)
      · exact .inl left
    · exact .inr (.inl done)
    · contradiction
  · rintro x ⟨⟩
    exact part w List.mem_cons_self

/-- A step keeps the invariant and leaves less to be done. -/
theorem good_step {ids : List TaskId} (noSelf : ∀ v, v ∉ next v)
    (inside : ∀ v, ∀ w ∈ next v, w ∈ ids)
    (few : ∀ v, (next v).length ≤ ids.length) {s : Search} (h : Inv next none s)
    (more : s.stack ≠ []) :
    Good next (fun s' => s.Met s' ∧ s'.left ids < s.left ids) (s.step next) := by
  unfold step
  split
  · next e => exact absurd e more
  · next v below e =>
    have met := met_cons s v .done below
    refine ⟨h.leave e, met, ?_⟩
    have := Nat.mul_le_mul_right (ids.length + 2) (met.unmet_le ids)
    rw [left_eq ids e, left, List.length_nil]
    dsimp only at *
    omega
  · next v w ws below e =>
    have looked := h.look e
    have before := left_eq ids e
    rw [List.length_cons] at before
    dsimp only
    split
    · next new =>
      have met := met_cons s w .inProgress ((w, next w) :: (v, ws) :: below)
      refine ⟨looked.enter new, met, ?_⟩
      have there : w ∈ ids := inside v w (looked.frames.2.2.1 w rfl)
      -- Entering a task adds a frame with all its successors, and the task met pays for them.
      have less : (enter next ⟨s.marks, (v, ws) :: below⟩ w).unmet ids < s.unmet ids :=
        unmet_enter next there new
      have := Nat.mul_le_mul_right (ids.length + 2) (Nat.succ_le_of_lt less)
      have := few w
      rw [Nat.succ_mul] at *
      rw [before, left_eq ids rfl, List.map_cons, List.sum_cons]
      dsimp only at *
      omega
    · next on => exact looked.cycle noSelf on
    · next done =>
      refine ⟨⟨looked.inProgress, looked.distinct, looked.frames.clear done, looked.closed,
        looked.acyclic⟩, fun _ met => met, ?_⟩
      rw [before, left_eq ids rfl]
      show s.unmet ids * _ + _ < _
      omega

/-- Steps, as many as there are to be taken, end with a cycle or with everything done that was
met. -/
theorem good_finish {ids : List TaskId} (noSelf : ∀ v, v ∉ next v)
    (inside : ∀ v, ∀ w ∈ next v, w ∈ ids) (few : ∀ v, (next v).length ≤ ids.length) {fuel : Nat}
    {s : Search} (h : Inv next none s) (enough : s.left ids ≤ fuel) :
    Good next (fun s' => s.Met s' ∧ s'.stack = []) (finish next fuel s) := by
  induction fuel generalizing s with
  | zero =>
    refine ⟨h, fun _ met => met, ?_⟩
    cases e : s.stack with
    | nil => rfl
    | cons f below =>
      rw [left, e, List.map_cons, List.sum_cons] at enough
      omega
  | succ fuel ih =>
    rw [finish]
    split
    · next e => exact ⟨h, fun _ met => met, List.isEmpty_iff.1 e⟩
    · next more =>
      have stepped := good_step noSelf inside few h (by simpa using more)
      cases e : s.step next with
      | error found => rw [e] at stepped; exact stepped
      | ok s' =>
        rw [e] at stepped
        obtain ⟨h', met, less⟩ := stepped
        have finished := ih h' (by omega)
        show Good next _ (finish next fuel s')
        cases e' : finish next fuel s' with
        | error found => rw [e'] at finished; exact finished
        | ok s'' =>
          rw [e'] at finished
          obtain ⟨h'', met', done⟩ := finished
          exact ⟨h'', fun v hv => met' v (met v hv), done⟩

theorem good_visit {ids : List TaskId} (noSelf : ∀ v, v ∉ next v)
    (inside : ∀ v, ∀ w ∈ next v, w ∈ ids) (few : ∀ v, (next v).length ≤ ids.length) {fuel : Nat}
    (enough : (ids.length + 1) * (ids.length + 2) ≤ fuel) {s : Search} (h : Inv next none s)
    (rest : s.stack = []) (root : TaskId) :
    Good next (fun s' => s.Met s' ∧ (s'.mark? root).isSome ∧ s'.stack = [])
      (visit next fuel s root) := by
  unfold visit
  split
  · next met => exact ⟨h, fun _ met => met, met, rest⟩
  · next new =>
    have new : s.mark? root = none := by simpa using new
    have entered : Inv next none (s.enter next root) := by
      refine Inv.enter ⟨h.inProgress, h.distinct, ?_, h.closed, h.acyclic⟩ new
      rw [rest]
      trivial
    have bound : (s.enter next root).left ids ≤ fuel := by
      have unmet : (s.enter next root).unmet ids ≤ ids.length := List.countP_le_length
      have := Nat.mul_le_mul_right (ids.length + 2) unmet
      have := few root
      have stack : (s.enter next root).stack = [(root, next root)] := by rw [enter, rest]
      rw [left, stack, List.map_singleton, List.sum_singleton]
      rw [Nat.succ_mul] at enough
      dsimp only
      omega
    have finished := good_finish noSelf inside few entered bound
    have met := met_cons s root .inProgress ((root, next root) :: s.stack)
    cases e : finish next fuel (s.enter next root) with
    | error found => rw [e] at finished; exact finished
    | ok s' =>
      rw [e] at finished
      obtain ⟨h', met', done⟩ := finished
      refine ⟨h', fun v hv => met' v (met v hv), met' root ?_, done⟩
      rw [enter, mark?_cons, if_pos rfl]
      rfl

theorem good_visits {ids : List TaskId} (noSelf : ∀ v, v ∉ next v)
    (inside : ∀ v, ∀ w ∈ next v, w ∈ ids) (few : ∀ v, (next v).length ≤ ids.length) {fuel : Nat}
    (enough : (ids.length + 1) * (ids.length + 2) ≤ fuel) {s : Search} (h : Inv next none s)
    (rest : s.stack = []) (roots : List TaskId) :
    Good next (fun s' => s.Met s' ∧ (∀ v ∈ roots, (s'.mark? v).isSome) ∧ s'.stack = [])
      (roots.foldlM (visit next fuel) s) := by
  induction roots generalizing s with
  | nil => exact ⟨h, fun _ met => met, fun _ hv => absurd hv List.not_mem_nil, rest⟩
  | cons root roots ih =>
    have first := good_visit noSelf inside few enough h rest root
    rw [List.foldlM_cons]
    cases e : visit next fuel s root with
    | error found => rw [e] at first; exact first
    | ok s' =>
      rw [e] at first
      obtain ⟨h', met, here, rest'⟩ := first
      have others := ih h' rest'
      show Good next _ (roots.foldlM (visit next fuel) s')
      cases e' : roots.foldlM (visit next fuel) s' with
      | error found => rw [e'] at others; exact others
      | ok s'' =>
        rw [e'] at others
        obtain ⟨h'', met', all, rest''⟩ := others
        exact ⟨h'', fun v hv => met' v (met v hv), List.forall_mem_cons.2 ⟨met' root here, all⟩,
          rest''⟩

end Precedence.Search

import Precedence.Graph.Walk
import Precedence.Proofs.Graph
import Precedence.Proofs.Repeats
/-!
Layers of a walk. All layers together hold each task once, and a task is in one of them exactly if
it is reached from the seed.
-/
namespace Precedence.Graph

open Relation

/-! Lists of layers -/

theorem mem_flatten_iff {levels : List (List TaskId)} {v : TaskId} :
    v ∈ levels.flatten ↔ ∃ k : Nat, v ∈ levels[k]?.getD [] := by
  rw [List.mem_flatten]
  constructor
  · rintro ⟨level, hl, hv⟩
    obtain ⟨k, hk, rfl⟩ := List.mem_iff_getElem.1 hl
    exact ⟨k, by rwa [List.getElem?_eq_getElem hk]⟩
  · rintro ⟨k, hv⟩
    cases e : levels[k]? with
    | none =>
      rw [e] at hv
      exact absurd hv List.not_mem_nil
    | some level =>
      rw [e] at hv
      exact ⟨level, List.mem_of_getElem? e, hv⟩

theorem lt_length_of_mem {levels : List (List TaskId)} {v : TaskId} {k : Nat}
    (h : v ∈ levels[k]?.getD []) : k < levels.length := by
  by_contra off
  rw [List.getElem?_eq_none (by omega)] at h
  exact List.not_mem_nil h

/-! Layers from a frontier -/

variable {next : TaskId → List TaskId}

@[simp] theorem mem_frontierAfter {seen frontier : List TaskId} {w : TaskId} :
    w ∈ frontierAfter next seen frontier ↔ (∃ v ∈ frontier, w ∈ next v) ∧ w ∉ seen := by
  simp [frontierAfter, List.mem_eraseDups]

/-- What was seen and what the layers add to it. -/
def spread (next : TaskId → List TaskId) (fuel : Nat) (seen frontier : List TaskId) : List TaskId :=
  seen ++ (layersFrom next fuel seen frontier).flatten

theorem spread_of_layer {fuel : Nat} {seen frontier : List TaskId}
    (nonempty : frontierAfter next seen frontier ≠ []) :
    spread next (fuel + 1) seen frontier =
      spread next fuel (seen ++ frontierAfter next seen frontier)
        (frontierAfter next seen frontier) := by
  cases e : frontierAfter next seen frontier with
  | nil => exact absurd e nonempty
  | cons v layer => rw [spread, layersFrom, e, List.flatten_cons, ← List.append_assoc, spread]

theorem nodup_spread {fuel : Nat} {seen frontier : List TaskId} (h : seen.Nodup) :
    (spread next fuel seen frontier).Nodup := by
  induction fuel generalizing seen frontier with
  | zero => simpa [spread, layersFrom] using h
  | succ fuel ih =>
    by_cases empty : frontierAfter next seen frontier = []
    · rw [spread, layersFrom, empty]
      simpa using h
    · rw [spread_of_layer empty]
      refine ih (List.nodup_append.2 ⟨h, nodup_eraseDups _, ?_⟩)
      rintro a ha b hb rfl
      exact (mem_frontierAfter.1 hb).2 ha

theorem reaches_of_mem_spread {fuel : Nat} {seen frontier : List TaskId} (sub : frontier ⊆ seen)
    {w : TaskId} (h : w ∈ spread next fuel seen frontier) :
    w ∈ seen ∨ ∃ v ∈ frontier, TransGen (fun a b => b ∈ next a) v w := by
  induction fuel generalizing seen frontier with
  | zero => exact .inl (by simpa [spread, layersFrom] using h)
  | succ fuel ih =>
    by_cases empty : frontierAfter next seen frontier = []
    · rw [spread, layersFrom, empty] at h
      exact .inl (by simpa using h)
    · rw [spread_of_layer empty] at h
      have first {x : TaskId} (hx : x ∈ frontierAfter next seen frontier) :
          ∃ v ∈ frontier, TransGen (fun a b => b ∈ next a) v x := by
        obtain ⟨v, hv, link⟩ := (mem_frontierAfter.1 hx).1
        exact ⟨v, hv, .single link⟩
      rcases ih (List.subset_append_right _ _) h with old | ⟨x, hx, path⟩
      · rcases List.mem_append.1 old with old | new
        · exact .inl old
        · exact .inr (first new)
      · obtain ⟨v, hv, link⟩ := first hx
        exact .inr ⟨v, hv, link.trans path⟩

/-- A layer takes tasks off those that were not seen. -/
theorem countP_unseen_lt {ids : List TaskId} (inside : ∀ v, ∀ w ∈ next v, w ∈ ids)
    {seen frontier : List TaskId} (nonempty : frontierAfter next seen frontier ≠ []) :
    ids.countP (· ∉ seen ++ frontierAfter next seen frontier) < ids.countP (· ∉ seen) := by
  obtain ⟨x, hx⟩ := List.exists_mem_of_ne_nil _ nonempty
  obtain ⟨⟨u, -, link⟩, new⟩ := mem_frontierAfter.1 hx
  exact countP_lt_countP (inside u x link) (fun v _ => by simp_all) (by simp [hx]) (by simp [new])

/-- What comes next after what is met is met. -/
theorem closed_spread {ids : List TaskId} (inside : ∀ v, ∀ w ∈ next v, w ∈ ids) {fuel : Nat}
    {seen frontier : List TaskId} (enough : ids.countP (· ∉ seen) ≤ fuel)
    (passed : ∀ v ∈ seen, v ∉ frontier → next v ⊆ seen) :
    ∀ v ∈ spread next fuel seen frontier, next v ⊆ spread next fuel seen frontier := by
  induction fuel generalizing seen frontier with
  | zero =>
    have all := List.countP_eq_zero.1 (Nat.le_zero.1 enough)
    simp only [spread, layersFrom, List.flatten_nil, List.append_nil]
    intro v _ w hw
    simpa using all w (inside v w hw)
  | succ fuel ih =>
    by_cases empty : frontierAfter next seen frontier = []
    · rw [spread, layersFrom, empty]
      simp only [List.flatten_nil, List.append_nil]
      intro v hv w hw
      by_cases on : v ∈ frontier
      · by_contra new
        have met : w ∈ frontierAfter next seen frontier := mem_frontierAfter.2 ⟨⟨v, on, hw⟩, new⟩
        rw [empty] at met
        exact List.not_mem_nil met
      · exact passed v hv on hw
    · rw [spread_of_layer empty]
      have less := countP_unseen_lt inside empty
      apply ih (by omega)
      intro v hv off w hw
      have old : v ∈ seen := (List.mem_append.1 hv).resolve_right off
      by_cases met : w ∈ seen
      · exact List.mem_append_left _ met
      · by_cases on : v ∈ frontier
        · exact List.mem_append_right _ (mem_frontierAfter.2 ⟨⟨v, on, hw⟩, met⟩)
        · exact absurd (passed v old on hw) met

theorem next_of_mem_layersFrom {fuel : Nat} {seen frontier layer : List TaskId}
    (h : layer ∈ layersFrom next fuel seen frontier) {w : TaskId}
    (hw : w ∈ layer) : ∃ v, w ∈ next v := by
  induction fuel generalizing seen frontier with
  | zero => exact absurd h List.not_mem_nil
  | succ fuel ih =>
    rw [layersFrom] at h
    split at h
    · exact absurd h List.not_mem_nil
    · next e =>
      rcases List.mem_cons.1 h with rfl | h
      · obtain ⟨v, -, link⟩ := (mem_frontierAfter.1 hw).1
        exact ⟨v, link⟩
      · exact ih h

/-! The closure of a task -/

variable {g : Graph}

def linkAlong (g : Graph) : Direction → TaskId → TaskId → Prop
  | .up => fun d p => g.Link p d
  | .down => g.Link

@[simp] theorem Sound.mem_neighbours (h : g.Sound) {direction : Direction} {v w : TaskId} :
    w ∈ g.neighbours direction v ↔ g.linkAlong direction v w := by
  cases direction with
  | up => exact h.mem_prerequisites
  | down => exact h.mem_dependents

theorem mem_ids_of_mem_neighbours (direction : Direction) {v w : TaskId}
    (h : w ∈ g.neighbours direction v) : w ∈ g.ids := by
  cases direction with
  | up => exact (List.mem_filter.1 h).1
  | down => exact (List.mem_filter.1 h).1

theorem mem_ids_of_mem_layers {direction : Direction} {seed v : TaskId} {layer : List TaskId}
    (h : layer ∈ g.layers direction seed) (hv : v ∈ layer) : v ∈ g.ids := by
  obtain ⟨_, link⟩ := next_of_mem_layersFrom h hv
  exact mem_ids_of_mem_neighbours direction link

theorem closure_eq_spread (g : Graph) (direction : Direction) (v : TaskId) :
    g.closure direction v = spread (g.neighbours direction) g.tasks.length [v] [v] := rfl

theorem nodup_closure (g : Graph) (direction : Direction) (v : TaskId) :
    (g.closure direction v).Nodup := nodup_spread (List.nodup_singleton v)

/-- The closure of a task holds what is reached from it. -/
@[simp] theorem Sound.mem_closure (h : g.Sound) {direction : Direction} {v w : TaskId} :
    w ∈ g.closure direction v ↔ ReflTransGen (g.linkAlong direction) v w := by
  rw [closure_eq_spread]
  have follow {a b : TaskId} : b ∈ g.neighbours direction a ↔ g.linkAlong direction a b :=
    h.mem_neighbours
  constructor
  · intro met
    rcases reaches_of_mem_spread (List.Subset.refl _) met with here | ⟨u, hu, path⟩
    · rw [List.mem_singleton.1 here]
    · rw [List.mem_singleton.1 hu] at path
      clear met
      induction path with
      | single link => exact .single (follow.1 link)
      | tail _ link ih => exact ih.tail (follow.1 link)
  · have enough : g.ids.countP (· ∉ [v]) ≤ g.tasks.length := by
      rw [← g.length_ids]
      exact List.countP_le_length
    have inside (u w : TaskId) (hw : w ∈ g.neighbours direction u) : w ∈ g.ids :=
      mem_ids_of_mem_neighbours direction hw
    have closed := closed_spread inside enough fun u hu off => absurd hu off
    intro path
    induction path with
    | refl => exact List.mem_append_left _ List.mem_cons_self
    | tail _ link ih => exact closed _ ih (follow.2 link)

end Precedence.Graph

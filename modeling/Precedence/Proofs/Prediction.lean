import Precedence.Proofs.Greedy
import Precedence.Proofs.Route
/-!
Predicting cycles. An edge closes a cycle exactly if its prerequisite can be reached from its
dependent without it, and the cycle that is predicted for it is a shortest way that it leads back.
-/
namespace Precedence

open Relation

/-! One more edge -/

section

variable {α : Type} {R S : α → α → Prop} {a b x y : α}

/-- A path is an old one, or it comes to the new edge and goes on behind it. -/
theorem parted_of_edge (step : ∀ x y, S x y → R x y ∨ x = a ∧ y = b) (path : TransGen S x y) :
    TransGen R x y ∨ ReflTransGen R x a ∧ ReflTransGen R b y := by
  induction path with
  | single s =>
    rcases step _ _ s with s | ⟨rfl, rfl⟩
    · exact .inl (.single s)
    · exact .inr ⟨.refl, .refl⟩
  | tail _ s ih =>
    rcases step _ _ s with s | ⟨rfl, rfl⟩
    · exact ih.imp (·.tail s) fun ⟨there, on⟩ => ⟨there, on.tail s⟩
    · exact .inr ⟨ih.elim TransGen.to_reflTransGen And.left, .refl⟩

/-- The new edge is of no use on the way back from its end to its start. -/
theorem reaches_of_edge (step : ∀ x y, S x y → R x y ∨ x = a ∧ y = b) (back : ReflTransGen S b a) :
    ReflTransGen R b a := by
  rcases reflTransGen_iff_eq_or_transGen.1 back with rfl | path
  · exact .refl
  · exact (parted_of_edge step path).elim TransGen.to_reflTransGen And.left

/-- One more edge closes no cycle unless there is a way back. -/
theorem acyclic_of_edge (step : ∀ x y, S x y → R x y ∨ x = a ∧ y = b)
    (acyclic : ∀ v, ¬ TransGen R v v) (back : ¬ ReflTransGen R b a) (v : α) : ¬ TransGen S v v := by
  intro round
  rcases parted_of_edge step round with round | ⟨there, on⟩
  · exact acyclic v round
  · exact back (on.trans there)

end

namespace Graph

section

variable {link link' : TaskId → TaskId → Prop} {a b : TaskId} {c : List TaskId}

/-- Without a way back from its end to its start a new edge is on no cycle. -/
theorem IsCycle.of_edge (h : IsCycle link' c) (step : ∀ v w, link' v w → link v w ∨ v = a ∧ w = b)
    (back : ¬ ReflTransGen link b a) : IsCycle link c := by
  have old {v w : TaskId} (hv : v ∈ c) (hw : w ∈ c) (s : link' v w) : link v w := by
    refine (step v w s).resolve_right ?_
    rintro ⟨rfl, rfl⟩
    exact back (reaches_of_edge step (h.reaches hw hv).to_reflTransGen)
  refine ⟨h.two_le, h.distinct, List.isChain_iff_getElem.2 fun i hi => ?_, fun v hv w hw => ?_⟩
  · exact old (List.getElem_mem _) (List.getElem_mem _) (List.isChain_iff_getElem.1 h.chain i hi)
  · exact old (List.mem_of_getLast? hv) (List.mem_of_mem_head? hw) (h.closed v hv w hw)

/-- An edge that leads back to the start of a shortest way closes a cycle. -/
theorem isCycle_of_isShortest (h : IsShortest link a b c) (more : ∀ v w, link v w → link' v w)
    (back : link' b a) (ne : a ≠ b) : IsCycle link' c where
  two_le := by
    obtain ⟨n, length, steps⟩ := h.exists_steps
    cases steps with
    | zero => exact absurd rfl ne
    | succ => omega
  distinct := h.simple
  chain := h.chain.imp more
  closed v hv w hw := by
    obtain rfl := Option.some.inj (h.last.symm.trans hv)
    obtain rfl := Option.some.inj (h.first.symm.trans hw)
    exact back

end

variable {g : Graph} {t d : TaskId}

theorem link_addEdge (ht : t ∈ g.ids) (hd : d ∈ g.ids) (ne : t ≠ d) {v w : TaskId} :
    (g.addEdge ⟨t, d⟩).1.Link v w ↔ g.Link v w ∨ v = d ∧ w = t := by
  have other : (⟨t, d⟩ : Edge).isSelf = false := beq_eq_false_iff_ne.2 ne
  rw [Link, addEdge, other, (contains_iff g t).2 ht, (contains_iff g d).2 hd]
  show _ ∈ insertEdge _ _ ↔ _
  rw [mem_insertEdge, or_comm, Link]
  simp [and_comm]

theorem Sound.wouldCreateCycle_eq (h : g.Sound) (ht : t ∈ g.ids) (hd : d ∈ g.ids) (ne : t ≠ d) :
    ∃ answer, g.wouldCreateCycle t d = .ok answer ∧ (answer = true ↔ ReflTransGen g.Link t d) := by
  refine ⟨(g.closure .down t).contains d, ?_, by rw [List.contains_iff_mem, h.mem_closure]; rfl⟩
  rw [wouldCreateCycle, if_neg ne, require, if_pos ((contains_iff g t).2 ht), require,
    if_pos ((contains_iff g d).2 hd)]
  rfl

/-- The cycle that is predicted is a shortest way to the prerequisite, where there is one. -/
theorem Sound.cycleIfAdded_cases (h : g.Sound) (ht : t ∈ g.ids) (hd : d ∈ g.ids) (ne : t ≠ d) :
    ReflTransGen g.Link t d ∧
        (∃ path, g.cycleIfAdded t d = .ok (some path) ∧ IsShortest g.Link t d path) ∨
      ¬ ReflTransGen g.Link t d ∧ g.cycleIfAdded t d = .ok none := by
  obtain ⟨answer, asked, iff⟩ := h.wouldCreateCycle_eq ht hd ne
  rw [cycleIfAdded, asked]
  cases answer with
  | true => exact .inl ⟨iff.1 rfl, _, rfl, h.isShortest (iff.1 rfl)⟩
  | false => exact .inr ⟨fun reached => Bool.false_ne_true (iff.2 reached), rfl⟩

theorem loaded_of_cycleIfAdded {answer : Option (List TaskId)}
    (h : g.cycleIfAdded t d = .ok answer) : t ≠ d ∧ t ∈ g.ids ∧ d ∈ g.ids := by
  unfold cycleIfAdded wouldCreateCycle require at h
  rw [← contains_iff, ← contains_iff]
  by_cases same : t = d
  · rw [if_pos same] at h
    contradiction
  · rw [if_neg same] at h
    cases ht : g.contains t with
    | false =>
      rw [ht] at h
      contradiction
    | true =>
      cases hd : g.contains d with
      | false =>
        rw [ht, hd] at h
        contradiction
      | true => exact ⟨same, rfl, rfl⟩

/-- An edge that would close no cycle is one between two loaded tasks, and there is no way back. -/
theorem not_reaches_of_cycleIfAdded (sound : g.Sound) (nothing : g.cycleIfAdded t d = .ok none) :
    d ∈ g.ids ∧ ¬ ReflTransGen g.Link t d := by
  obtain ⟨ne, ht, hd⟩ := loaded_of_cycleIfAdded nothing
  refine ⟨hd, fun reached => ?_⟩
  rcases sound.cycleIfAdded_cases ht hd ne with ⟨-, path, found, -⟩ | ⟨unreached, -⟩
  · rw [found] at nothing
    cases nothing
  · exact unreached reached

/-- For any two different tasks of a graph, whether or not it has a cycle, it is said exactly if an
edge between them would close a cycle: if its prerequisite can be reached from its dependent, and so
if there is a cycle through the edge once it is added. What is shown as the cycle is a shortest path
from the dependent to the prerequisite. To a graph without a cycle an edge for which nothing is
shown can be added without one, and what is shown for an edge is a cycle of the graph with this
edge. -/
theorem cycle_prediction_exact {g : Graph} (made : g.Made) {t d : TaskId} (ht : t ∈ g.ids)
    (hd : d ∈ g.ids) (ne : t ≠ d) :
    (∃ answer, g.wouldCreateCycle t d = .ok answer ∧
      (answer = true ↔ ReflTransGen g.Link t d) ∧
      (answer = true ↔ ∃ c, IsCycle (g.addEdge ⟨t, d⟩).1.Link c ∧
        c.head? = some t ∧ c.getLast? = some d) ∧
      (answer = true → ∃ path, g.cycleIfAdded t d = .ok (some path) ∧
        IsShortest g.Link t d path) ∧
      (answer = false → g.cycleIfAdded t d = .ok none)) ∧
    (g.Acyclic → g.cycleIfAdded t d = .ok none → (g.addEdge ⟨t, d⟩).1.Acyclic) ∧
    ∀ c, g.cycleIfAdded t d = .ok (some c) →
      IsCycle (g.addEdge ⟨t, d⟩).1.Link c ∧ c.head? = some t ∧ c.getLast? = some d := by
  have h := made.sound
  have added {v w : TaskId} := link_addEdge (v := v) (w := w) ht hd ne
  have closes {c : List TaskId} (shortest : IsShortest g.Link t d c) :
      IsCycle (g.addEdge ⟨t, d⟩).1.Link c :=
    isCycle_of_isShortest shortest (fun _ _ link => added.2 (.inl link))
      (added.2 (.inr ⟨rfl, rfl⟩)) ne
  obtain ⟨answer, asked, reached⟩ := h.wouldCreateCycle_eq ht hd ne
  rcases h.cycleIfAdded_cases ht hd ne with ⟨there, path, found, shortest⟩ | ⟨unreached, nothing⟩
  · obtain rfl := reached.2 there
    have shown := closes shortest
    refine ⟨⟨true, asked, reached, ?_, ?_, nofun⟩, fun _ off => ?_, fun c on => ?_⟩
    · exact iff_of_true rfl ⟨path, shown, shortest.first, shortest.last⟩
    · exact fun _ => ⟨path, found, shortest⟩
    · rw [found] at off
      cases off
    · rw [found] at on
      obtain rfl := Option.some.inj (Except.ok.inj on)
      exact ⟨shown, shortest.first, shortest.last⟩
  · obtain rfl : answer = false := Bool.eq_false_iff.2 fun yes => unreached (reached.1 yes)
    refine ⟨⟨false, asked, reached, ?_, nofun, fun _ => nothing⟩,
      fun acyclic _ => ?_, fun c on => ?_⟩
    · refine iff_of_false nofun ?_
      rintro ⟨c, cycle, first, last⟩
      obtain ⟨n, -, steps⟩ := IsRoute.exists_steps ⟨cycle.chain, first, last⟩
      exact unreached (reaches_of_edge (fun _ _ => added.1) steps.reaches)
    · exact acyclic_of_edge (fun _ _ => added.1) acyclic unreached
    · rw [nothing] at on
      cases on

open TaskMap in
/-- One edge that would close a cycle, and one that would not. -/
theorem cycle_prediction_exact_on_waiting : waiting.Made ∧ waiting.Acyclic ∧
    (waiting.cycleIfAdded a b = .ok (some [a, b]) ∧
      IsCycle (waiting.addEdge ⟨a, b⟩).1.Link [a, b]) ∧
    waiting.cycleIfAdded b c = .ok none ∧ (waiting.addEdge ⟨b, c⟩).1.Acyclic := by
  have made : waiting.Made := .lenient _ _
  have ha : a ∈ waiting.ids := by decide +kernel
  have hb : b ∈ waiting.ids := by decide +kernel
  have hc : c ∈ waiting.ids := by decide +kernel
  have found : waiting.cycleIfAdded a b = .ok (some [a, b]) := by decide +kernel
  have nothing : waiting.cycleIfAdded b c = .ok none := by decide +kernel
  obtain ⟨-, -, shown⟩ := cycle_prediction_exact made ha hb (by decide)
  obtain ⟨-, stays, -⟩ := cycle_prediction_exact made hb hc (by decide)
  exact ⟨made, acyclic_waiting, ⟨found, (shown _ found).1⟩, nothing, stays acyclic_waiting nothing⟩

end Graph
end Precedence

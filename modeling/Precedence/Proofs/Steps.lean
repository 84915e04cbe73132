import Mathlib.Data.List.Chain
import Mathlib.Data.List.Perm.Subperm
import Mathlib.Data.Nat.Find
import Mathlib.Order.Bounds.Basic
/-!
Numbers of steps along a relation. The distance is the least number of steps from one to the other,
the depth the greatest number of steps that end in one.
-/
namespace Precedence

open Relation

variable {α : Type} {link : α → α → Prop} {a b c : α} {m n : Nat}

/-- A number of steps leads from one to the other. -/
inductive Steps (link : α → α → Prop) (a : α) : Nat → α → Prop where
  | zero : Steps link a 0 a
  | succ {n : Nat} {b c : α} (before : Steps link a n b) (last : link b c) : Steps link a (n + 1) c

namespace Steps

theorem trans (h : Steps link a m b) (h' : Steps link b n c) : Steps link a (m + n) c := by
  induction h' with
  | zero => exact h
  | succ _ last ih => exact ih.succ last

theorem head (first : link a b) (h : Steps link b n c) : Steps link a (n + 1) c := by
  rw [Nat.add_comm]
  exact (Steps.zero.succ first).trans h

theorem swap (h : Steps link a n b) : Steps (Function.swap link) b n a := by
  induction h with
  | zero => exact .zero
  | succ _ last ih => exact ih.head last

theorem mono {link' : α → α → Prop} (more : ∀ a b, link a b → link' a b) (h : Steps link a n b) :
    Steps link' a n b := by
  induction h with
  | zero => exact .zero
  | succ _ last ih => exact ih.succ (more _ _ last)

theorem reaches (h : Steps link a n b) : ReflTransGen link a b := by
  induction h with
  | zero => exact .refl
  | succ _ last ih => exact ih.tail last

theorem exists_of_reaches (h : ReflTransGen link a b) : ∃ n, Steps link a n b := by
  induction h with
  | refl => exact ⟨0, .zero⟩
  | tail _ last ih =>
    obtain ⟨n, before⟩ := ih
    exact ⟨n + 1, before.succ last⟩

theorem exists_between (h : Steps link a (m + n) c) : ∃ b, Steps link a m b ∧ Steps link b n c := by
  induction n generalizing c with
  | zero => exact ⟨c, h, .zero⟩
  | succ n ih =>
    obtain _ | ⟨before, last⟩ := h
    obtain ⟨b, first, rest⟩ := ih before
    exact ⟨b, first, rest.succ last⟩

/-- What grows with each step has grown by the number of steps. -/
theorem add_le {f : α → Nat} (grows : ∀ a b, link a b → f a < f b) (h : Steps link a n b) :
    f a + n ≤ f b := by
  induction h with
  | zero => exact Nat.le_refl _
  | succ _ last ih =>
    have := grows _ _ last
    omega

end Steps

/-! Routes -/

theorem reaches_of_head {path : List α} (chain : path.IsChain link) (first : path.head? = some a)
    {v : α} (hv : v ∈ path) : ReflTransGen link a v := by
  refine chain.induction (ReflTransGen link a) path (fun _ _ step reached => reached.tail step)
    (fun nonempty => ?_) v hv
  rw [List.head?_eq_some_head nonempty, Option.some_inj] at first
  rw [first]

theorem reaches_of_getLast {path : List α} (chain : path.IsChain link)
    (last : path.getLast? = some b) {v : α} (hv : v ∈ path) : ReflTransGen link v b := by
  refine chain.backwards_induction (ReflTransGen link · b) path
    (fun _ _ step reaches => .head step reaches) (fun nonempty => ?_) v hv
  rw [List.getLast?_eq_some_getLast nonempty, Option.some_inj] at last
  rw [last]

/-- A list that leads from one to the other. -/
structure IsRoute (link : α → α → Prop) (a b : α) (path : List α) : Prop where
  chain : path.IsChain link
  first : path.head? = some a
  last : path.getLast? = some b

theorem IsRoute.concat {path : List α} (h : IsRoute link a b path) (last : link b c) :
    IsRoute link a c (path ++ [c]) where
  chain := h.chain.append (List.isChain_singleton c) (by simpa [h.last] using last)
  first := by
    rw [List.head?_append, h.first]
    rfl
  last := by simp

theorem Steps.exists_route (h : Steps link a n b) :
    ∃ path, IsRoute link a b path ∧ path.length = n + 1 := by
  induction h with
  | zero => exact ⟨[a], ⟨List.isChain_singleton a, rfl, rfl⟩, rfl⟩
  | succ _ last ih =>
    obtain ⟨path, route, length⟩ := ih
    exact ⟨_, route.concat last, by rw [List.length_append, length]; rfl⟩

theorem IsRoute.getElem?_zero {path : List α} (h : IsRoute link a b path) : path[0]? = some a :=
  List.head?_eq_getElem?.symm.trans h.first

theorem IsRoute.getElem?_last {path : List α} (h : IsRoute link a b path) :
    path[path.length - 1]? = some b :=
  List.getLast?_eq_getElem?.symm.trans h.last

theorem steps_of_isChain {path : List α} (chain : path.IsChain link) {i k : Nat} {x y : α}
    (hx : path[i]? = some x) (hy : path[i + k]? = some y) : Steps link x k y := by
  induction k generalizing y with
  | zero =>
    obtain rfl := Option.some.inj (hx.symm.trans hy)
    exact .zero
  | succ k ih =>
    obtain ⟨hk, rfl⟩ := List.getElem?_eq_some_iff.1 hy
    exact (ih (List.getElem?_eq_getElem (by omega))).succ
      (List.isChain_iff_getElem.1 chain (i + k) hk)

theorem IsRoute.exists_steps {path : List α} (h : IsRoute link a b path) :
    ∃ n, path.length = n + 1 ∧ Steps link a n b := by
  obtain ⟨nonempty, -⟩ := List.getElem?_eq_some_iff.1 h.getElem?_zero
  refine ⟨path.length - 1, by omega, steps_of_isChain h.chain h.getElem?_zero ?_⟩
  rw [Nat.zero_add, h.getElem?_last]

/-- Where there is no round, nothing is met twice. -/
theorem nodup_of_isChain (acyclic : ∀ v, ¬ TransGen link v v) {path : List α}
    (chain : path.IsChain link) : path.Nodup := by
  have onward : path.Pairwise (TransGen link) :=
    List.isChain_iff_pairwise.1 (chain.imp fun _ _ => .single)
  exact onward.imp fun {a b} ahead => by
    rintro rfl
    exact acyclic a ahead

/-- A single link between different ones does not go round. -/
theorem acyclic_of_single (only : ∀ v w, link v w → v = a ∧ w = b) (other : a ≠ b) (v : α) :
    ¬ TransGen link v v := by
  intro round
  obtain ⟨_, first, -⟩ := TransGen.head'_iff.1 round
  obtain ⟨_, -, last⟩ := TransGen.tail'_iff.1 round
  exact other ((only _ _ first).1.symm.trans (only _ _ last).2)

section

variable {ids : List α} (inside : ∀ a b, link a b → a ∈ ids)

include inside

theorem IsRoute.subset {path : List α} (h : IsRoute link a b path) (hb : b ∈ ids) : path ⊆ ids := by
  intro v hv
  rcases ReflTransGen.cases_head (reaches_of_getLast h.chain h.last hv) with rfl | ⟨w, first, -⟩
  · exact hb
  · exact inside v w first

theorem Steps.lt_length (acyclic : ∀ v, ¬ TransGen link v v) (h : Steps link a n b) (hb : b ∈ ids) :
    n < ids.length := by
  obtain ⟨path, route, length⟩ := h.exists_route
  have le := (List.subperm_of_subset (nodup_of_isChain acyclic route.chain)
    (route.subset inside hb)).length_le
  omega

end

/-! Distances -/

/-- The least number of steps from one to the other. -/
def IsDistance (link : α → α → Prop) (a b : α) (n : Nat) : Prop := IsLeast {n | Steps link a n b} n

namespace IsDistance

theorem self (link : α → α → Prop) (a : α) : IsDistance link a a 0 :=
  ⟨.zero, fun _ _ => Nat.zero_le _⟩

theorem exists_of_steps (h : Steps link a n b) : ∃ m ≤ n, IsDistance link a b m := by
  classical
  have some : ∃ n, Steps link a n b := ⟨n, h⟩
  exact ⟨Nat.find some, Nat.find_min' some h, Nat.find_spec some, fun _ h => Nat.find_min' some h⟩

theorem le (h : IsDistance link a b n) (steps : Steps link a m b) : n ≤ m := h.2 steps

theorem unique (h : IsDistance link a b m) (h' : IsDistance link a b n) : m = n :=
  IsLeast.unique h h'

/-- On a shortest way everything is as near as can be. -/
theorem exists_between (h : IsDistance link a c (m + n)) :
    ∃ b, IsDistance link a b m ∧ Steps link b n c := by
  obtain ⟨b, first, rest⟩ := h.1.exists_between
  refine ⟨b, ⟨first, fun k steps => ?_⟩, rest⟩
  have := h.le (steps.trans rest)
  omega

theorem exists_before (h : IsDistance link a c (n + 1)) :
    ∃ b, IsDistance link a b n ∧ link b c := by
  obtain ⟨b, first, rest⟩ := h.exists_between
  obtain _ | ⟨before, last⟩ := rest
  obtain _ | _ := before
  exact ⟨b, first, last⟩

theorem swap_iff : IsDistance (Function.swap link) b a n ↔ IsDistance link a b n := by
  have back (n : Nat) : Steps (Function.swap link) b n a ↔ Steps link a n b :=
    ⟨Steps.swap, Steps.swap⟩
  simp only [IsDistance, back]

end IsDistance

/-! Shortest routes -/

/-- A route without detours: it meets nothing twice, and no route has fewer stations. -/
structure IsShortest (link : α → α → Prop) (a b : α) (path : List α) : Prop
    extends IsRoute link a b path where
  simple : path.Nodup
  fewest : ∀ other, IsRoute link a b other → path.length ≤ other.length

theorem IsDistance.isShortest (h : IsDistance link a b n) {path : List α}
    (route : IsRoute link a b path) (length : path.length = n + 1) : IsShortest link a b path where
  toIsRoute := route
  simple := by
    -- What is met twice would allow a shorter way.
    refine List.pairwise_iff_getElem.2 fun i j hi hj less same => ?_
    have first : Steps link a i path[i] :=
      steps_of_isChain route.chain route.getElem?_zero
        (by rw [Nat.zero_add, List.getElem?_eq_getElem hi])
    have finish : path[j + (n - j)]? = some b := by
      rw [← route.getElem?_last]
      congr
      omega
    have last : Steps link path[i] (n - j) b := by
      rw [same]
      exact steps_of_isChain route.chain (List.getElem?_eq_getElem hj) finish
    have := h.le (first.trans last)
    omega
  fewest other shorter := by
    obtain ⟨m, e, steps⟩ := shorter.exists_steps
    have := h.le steps
    omega

/-! Depths -/

/-- The greatest number of steps that end in one. -/
def IsDepth (link : α → α → Prop) (b : α) (n : Nat) : Prop :=
  IsGreatest {n | ∃ a, Steps link a n b} n

/-- A depth is bounded by more than the depths of those just before. -/
theorem IsDepth.le_iff {depth : α → Nat} (h : IsDepth link b n)
    (before : ∀ a, link a b → IsDepth link a (depth a)) :
    n ≤ m ↔ ∀ a, link a b → depth a < m := by
  constructor
  · intro le a last
    obtain ⟨c, steps⟩ := (before a last).1
    have := h.2 ⟨c, steps.succ last⟩
    omega
  · intro bound
    obtain ⟨c, steps⟩ := h.1
    cases steps with
    | zero => exact Nat.zero_le m
    | succ steps last =>
      have := (before _ last).2 ⟨c, steps⟩
      have := bound _ last
      omega

end Precedence

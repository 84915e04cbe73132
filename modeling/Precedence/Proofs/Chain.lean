import Precedence.Graph.CriticalPath
import Precedence.Proofs.Graph
/-!
The best of several chains: a greatest one by its sum and, among equals, by the rank of its last
task. Where different chains end in tasks of different ranks, it does not matter in which order they
are looked at.
-/
namespace Precedence.CriticalPath.Chain

variable (r : Ranking)

/-- Whether a chain is no better than another one. -/
def Le (a b : Chain) : Prop :=
  a.finish < b.finish ∨ a.finish = b.finish ∧ r.rank b.last ≤ r.rank a.last

theorem Le.refl (a : Chain) : Le r a a := .inr ⟨rfl, Nat.le_refl _⟩

variable {r}

theorem Le.trans {a b c : Chain} (first : Le r a b) (second : Le r b c) : Le r a c := by
  unfold Le at *
  omega

theorem Le.ranks_eq {a b : Chain} (first : Le r a b) (second : Le r b a) :
    r.rank a.last = r.rank b.last := by
  unfold Le at *
  omega

theorem le_better (a b : Chain) : Le r a (better r a b) ∧ Le r b (better r a b) := by
  unfold better Le
  split <;> omega

theorem better_mem (a b : Chain) (cs : List Chain) : better r a b :: cs ⊆ a :: b :: cs := by
  unfold better
  split
  · exact List.cons_subset_cons a (List.subset_cons_self b cs)
  · exact List.subset_cons_self a (b :: cs)

theorem foldl_better (c : Chain) (cs : List Chain) :
    cs.foldl (better r) c ∈ c :: cs ∧ ∀ a ∈ c :: cs, Le r a (cs.foldl (better r) c) := by
  induction cs generalizing c with
  | nil => exact ⟨List.mem_cons_self, fun a ha => List.mem_singleton.1 ha ▸ .refl r c⟩
  | cons d cs ih =>
    obtain ⟨mem, bound⟩ := ih (better r c d)
    obtain ⟨left, right⟩ := le_better (r := r) c d
    have top := bound _ List.mem_cons_self
    refine ⟨better_mem c d cs mem, fun a ha => ?_⟩
    rcases List.mem_cons.1 ha with rfl | ha
    · exact left.trans top
    · rcases List.mem_cons.1 ha with rfl | ha
      · exact right.trans top
      · exact bound a (List.mem_cons_of_mem _ ha)

theorem mem_of_best? {cs : List Chain} {c : Chain} (h : best? r cs = some c) : c ∈ cs := by
  cases cs with
  | nil => contradiction
  | cons d cs => exact Option.some.inj h ▸ (foldl_better d cs).1

theorem le_of_best? {cs : List Chain} {c : Chain} (h : best? r cs = some c) :
    ∀ a ∈ cs, Le r a c := by
  cases cs with
  | nil => contradiction
  | cons d cs => exact Option.some.inj h ▸ (foldl_better d cs).2

theorem best?_eq_none_iff {cs : List Chain} : best? r cs = none ↔ cs = [] := by
  cases cs with
  | nil => exact ⟨fun _ => rfl, fun _ => rfl⟩
  | cons c cs => exact ⟨fun h => by contradiction, fun h => by contradiction⟩

theorem best?_eq_of_perm {cs cs' : List Chain} (perm : cs.Perm cs')
    (apart : ∀ a ∈ cs, ∀ b ∈ cs, r.rank a.last = r.rank b.last → a = b) :
    best? r cs = best? r cs' := by
  cases e : best? r cs with
  | none =>
    obtain rfl := best?_eq_none_iff.1 e
    exact (best?_eq_none_iff.2 perm.nil_eq.symm).symm
  | some c =>
    cases e' : best? r cs' with
    | none =>
      obtain rfl := best?_eq_none_iff.1 e'
      rw [perm.eq_nil] at e
      contradiction
    | some c' =>
      have hc' := perm.mem_iff.2 (mem_of_best? e')
      have worse := le_of_best? e' c (perm.mem_iff.1 (mem_of_best? e))
      rw [apart c (mem_of_best? e) c' hc' (worse.ranks_eq (le_of_best? e c' hc'))]

/-- The chains that end in some ranked tasks end in tasks of different ranks. -/
theorem eq_of_rank_eq {known : List Chain} {ps : List TaskId} (ranked : ∀ p ∈ ps, p ∈ r.order) :
    ∀ a ∈ ps.filterMap fun p => known.find? (·.last == p),
      ∀ b ∈ ps.filterMap fun p => known.find? (·.last == p), r.rank a.last = r.rank b.last →
        a = b := by
  intro a ha b hb same
  obtain ⟨p, hp, found⟩ := List.mem_filterMap.1 ha
  obtain ⟨q, -, found'⟩ := List.mem_filterMap.1 hb
  have last : a.last = p := by simpa using List.find?_some found
  have last' : b.last = q := by simpa using List.find?_some found'
  rw [last, last'] at same
  rw [Ranking.rank_inj (ranked p hp) same, found'] at found
  exact (Option.some.inj found).symm

end Precedence.CriticalPath.Chain

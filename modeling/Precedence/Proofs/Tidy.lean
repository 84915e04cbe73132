import Precedence.Analyzer.Basic
import Precedence.Proofs.Building
import Precedence.Proofs.Depth
/-!
What stored tasks are to be: they name only stored tasks, without going round, and record how long
the chains of prerequisites above them are.
-/
namespace Precedence

open Relation

/-- A task is stored that names the other one as a prerequisite. -/
def Needs (tasks : List Task) (d p : TaskId) : Prop := ∃ t ∈ tasks, t.id = d ∧ p ∈ t.dependsOn

/-- Stored tasks name stored tasks, each prerequisite once, and none needs itself. -/
structure Tidy (tasks : List Task) : Prop where
  distinct : (tasks.map Task.id).Nodup
  stored : ∀ t ∈ tasks, ∀ p ∈ t.dependsOn, p ∈ tasks.map Task.id
  once : ∀ t ∈ tasks, t.dependsOn.Nodup
  acyclic : ∀ v, ¬ TransGen (Needs tasks) v v
  parents : ∀ t ∈ tasks, ∀ p ∈ t.parent, p ∈ tasks.map Task.id

/-- The length of the longest chain of prerequisites above a task. -/
structure LongestAbove (tasks : List Task) (id : TaskId) (n : Nat) : Prop where
  reached : ∃ c : List TaskId, (id :: c).IsChain (Needs tasks) ∧ c.length = n
  longest : ∀ c : List TaskId, (id :: c).IsChain (Needs tasks) → c.length ≤ n

/-- A height of each stored task, told by what it is bounded by. -/
def Height (tasks : List Task) (height : TaskId → Nat) : Prop :=
  ∀ t ∈ tasks, ∀ n, height t.id ≤ n ↔ ∀ p ∈ t.dependsOn, height p < n

def greatestDepth : Nat := UInt32.size - 1

/-- Every stored task records its height, as far as its word counts. -/
def Records (tasks : List Task) (height : TaskId → Nat) : Prop :=
  ∀ t ∈ tasks, t.depth.toNat = min greatestDepth (height t.id)

def Settled (tasks : List Task) : Prop := ∃ height, Height tasks height ∧ Records tasks height

def heights (tasks : List Task) (height : TaskId → Nat) : List (TaskId × Nat) :=
  tasks.map fun t => (t.id, height t.id)

/-! Chains and heights -/

section

variable {tasks : List Task} {height : TaskId → Nat}

theorem Height.exists_chain (h : Height tasks height)
    (stored : ∀ t ∈ tasks, ∀ p ∈ t.dependsOn, p ∈ tasks.map Task.id) (n : Nat) :
    ∀ t ∈ tasks, height t.id = n →
      ∃ c : List TaskId, (t.id :: c).IsChain (Needs tasks) ∧ c.length = n := by
  induction n with
  | zero => exact fun t _ _ => ⟨[], .singleton _, rfl⟩
  | succ n ih =>
    intro t ht e
    have low : ¬ ∀ p ∈ t.dependsOn, height p < n := by
      intro all
      have := (h t ht n).2 all
      omega
    obtain ⟨p, hp, tall⟩ : ∃ p ∈ t.dependsOn, ¬ height p < n := by simpa using low
    have short := (h t ht (n + 1)).1 (Nat.le_of_eq e) p hp
    obtain ⟨u, hu, rfl⟩ := List.mem_map.1 (stored t ht p hp)
    obtain ⟨c, chain, length⟩ := ih u hu (by omega)
    exact ⟨u.id :: c, .cons_cons ⟨t, ht, rfl, hp⟩ chain, by rw [List.length_cons, length]⟩

theorem Height.length_le (h : Height tasks height)
    (stored : ∀ t ∈ tasks, ∀ p ∈ t.dependsOn, p ∈ tasks.map Task.id) (c : List TaskId) :
    ∀ t ∈ tasks, (t.id :: c).IsChain (Needs tasks) → c.length ≤ height t.id := by
  induction c with
  | nil => exact fun _ _ _ => Nat.zero_le _
  | cons p c ih =>
    intro t _ chain
    obtain ⟨⟨u, hu, same, hp⟩, rest⟩ := List.isChain_cons_cons.1 chain
    obtain ⟨q, hq, rfl⟩ := List.mem_map.1 (stored u hu p hp)
    have below := (h u hu (height u.id)).1 (Nat.le_refl _) q.id hp
    have := ih q hq rest
    rw [List.length_cons, ← same]
    omega

/-- The height of a task is the length of the longest chain above it. -/
theorem Height.longest (h : Height tasks height)
    (stored : ∀ t ∈ tasks, ∀ p ∈ t.dependsOn, p ∈ tasks.map Task.id) {t : Task} (ht : t ∈ tasks) :
    LongestAbove tasks t.id (height t.id) :=
  ⟨h.exists_chain stored _ t ht rfl, fun c => h.length_le stored c t ht⟩

theorem lookup_heights {t : Task} (ht : t ∈ tasks) :
    (heights tasks height).lookup t.id = some (height t.id) := by
  have table : heights tasks height = (tasks.map Task.id).map fun v => (v, height v) := by
    rw [List.map_map]
    rfl
  rw [table, Countdown.lookup_map_self (List.mem_map_of_mem ht)]

theorem LongestAbove.unique {id : TaskId} {m n : Nat} (h : LongestAbove tasks id m)
    (h' : LongestAbove tasks id n) : m = n := by
  obtain ⟨c, chain, rfl⟩ := h.reached
  obtain ⟨c', chain', rfl⟩ := h'.reached
  exact Nat.le_antisymm (h'.longest c chain) (h.longest c' chain')

end

/-- Stored tasks have different identifiers, so the one that is meant is the one that needs. -/
theorem needs_iff {tasks : List Task} (distinct : (tasks.map Task.id).Nodup) {t : Task}
    (ht : t ∈ tasks) {p : TaskId} : Needs tasks t.id p ↔ p ∈ t.dependsOn := by
  refine ⟨?_, fun hp => ⟨t, ht, rfl, hp⟩⟩
  rintro ⟨u, hu, same, hp⟩
  rwa [← List.inj_on_of_nodup_map distinct hu ht same]

/-! The graph of stored tasks -/

def graphOf (tasks : List Task) : Graph := (Graph.buildLenient tasks (tasks.flatMap Task.edges)).1

@[simp] theorem sound_graphOf (tasks : List Task) : (graphOf tasks).Sound :=
  Graph.sound_buildLenient _ _

theorem ids_graphOf {tasks : List Task} (distinct : (tasks.map Task.id).Nodup) :
    (graphOf tasks).ids = tasks.map Task.id :=
  Graph.ids_buildLenient distinct _

/-- The second task needs the first, which is stored and another one. Whatever else stored tasks
name does not count. -/
def Feeds (tasks : List Task) (p d : TaskId) : Prop :=
  Needs tasks d p ∧ p ≠ d ∧ p ∈ tasks.map Task.id

theorem mem_edges {tasks : List Task} {p d : TaskId} :
    (⟨d, p⟩ : Edge) ∈ tasks.flatMap Task.edges ↔ Needs tasks d p := by
  simp [Needs, Task.edges, and_comm]

@[simp] theorem link_graphOf (tasks : List Task) : (graphOf tasks).Link = Feeds tasks := by
  funext p d
  rw [graphOf, Graph.link_buildLenient, mem_edges, Feeds, eq_iff_iff]
  constructor
  · rintro ⟨needs, other, -, hp⟩
    exact ⟨needs, other.symm, hp⟩
  · rintro ⟨⟨t, ht, rfl, hq⟩, other, hp⟩
    exact ⟨⟨t, ht, rfl, hq⟩, other.symm, List.mem_map_of_mem ht, hp⟩

theorem mem_prerequisites_graphOf {tasks : List Task} {p d : TaskId} :
    p ∈ (graphOf tasks).prerequisites d ↔ Feeds tasks p d := by
  simp

theorem mem_missing_graphOf {tasks : List Task} {p d : TaskId} :
    p ∈ (graphOf tasks).missing d ↔ Needs tasks d p ∧ p ≠ d ∧ p ∉ tasks.map Task.id := by
  rw [graphOf, Graph.mem_missing_buildLenient, mem_edges]
  constructor
  · rintro ⟨needs, other, -, absent⟩
    exact ⟨needs, other.symm, absent⟩
  · rintro ⟨⟨t, ht, rfl, hq⟩, other, absent⟩
    exact ⟨⟨t, ht, rfl, hq⟩, other.symm, List.mem_map_of_mem ht, absent⟩

namespace Tidy

variable {tasks : List Task} (h : Tidy tasks)

theorem mem_ids {t : Task} (ht : t ∈ tasks) : t.id ∈ tasks.map Task.id := List.mem_map_of_mem ht

include h

theorem noSelf {t : Task} (ht : t ∈ tasks) : t.id ∉ t.dependsOn := fun self =>
  h.acyclic t.id (.single ⟨t, ht, rfl, self⟩)

theorem length_chain_lt {v : TaskId} {c : List TaskId} (hv : v ∈ tasks.map Task.id)
    (chain : (v :: c).IsChain (Needs tasks)) : c.length < tasks.length := by
  have among : v :: c ⊆ tasks.map Task.id := by
    intro p hp
    rcases ReflTransGen.cases_tail (reaches_of_head chain rfl hp) with
      rfl | ⟨w, -, t, ht, -, needed⟩
    · exact hv
    · exact h.stored t ht p needed
  have length := (List.subperm_of_subset (nodup_of_isChain h.acyclic chain) among).length_le
  rwa [List.length_cons, List.length_map] at length

theorem link_iff {p d : TaskId} : (graphOf tasks).Link p d ↔ Needs tasks d p := by
  rw [link_graphOf]
  refine ⟨And.left, ?_⟩
  rintro ⟨t, ht, rfl, hp⟩
  refine ⟨⟨t, ht, rfl, hp⟩, ?_, h.stored t ht p hp⟩
  rintro rfl
  exact h.noSelf ht hp

theorem link_eq : (graphOf tasks).Link = Function.swap (Needs tasks) := by
  funext p d
  exact propext h.link_iff

theorem graph_acyclic : (graphOf tasks).Acyclic := by
  intro v round
  rw [h.link_eq, transGen_swap] at round
  exact h.acyclic v round

theorem height_of_isHeight {height : TaskId → Nat} (isHeight : (graphOf tasks).IsHeight height) :
    Height tasks height := by
  intro t ht n
  have there : t.id ∈ (graphOf tasks).ids := by
    rw [ids_graphOf h.distinct]
    exact mem_ids ht
  rw [isHeight t.id there n]
  refine forall_congr' fun p => imp_congr_left ?_
  rw [(sound_graphOf tasks).mem_prerequisites, h.link_iff, needs_iff h.distinct ht]

theorem exists_depths (compare : Comparison) : ∃ height, Height tasks height ∧
    (graphOf tasks).depths (.ofGraph (graphOf tasks) compare) = .ok (heights tasks height) := by
  obtain ⟨height, isHeight, depths⟩ := Graph.exists_depths (sound_graphOf tasks)
    (Ranking.order_perm (graphOf tasks) compare) h.graph_acyclic
  refine ⟨height, h.height_of_isHeight isHeight, ?_⟩
  rw [depths, ids_graphOf h.distinct, List.map_map]
  rfl

theorem no_problems : (Graph.buildLenient tasks (tasks.flatMap Task.edges)).2 = [] := by
  rw [Graph.buildLenient, Graph.foldl_addTask_distinct h.distinct, Graph.addEdges_eq]
  apply List.filterMap_eq_nil_iff.2
  intro e he
  obtain ⟨t, ht, he⟩ := List.mem_flatMap.1 he
  obtain ⟨p, hp, rfl⟩ := List.mem_map.1 he
  have contains {id : TaskId} (hid : id ∈ tasks.map Task.id) :
      Graph.contains { tasks } id = true := (Graph.contains_iff { tasks } id).2 hid
  have other : (t.id == p) = false := by
    rw [beq_eq_false_iff_ne]
    rintro rfl
    exact h.noSelf ht hp
  simp [Graph.fault?, Edge.isSelf, other, contains (mem_ids ht), contains (h.stored t ht p hp)]

/-- An analyzer of the stored tasks finds the heights. -/
theorem exists_dependencyDepths (options : AnalysisOptions) : ∃ height, Height tasks height ∧
    (Analyzer.ofSnapshot (.ofTasks tasks) options).depths = .ok (heights tasks height) := by
  obtain ⟨height, isHeight, depths⟩ := h.exists_depths options.tieBreak.compare
  refine ⟨height, isHeight, ?_⟩
  have noCycle := (Graph.findCycle_eq_none_iff (sound_graphOf tasks)
    (Ranking.order_perm (graphOf tasks) options.tieBreak.compare)).2 h.graph_acyclic
  have acyclic : (graphOf tasks).checkAcyclic
      (.ofGraph (graphOf tasks) options.tieBreak.compare) = .ok () := by
    rw [Graph.checkAcyclic, noCycle]
  have problems : (Analyzer.ofSnapshot (.ofTasks tasks) options).problems = [] := h.no_problems
  have valid : (Analyzer.ofSnapshot (.ofTasks tasks) options).ensureValid = .ok () := by
    rw [Analyzer.ensureValid, problems]
    exact acyclic
  rw [Analyzer.depths, valid]
  exact depths

end Tidy

/-- What is promised of stored tasks: they are tidy, and each records the length of the longest
chain of prerequisites above it, which is the depth that an analyzer finds. -/
structure Consistent (tasks : List Task) : Prop where
  distinct : (tasks.map Task.id).Nodup
  stored : ∀ t ∈ tasks, ∀ p ∈ t.dependsOn, p ∈ tasks.map Task.id
  noSelf : ∀ t ∈ tasks, t.id ∉ t.dependsOn
  once : ∀ t ∈ tasks, t.dependsOn.Nodup
  acyclic : ∀ v, ¬ TransGen (Needs tasks) v v
  parents : ∀ t ∈ tasks, ∀ p ∈ t.parent, p ∈ tasks.map Task.id
  depths : ∀ options, ∃ depths, (Analyzer.ofSnapshot (.ofTasks tasks) options).depths = .ok depths ∧
    ∀ t ∈ tasks, ∃ n < tasks.length, depths.lookup t.id = some n ∧ LongestAbove tasks t.id n ∧
      t.depth.toNat = min greatestDepth n

theorem Settled.consistent {tasks : List Task} (h : Tidy tasks) (settled : Settled tasks) :
    Consistent tasks where
  distinct := h.distinct
  stored := h.stored
  noSelf _ ht := h.noSelf ht
  once := h.once
  acyclic := h.acyclic
  parents := h.parents
  depths options := by
    obtain ⟨recorded, isHeight, records⟩ := settled
    obtain ⟨height, isHeight', depths⟩ := h.exists_dependencyDepths options
    refine ⟨_, depths, fun t ht => ?_⟩
    have longest := isHeight'.longest h.stored ht
    obtain ⟨c, chain, length⟩ := longest.reached
    refine ⟨height t.id, ?_, lookup_heights ht, longest, ?_⟩
    · rw [← length]
      exact h.length_chain_lt (Tidy.mem_ids ht) chain
    · rw [records t ht, (isHeight.longest h.stored ht).unique longest]

theorem tidy_nil : Tidy [] where
  distinct := List.nodup_nil
  stored _ ht := nomatch ht
  once _ ht := nomatch ht
  acyclic v round := by
    obtain ⟨w, -, t, ht, -⟩ := TransGen.tail'_iff.1 round
    exact List.not_mem_nil ht
  parents _ ht := nomatch ht

theorem settled_nil : Settled [] := ⟨fun _ => 0, List.forall_mem_nil _, List.forall_mem_nil _⟩

end Precedence

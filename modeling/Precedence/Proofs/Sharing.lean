import Precedence.Analyzer.Cache
import Precedence.Proofs.Validity
/-!
A shared analyzer. Sources come and go, with a revision or without one, and fail now and then; a
cache between them and its callers never passes on an analyzer of anything but what the source
holds.
-/
namespace Precedence

/-- What a source holds, and what of it cannot be had. -/
structure Supply (ε : Type) where
  content : Snapshot
  revision : Option String
  tasksFault : Option ε := none
  edgesFault : Option ε := none
  revisionFault : Option ε := none

namespace Supply

variable {ε : Type}

def orFault {α : Type} (fault : Option ε) (x : α) : Except ε α := fault.elim (.ok x) .error

def source (s : Supply ε) : Source ε where
  tasks := orFault s.tasksFault s.content.tasks
  edges := orFault s.edgesFault s.content.edges
  revision := orFault s.revisionFault s.revision

/-- No two supplies differ in what they hold under one revision. -/
def Coherent (supplies : List (Supply ε)) : Prop :=
  ∀ x ∈ supplies, ∀ y ∈ supplies, ∀ revision, x.revision = some revision →
    y.revision = some revision → x.content = y.content

theorem orFault_eq_ok {α : Type} {fault : Option ε} {x y : α} (h : orFault fault x = .ok y) :
    fault = none ∧ x = y := by
  cases fault with
  | none => exact ⟨rfl, Except.ok.inj h⟩
  | some e => contradiction

theorem revision_source {s : Supply ε} {revision : Option String} :
    s.source.revision = .ok revision ↔ s.revisionFault = none ∧ s.revision = revision := by
  constructor
  · exact orFault_eq_ok
  · rintro ⟨sound, rfl⟩
    unfold source
    rw [sound]
    rfl

theorem content_of_snapshot {s : Supply ε} {snapshot : Snapshot}
    (h : s.source.snapshot = .ok snapshot) :
    snapshot = s.content := by
  unfold Source.snapshot source at h
  cases tasks : orFault s.tasksFault s.content.tasks with
  | error e => rw [tasks] at h; contradiction
  | ok ts =>
    cases edges : orFault s.edgesFault s.content.edges with
    | error e => rw [tasks, edges] at h; contradiction
    | ok es =>
      rw [tasks, edges, ← (orFault_eq_ok tasks).2, ← (orFault_eq_ok edges).2] at h
      exact (Except.ok.inj h).symm

end Supply

namespace AnalyzerCache

variable {ε : Type}

@[simp] theorem lookup?_eq_some {c : AnalyzerCache} {revision : Option String} {issue : Issue} :
    c.lookup? revision = some issue ↔ ∃ kept, revision = some kept ∧
      c.entry = some (kept, issue) := by
  unfold lookup?
  cases c.entry with
  | none => simp
  | some e =>
    obtain ⟨kept, other⟩ := e
    constructor
    · intro found
      have same : revision = some kept := by
        by_contra differs
        simp [differs] at found
      refine ⟨kept, same, ?_⟩
      simpa [same] using found
    · rintro ⟨_, rfl, e⟩
      obtain ⟨rfl, rfl⟩ := Prod.mk.inj (Option.some.inj e)
      simp

theorem ne_of_lookup?_eq_none {c : AnalyzerCache} {revision : Option String}
    (unknown : c.lookup? revision = none) : ∀ e ∈ c.entry, revision ≠ some e.1 := by
  intro e kept same
  rw [lookup?_eq_some.2 ⟨e.1, same, kept⟩] at unknown
  contradiction

/-- A new analyzer is newer than any that is kept. -/
theorem entry_issue {c : AnalyzerCache} (counted : ∀ e ∈ c.entry, e.2.generation ≤ c.generation)
    (revision : Option String) (analyzer : Analyzer) :
    (c.issue revision analyzer).2.entry = match revision with
      | some revision => some (revision, ⟨c.generation + 1, analyzer⟩)
      | none => c.entry := by
  cases revision with
  | none => rfl
  | some revision =>
    have newer : (c.entry.all fun e => e.2.generation < c.generation + 1) = true := by
      cases entry : c.entry with
      | none => rfl
      | some e => simpa using Nat.lt_succ_of_le (counted e entry)
    unfold issue keep
    dsimp only
    rw [if_pos newer]

/-- Whatever is kept after a build was kept before, or was built under the revision it is kept
under. -/
theorem mem_entry_issue {c : AnalyzerCache} {revision : Option String} {analyzer : Analyzer}
    {e : String × Issue} (kept : e ∈ (c.issue revision analyzer).2.entry) :
    e ∈ c.entry ∨ revision = some e.1 ∧ e.2 = ⟨c.generation + 1, analyzer⟩ := by
  cases revision with
  | none => exact .inl kept
  | some revision =>
    unfold issue keep at kept
    dsimp only at kept
    split at kept
    · obtain rfl := Option.some.inj kept
      exact .inr ⟨rfl, rfl⟩
    · exact .inl kept

@[simp] theorem issue_fst (c : AnalyzerCache) (revision : Option String) (analyzer : Analyzer) :
    (c.issue revision analyzer).1 = ⟨c.generation + 1, analyzer⟩ := by
  cases revision <;> rfl

theorem generation_issue (c : AnalyzerCache) (revision : Option String) (analyzer : Analyzer) :
    (c.issue revision analyzer).2.generation = c.generation + 1 ∧
      (c.issue revision analyzer).2.options = c.options := by
  cases revision with
  | none => exact ⟨rfl, rfl⟩
  | some revision =>
    unfold issue keep
    dsimp only
    split <;> exact ⟨rfl, rfl⟩

/-- What a cache answers for a source, what it keeps then, and how often it loads the source. -/
inductive Serves (c : AnalyzerCache) (source : Source ε) :
    Except ε Issue → AnalyzerCache → Nat → Prop
    where
  | unidentified {e : ε} (failed : source.revision = .error e) : Serves c source (.error e) c 0
  | kept {revision : Option String} {issue : Issue} (identified : source.revision = .ok revision)
    (found : c.lookup? revision = some issue) : Serves c source (.ok issue) c 0
  | unloaded {revision : Option String} {e : ε} (identified : source.revision = .ok revision)
    (unknown : c.lookup? revision = none) (failed : source.snapshot = .error e) :
    Serves c source (.error e) c 1
  | built {revision : Option String} {s : Snapshot} (identified : source.revision = .ok revision)
    (unknown : c.lookup? revision = none) (loaded : source.snapshot = .ok s) :
    Serves c source (.ok (c.issue revision (.ofSnapshot s c.options)).1)
      (c.issue revision (.ofSnapshot s c.options)).2 1

theorem serves (c : AnalyzerCache) (source : Source ε) :
    c.Serves source ((c.getCounted source).run 0).1.1 ((c.getCounted source).run 0).1.2
      ((c.getCounted source).run 0).2 := by
  cases identified : source.revision with
  | error e =>
    have run : (c.getCounted source).run 0 = ((.error e, c), 0) := by
      rw [getCounted, identified]
      rfl
    rw [run]
    exact .unidentified identified
  | ok revision =>
    cases found : c.lookup? revision with
    | some issue =>
      have run : (c.getCounted source).run 0 = ((.ok issue, c), 0) := by
        simp only [getCounted, serve, identified, found, pure_bind]
        rfl
      rw [run]
      exact .kept identified found
    | none =>
      cases loaded : source.snapshot with
      | error e =>
        have run : (c.getCounted source).run 0 = ((.error e, c), 1) := by
          simp only [getCounted, serve, identified, found, loaded, pure_bind]
          rfl
        rw [run]
        exact .unloaded identified found loaded
      | ok s =>
        have run : (c.getCounted source).run 0 =
            ((.ok (c.issue revision (.ofSnapshot s c.options)).1,
              (c.issue revision (.ofSnapshot s c.options)).2), 1) := by
          simp only [getCounted, serve, identified, found, loaded, pure_bind]
          rfl
        rw [run]
        exact .built identified found loaded

theorem serves_get (c : AnalyzerCache) (source : Source ε) :
    ∃ loads, c.Serves source (c.get source).1 (c.get source).2 loads := by
  have same : c.get source = ((c.getCounted source).run 0).1 := by
    unfold get getCounted serve
    cases source.revision with
    | error e => rfl
    | ok revision =>
      cases found : c.lookup? revision with
      | some issue => simp only [pure_bind, found]; rfl
      | none => cases source.snapshot <;> simp only [pure_bind, found] <;> rfl
  rw [same]
  exact ⟨_, c.serves source⟩

namespace Serves

variable {c c' : AnalyzerCache} {source : Source ε} {answer : Except ε Issue} {loads : Nat}

/-- A cache gives what it keeps, and loads nothing, exactly if the source has the revision of
that. -/
theorem kept_iff (h : c.Serves source answer c' loads) :
    (loads = 0 ∧ ∃ e ∈ c.entry, answer = .ok e.2) ↔
      ∃ e ∈ c.entry, source.revision = .ok (some e.1) := by
  cases h with
  | unidentified failed => simp [failed]
  | kept identified found =>
    obtain ⟨revision, rfl, there⟩ := lookup?_eq_some.1 found
    exact ⟨fun _ => ⟨_, there, identified⟩, fun _ => ⟨rfl, _, there, rfl⟩⟩
  | unloaded identified unknown | built identified unknown =>
    have other := ne_of_lookup?_eq_none unknown
    rw [identified]
    constructor
    · intro ⟨nothing, _⟩
      contradiction
    · intro ⟨e, there, same⟩
      exact absurd (Except.ok.inj same) (other e there)

/-- A build without a revision leaves what is kept where it is. -/
theorem entry_of_unversioned (h : c.Serves source answer c' loads)
    (unversioned : ∀ revision, source.revision ≠ .ok (some revision)) : c'.entry = c.entry := by
  cases h with
  | unidentified | kept | unloaded => rfl
  | @built revision _ identified _ _ =>
    cases revision with
    | none => rfl
    | some revision => exact absurd identified (unversioned revision)

theorem eq_of_error {e : ε} (h : c.Serves source (.error e) c' loads) : c' = c := by
  cases h <;> rfl

theorem fails {e : ε} (h : c.Serves source (.error e) c' loads) :
    source.revision = .error e ∨ (∃ r, source.revision = .ok r) ∧ source.snapshot = .error e := by
  cases h with
  | unidentified failed => exact .inl failed
  | unloaded identified _ failed => exact .inr ⟨⟨_, identified⟩, failed⟩

end Serves

end AnalyzerCache

/-! Runs -/

namespace Sharing

inductive Event (ε : Type) where
  | replace (supply : Supply ε)
  | get
  | invalidate

/-- What was done with a cache: it was asked for an analyzer of a supply, gave an answer and loaded
the supply so often; or what it kept was dropped. -/
inductive Entry (ε : Type) where
  | got (supply : Supply ε) (answer : Except ε Issue) (loads : Nat)
  | invalidated

variable {ε : Type}

def Entry.isBuild : Entry ε → Bool
  | .got _ (.ok _) loads => loads ≠ 0
  | _ => false

/-- How many analyzers were built. -/
def builds (log : List (Entry ε)) : Nat := log.countP Entry.isBuild

/-- The last build of a supply with a revision since everything was last dropped, from a log that
has the latest entry first. -/
def lastBuild? : List (Entry ε) → Option (String × Issue)
  | [] => none
  | .invalidated :: _ => none
  | .got _ (.error _) _ :: earlier => lastBuild? earlier
  | .got supply (.ok issue) loads :: earlier =>
    match supply.revision with
    | some revision => if loads = 0 then lastBuild? earlier else some (revision, issue)
    | none => lastBuild? earlier

end Sharing

/-- A cache, what the source behind it holds, and what was done so far, the latest first. -/
structure Sharing (ε : Type) where
  cache : AnalyzerCache
  supply : Supply ε
  log : List (Sharing.Entry ε) := []

namespace Sharing

variable {ε : Type}

/-- What the cache says when asked for an analyzer, what it keeps then, and how often it loads. -/
def asked (s : Sharing ε) : (Except ε Issue × AnalyzerCache) × Nat :=
  (s.cache.getCounted s.supply.source).run 0

def step (s : Sharing ε) : Event ε → Sharing ε
  | .replace supply => { s with supply }
  | .get =>
    let ((answer, cache), loads) := s.asked
    { s with cache, log := .got s.supply answer loads :: s.log }
  | .invalidate => { s with cache := s.cache.invalidate, log := .invalidated :: s.log }

def run (s : Sharing ε) (events : List (Event ε)) : Sharing ε := events.foldl step s

/-- What the source holds in the course of some events. -/
def supplies : List (Event ε) → List (Supply ε)
  | [] => []
  | .replace supply :: events => supply :: supplies events
  | _ :: events => supplies events

/-- What holds of a cache at any time: its counter and what it keeps are told by the log, and what
it keeps is an analyzer of a supply that had the revision it is kept under. -/
structure Inv (options : AnalysisOptions) (known : List (Supply ε)) (s : Sharing ε) : Prop where
  supplied : s.supply ∈ known
  options_eq : s.cache.options = options
  generation_eq : s.cache.generation = builds s.log
  entry_eq : s.cache.entry = lastBuild? s.log
  counted : ∀ e ∈ s.cache.entry, e.2.generation ≤ s.cache.generation
  loaded : ∀ e ∈ s.cache.entry, ∃ x ∈ known, x.revision = some e.1 ∧
    e.2.analyzer = .ofSnapshot x.content options

theorem lastBuild?_of_kept (supply : Supply ε) (issue : Issue) (log : List (Entry ε)) :
    lastBuild? (.got supply (.ok issue) 0 :: log) = lastBuild? log := by
  rw [lastBuild?]
  cases supply.revision <;> rfl

namespace Inv

variable {options : AnalysisOptions} {known : List (Supply ε)} {s : Sharing ε}

theorem start (options : AnalysisOptions) {first : Supply ε} (supplied : first ∈ known) :
    Inv options known ⟨{ options }, first, []⟩ where
  supplied := supplied
  options_eq := rfl
  generation_eq := rfl
  entry_eq := rfl
  counted := fun _ kept => nomatch kept
  loaded := fun _ kept => nomatch kept

theorem replace (h : Inv options known s) {supply : Supply ε} (supplied : supply ∈ known) :
    Inv options known (s.step (.replace supply)) := { h with supplied }

theorem invalidate (h : Inv options known s) : Inv options known (s.step .invalidate) where
  supplied := h.supplied
  options_eq := h.options_eq
  generation_eq := h.generation_eq
  entry_eq := rfl
  counted := fun _ kept => nomatch kept
  loaded := fun _ kept => nomatch kept

theorem build (h : Inv options known s) :
    let built := s.cache.issue s.supply.revision (.ofSnapshot s.supply.content s.cache.options)
    Inv options known ⟨built.2, s.supply, .got s.supply (.ok built.1) 1 :: s.log⟩ := by
  intro built
  obtain ⟨generation, same⟩ := s.cache.generation_issue s.supply.revision
    (.ofSnapshot s.supply.content s.cache.options)
  have kept {e : String × Issue} (kept : e ∈ built.2.entry) :=
    AnalyzerCache.mem_entry_issue kept
  refine ⟨h.supplied, same.trans h.options_eq, ?_, ?_, fun e he => ?_, fun e he => ?_⟩
  · rw [generation, h.generation_eq]
    exact (List.countP_cons_of_pos rfl).symm
  · rw [AnalyzerCache.entry_issue h.counted, h.entry_eq, lastBuild?, AnalyzerCache.issue_fst]
    cases s.supply.revision <;> rfl
  · rw [generation]
    rcases kept he with old | ⟨-, new⟩
    · exact Nat.le_succ_of_le (h.counted e old)
    · rw [new]
  · rcases kept he with old | ⟨identified, new⟩
    · exact h.loaded e old
    · exact ⟨s.supply, h.supplied, identified, by rw [new, h.options_eq]⟩

theorem get (h : Inv options known s) : Inv options known (s.step .get) := by
  have serves := s.cache.serves s.supply.source
  unfold step asked
  generalize (s.cache.getCounted s.supply.source).run 0 = outcome at serves
  obtain ⟨⟨answer, cache⟩, loads⟩ := outcome
  dsimp only at serves ⊢
  cases serves with
  | unidentified | unloaded => exact { h with }
  | kept => exact { h with entry_eq := h.entry_eq.trans (lastBuild?_of_kept ..).symm }
  | built identified _ read =>
    obtain ⟨-, rfl⟩ := Supply.revision_source.1 identified
    obtain rfl := Supply.content_of_snapshot read
    exact h.build

theorem run {events : List (Event ε)} (h : Inv options known s)
    (supplied : ∀ x ∈ supplies events, x ∈ known) : Inv options known (s.run events) := by
  induction events generalizing s with
  | nil => exact h
  | cons event events ih =>
    cases event with
    | replace supply =>
      obtain ⟨first, others⟩ := List.forall_mem_cons.1 supplied
      exact ih (h.replace first) others
    | get => exact ih h.get supplied
    | invalidate => exact ih h.invalidate supplied

/-- Whatever is given, kept or new, is an analyzer of what the source holds. -/
theorem analyzer_eq (h : Inv options known s) (coherent : Supply.Coherent known) {issue : Issue}
    {cache : AnalyzerCache} {loads : Nat}
    (serves : s.cache.Serves s.supply.source (.ok issue) cache loads) :
    issue.analyzer = .ofSnapshot s.supply.content options := by
  cases serves with
  | kept identified found =>
    obtain ⟨revision, rfl, kept⟩ := AnalyzerCache.lookup?_eq_some.1 found
    obtain ⟨x, hx, same, built⟩ := h.loaded _ kept
    rw [built, coherent x hx s.supply h.supplied revision same
      (Supply.revision_source.1 identified).2]
  | built _ _ read =>
    obtain rfl := Supply.content_of_snapshot read
    rw [AnalyzerCache.issue_fst, h.options_eq]

theorem cachedGeneration_le (h : Inv options known s) :
    ∀ n ∈ s.cache.cachedGeneration, n ≤ s.cache.generation := by
  intro n cached
  obtain ⟨e, kept, rfl⟩ := Option.map_eq_some_iff.1 cached
  exact h.counted e kept

end Inv

/-- A cache always serves what its source holds now, however the source changed, failed or did
without a revision, if one revision never stands for two contents. Whatever was done so far, its
counter is the number of builds, and it keeps the last build of a source with a revision. Asked
next, an analyzer that it gives answers like one newly loaded, whatever it was asked before by
others; it gives the one that is kept and loads nothing exactly if the source has the revision of
that one; a source without a revision leaves in place what is kept, and a failure leaves the whole
cache as it was. -/
theorem serves_current (options : AnalysisOptions) (first : Supply ε) (events : List (Event ε))
    (coherent : Supply.Coherent (first :: supplies events)) :
    let s := (Sharing.mk { options } first []).run events
    let ((answer, cache), loads) := s.asked
    (s.cache.generation = builds s.log ∧
      s.cache.cachedGeneration = (lastBuild? s.log).map (·.2.generation) ∧
      ∀ n ∈ s.cache.cachedGeneration, n ≤ s.cache.generation) ∧
    (∀ issue, answer = .ok issue → ∀ earlier {α : Type} (q : Question α),
      ((Consultation.after ⟨issue.analyzer, none⟩ earlier).ask q).1 =
        (Analyzer.ofSnapshot s.supply.content options).answer q) ∧
    ((loads = 0 ∧ ∃ kept ∈ s.cache.entry, answer = .ok kept.2) ↔
      s.supply.revisionFault = none ∧ ∃ last ∈ lastBuild? s.log, s.supply.revision = some last.1) ∧
    (s.supply.revision = none → cache.entry = s.cache.entry) ∧
    (∀ e, answer = .error e → cache = s.cache) := by
  intro s
  have inv : Inv options (first :: supplies events) s :=
    (Inv.start options List.mem_cons_self).run fun _ hx => List.mem_cons_of_mem _ hx
  have serves := s.cache.serves s.supply.source
  unfold asked
  generalize (s.cache.getCounted s.supply.source).run 0 = outcome at serves ⊢
  obtain ⟨⟨answer, cache⟩, loads⟩ := outcome
  dsimp only at serves ⊢
  refine ⟨⟨inv.generation_eq, ?_, inv.cachedGeneration_le⟩, ?_, ?_, ?_, ?_⟩
  · rw [AnalyzerCache.cachedGeneration, inv.entry_eq]
  · rintro issue rfl earlier α q
    rw [Consultation.ask_after, inv.analyzer_eq coherent serves]
  · rw [serves.kept_iff, inv.entry_eq]
    simp only [Supply.revision_source, exists_and_left, and_left_comm]
  · intro unversioned
    apply serves.entry_of_unversioned
    intro revision identified
    have versioned := (Supply.revision_source.1 identified).2
    rw [unversioned] at versioned
    contradiction
  · rintro e rfl
    exact serves.eq_of_error

open TaskMap in
def firstSupply : Supply String := { content := .ofTasks [sample a "x"], revision := some "1" }

open TaskMap in
/-- A new content under a new revision that cannot be loaded, then one without a revision, and then
the first one again. -/
def returning : List (Event String) :=
  [.get,
    .replace {
      content := .ofTasks [sample b "y"], revision := some "2", tasksFault := some "lost" },
    .get, .replace { content := .ofTasks [sample a "z"], revision := none }, .get,
    .replace firstSupply]

/-- After a failure and a build without a revision the first analyzer is still there. -/
theorem serves_current_on_return :
    Supply.Coherent (firstSupply :: supplies returning) ∧
      let s := (Sharing.mk { options := {} } firstSupply []).run returning
      s.cache.generation = 2 ∧ s.cache.cachedGeneration = some 1 ∧ s.asked.2 = 0 ∧
        ∃ kept ∈ s.cache.entry, s.asked.1.1 = .ok kept.2 := by
  have coherent : Supply.Coherent (firstSupply :: supplies returning) := by
    simp [Supply.Coherent, returning, supplies, firstSupply]
  obtain ⟨⟨generation, cached, -⟩, -, served, -⟩ := serves_current {} firstSupply returning coherent
  refine ⟨coherent, generation.trans rfl, cached.trans rfl, served.2 ⟨rfl, ?_⟩⟩
  exact ⟨_, rfl, rfl⟩

end Sharing
end Precedence

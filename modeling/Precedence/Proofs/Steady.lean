import Precedence.Proofs.Record
/-!
Reading a text that goes on: a reader of JSON that has stopped before the end of a text reads the
same from a longer one and leaves what was added.
-/
namespace Precedence.Json

open Text

theorem dropGap_append {c : Char} {cs rest : List Char} (h : dropGap cs = c :: rest)
    (more : List Char) : dropGap (cs ++ more) = c :: (rest ++ more) := by
  rw [dropGap, List.dropWhile_append, ← dropGap, h]
  rfl

theorem dropGap_append_of_ne_nil {cs : List Char} (h : dropGap cs ≠ []) (more : List Char) :
    dropGap (cs ++ more) = dropGap cs ++ more := by
  obtain ⟨c, rest, e⟩ := List.exists_cons_of_ne_nil h
  rw [dropGap_append e, e, List.cons_append]

/-- The first character behind a gap stays what it is, and what it is not. -/
theorem dropGap_append_other {cs : List Char} (h : dropGap cs ≠ []) {c : Char}
    (other : ∀ rest, dropGap cs = c :: rest → False) (more rest : List Char) :
    dropGap (cs ++ more) = c :: rest → False := by
  obtain ⟨d, left, e⟩ := List.exists_cons_of_ne_nil h
  rw [dropGap_append e]
  intro same
  exact other left (by rw [e, (List.cons.inj same).1])

theorem ne_nil_of_dropGap {cs : List Char} (h : dropGap cs ≠ []) : cs ≠ [] := by
  rintro rfl
  exact h rfl

/-- A reader that stops before the end of a text stops there as well when the text goes on. -/
structure Steady {α : Type} (read : List Char → Option (α × List Char)) : Prop where
  goesOn : ∀ {cs a rest}, read cs = some (a, rest) → rest ≠ [] →
    cs ≠ [] ∧ ∀ more, read (cs ++ more) = some (a, rest ++ more)

section

variable {α β : Type} {read : List Char → Option (α × List Char)}

theorem Steady.pure (a : α) : Steady fun cs => some (a, cs) := by
  refine ⟨?_⟩
  rintro cs _ _ ⟨⟩ stops
  exact ⟨stops, fun _ => rfl⟩

theorem Steady.bind {next : α → List Char → Option (β × List Char)} (h : Steady read)
    (h' : ∀ a, Steady (next a)) : Steady fun cs => read cs >>= fun r => next r.1 r.2 := by
  refine ⟨fun {cs b rest} both stops => ?_⟩
  obtain ⟨⟨a, mid⟩, first, second⟩ := Option.bind_eq_some_iff.1 both
  obtain ⟨left, goes⟩ := (h' a).goesOn second stops
  obtain ⟨nonempty, went⟩ := h.goesOn first left
  refine ⟨nonempty, fun more => ?_⟩
  rw [went more]
  exact goes more

theorem Steady.map (h : Steady read) (f : α → β) :
    Steady fun cs => (read cs).map fun r => (f r.1, r.2) := by
  refine ⟨fun {cs b rest} mapped stops => ?_⟩
  obtain ⟨⟨a, mid⟩, first, e⟩ := Option.map_eq_some_iff.1 mapped
  cases e
  obtain ⟨nonempty, went⟩ := h.goesOn first stops
  exact ⟨nonempty, fun more => by rw [went more]; rfl⟩

theorem Steady.gap (h : Steady read) : Steady fun cs => read (dropGap cs) := by
  refine ⟨fun {cs a rest} first stops => ?_⟩
  obtain ⟨nonempty, went⟩ := h.goesOn first stops
  refine ⟨ne_nil_of_dropGap nonempty, fun more => ?_⟩
  rw [dropGap_append_of_ne_nil nonempty]
  exact went more

/-- A reader that looks at the first character before it reads on. -/
theorem Steady.of_cons (empty : ∀ {a rest}, read [] = some (a, rest) → rest = [])
    (h : ∀ {c cs a rest}, read (c :: cs) = some (a, rest) → rest ≠ [] →
      ∀ more, read (c :: (cs ++ more)) = some (a, rest ++ more)) : Steady read := by
  refine ⟨fun {cs a rest} first stops => ?_⟩
  cases cs with
  | nil => exact absurd (empty first) stops
  | cons c cs => exact ⟨List.cons_ne_nil c cs, h first stops⟩

end

/-! Numbers -/

theorem span_append {p : Char → Bool} {cs ds rest : List Char} (h : cs.span p = (ds, rest))
    (stops : rest ≠ []) (more : List Char) : (cs ++ more).span p = (ds, rest ++ more) := by
  rw [List.span_eq_takeWhile_dropWhile, Prod.mk.injEq] at h ⊢
  obtain ⟨rfl, rfl⟩ := h
  have parts := congrArg List.length (List.takeWhile_append_dropWhile (p := p) (l := cs))
  have some_left := List.length_pos_iff.2 stops
  rw [List.length_append] at parts
  rw [List.takeWhile_append, if_neg (by omega), List.dropWhile_append,
    if_neg (by simpa using stops)]
  exact ⟨rfl, rfl⟩

theorem span_ne_nil {p : Char → Bool} {cs ds rest : List Char} (h : cs.span p = (ds, rest))
    (stops : rest ≠ []) : cs ≠ [] := by
  rintro rfl
  exact stops (Prod.mk.inj h).2.symm

theorem steady_wholePart? : Steady wholePart? := by
  refine ⟨fun {cs ds rest} read stops => ?_⟩
  unfold wholePart? at read
  split at read
  · contradiction
  · contradiction
  · next empty zero e =>
    cases read
    refine ⟨span_ne_nil e stops, fun more => ?_⟩
    rw [wholePart?, span_append e stops]
    grind

theorem steady_someDigits? : Steady someDigits? := by
  refine ⟨fun {cs ds rest} read stops => ?_⟩
  unfold someDigits? at read
  split at read
  · contradiction
  · next empty e =>
    cases read
    refine ⟨span_ne_nil e stops, fun more => ?_⟩
    rw [someDigits?, span_append e stops]
    grind

theorem steady_fractionPart? : Steady fractionPart? := by
  apply Steady.of_cons
  · rintro _ _ ⟨⟩
    rfl
  intro c cs a rest read stops more
  by_cases point : c = '.'
  · subst point
    exact ((steady_someDigits?.map ('.' :: ·)).goesOn read stops).2 more
  · have plain (cs : List Char) : fractionPart? (c :: cs) = some ([], c :: cs) := by
      rw [fractionPart?]
      rintro _ ⟨⟩
      exact point rfl
    rw [plain] at read ⊢
    cases read
    rfl

theorem steady_exponentPart? : Steady exponentPart? := by
  apply Steady.of_cons
  · rintro _ _ ⟨⟩
    rfl
  intro e cs a rest read stops more
  unfold exponentPart? at read ⊢
  dsimp only at read ⊢
  split at read
  · next mark =>
    rw [if_pos mark]
    cases cs with
    | nil => contradiction
    | cons s ds =>
      simp only [List.cons_append] at read ⊢
      split at read
      · next sign =>
        rw [if_pos sign]
        exact ((steady_someDigits?.map (e :: s :: ·)).goesOn read stops).2 more
      · next sign =>
        rw [if_neg sign]
        exact ((steady_someDigits?.map (e :: ·)).goesOn read stops).2 more
  · next mark =>
    rw [if_neg mark]
    cases read
    rfl

theorem steady_number? : Steady number? := by
  have unsigned (sign : List Char) := steady_wholePart?.bind fun whole =>
    steady_fractionPart?.bind fun fraction => steady_exponentPart?.bind fun exponent =>
      Steady.pure (sign ++ whole, fraction ++ exponent)
  apply Steady.of_cons
  · rintro _ _ ⟨⟩
  intro c cs a rest read stops more
  by_cases minus : c = '-'
  · subst minus
    exact ((unsigned ['-']).goesOn read stops).2 more
  · have plain (cs : List Char) : number? (c :: cs) = (wholePart? (c :: cs) >>= fun whole =>
      fractionPart? whole.2 >>= fun fraction => exponentPart? fraction.2 >>= fun exponent =>
        some (([] ++ whole.1, fraction.1 ++ exponent.1), exponent.2)) := by
      unfold number?
      grind
    rw [plain] at read ⊢
    exact ((unsigned []).goesOn read stops).2 more

theorem steady_natural? (limit : Nat) : Steady (natural? limit) := by
  refine ⟨fun {cs n rest} read stops => ?_⟩
  obtain ⟨⟨whole, after⟩, digits, e⟩ := Option.bind_eq_some_iff.1 read
  dsimp only at e
  split at e
  · contradiction
  · contradiction
  · contradiction
  · next point small large =>
    split at e
    · next fits =>
      cases e
      obtain ⟨nonempty, went⟩ := steady_wholePart?.goesOn digits stops
      refine ⟨nonempty, fun more => ?_⟩
      rw [natural?, went more, Option.bind_eq_bind, Option.bind_some]
      obtain ⟨c, left, rfl⟩ := List.exists_cons_of_ne_nil stops
      dsimp only [List.cons_append]
      split
      · next e => exact (point left (by rw [(List.cons.inj e).1])).elim
      · next e => exact (small left (by rw [(List.cons.inj e).1])).elim
      · next e => exact (large left (by rw [(List.cons.inj e).1])).elim
      · rw [if_pos fits]
    · contradiction

/-! Strings and words -/

theorem push_append {c : Char} {r r' : Option (List Char × List Char)} {more : List Char}
    (h : ∀ {s rest}, r = some (s, rest) → r' = some (s, rest ++ more)) {s rest : List Char}
    (pushed : push c r = some (s, rest)) : push c r' = some (s, rest ++ more) := by
  obtain ⟨⟨s', rest'⟩, e, pair⟩ := Option.map_eq_some_iff.1 pushed
  cases pair
  rw [h e]
  rfl

theorem readBody_append {cs s rest : List Char} (read : readBody cs = some (s, rest))
    (more : List Char) : readBody (cs ++ more) = some (s, rest ++ more) := by
  induction cs using readBody.induct generalizing s rest with
  | case1 => contradiction
  | case2 cs =>
    cases read
    rfl
  | case3 a b c d cs ch unit ih =>
    simp only [List.cons_append, readBody_unit unit] at read ⊢
    exact push_append ih read
  | case4 a b c d unit a' b' c' d' cs ch pair ih =>
    rw [readBody.eq_def] at read ⊢
    simp only [List.cons_append, unit, pair] at read ⊢
    exact push_append ih read
  | case5 a b c d unit a' b' c' d' cs none =>
    rw [readBody.eq_def] at read
    simp only [unit, none] at read
    contradiction
  | case6 a b c d cs unit other =>
    rw [readBody.eq_def] at read
    simp only [unit] at read
    contradiction
  | case7 c cs other ch short ih =>
    simp only [List.cons_append, readBody_short short] at read ⊢
    exact push_append ih read
  | case8 c cs other none =>
    rw [readBody.eq_5 _ _ other, none] at read
    contradiction
  | case9 c cs quote unit short control =>
    rw [readBody.eq_6 _ _ quote unit short, if_pos control] at read
    contradiction
  | case10 c cs quote unit short plain ih =>
    obtain ⟨backslash, printable⟩ := not_or.1 plain
    simp only [List.cons_append, readBody_plain quote backslash printable] at read ⊢
    exact push_append ih read

theorem steady_readQuoted? : Steady readQuoted? := by
  apply Steady.of_cons
  · rintro _ _ ⟨⟩
  intro c cs s rest read stops more
  unfold readQuoted? at read
  split at read
  · next e =>
    cases e
    obtain ⟨⟨s', rest'⟩, body, e⟩ := Option.map_eq_some_iff.1 read
    cases e
    rw [readQuoted?, readBody_append body]
    rfl
  · contradiction

theorem skipBody?_append {cs rest : List Char} (read : skipBody? cs = some rest)
    (more : List Char) : skipBody? (cs ++ more) = some (rest ++ more) := by
  induction cs using skipBody?.induct with
  | case1 => contradiction
  | case2 cs =>
    cases read
    rfl
  | case3 a b c d cs unit ih =>
    simp only [List.cons_append, skipBody?.eq_3, if_pos unit] at read ⊢
    exact ih read
  | case4 a b c d cs unit =>
    rw [skipBody?, if_neg unit] at read
    contradiction
  | case5 c cs other short ih =>
    have notU : c ≠ 'u' := by
      rintro rfl
      cases short
    rw [skipBody?.eq_4 _ _ other, if_pos short] at read
    rw [List.cons_append, List.cons_append, skipBody?.eq_4 _ _ fun _ _ _ _ _ e => absurd e notU,
      if_pos short]
    exact ih read
  | case6 c cs other short =>
    rw [skipBody?.eq_4 _ _ other, if_neg short] at read
    contradiction
  | case7 c cs quote unit short control =>
    rw [skipBody?.eq_5 _ _ quote unit short, if_pos control] at read
    contradiction
  | case8 c cs quote unit short plain ih =>
    have backslash : c ≠ '\\' := fun e => plain (.inl e)
    rw [skipBody?.eq_5 _ _ quote unit short, if_neg plain] at read
    rw [List.cons_append, skipBody?.eq_5 _ _ quote (fun _ _ _ _ _ e => absurd e backslash)
      fun _ _ e => absurd e backslash, if_neg plain]
    exact ih read

theorem word?_append {w cs rest : List Char} (read : word? w cs = some rest) (more : List Char) :
    word? w (cs ++ more) = some (rest ++ more) := by
  induction w generalizing cs with
  | nil =>
    cases read
    rfl
  | cons c w ih =>
    cases cs with
    | nil => contradiction
    | cons d cs =>
      rw [word?] at read
      rw [List.cons_append, word?]
      split at read
      · next same =>
        rw [if_pos same]
        exact ih read
      · contradiction

/-! Stepping over values -/

/-- Stepping over a value, with as many steps as there may be or more. -/
structure SteadySkip (skip : Nat → List Char → Option (List Char)) (fuel : Nat) : Prop where
  goesOn : ∀ {cs rest}, skip fuel cs = some rest → rest ≠ [] →
    cs ≠ [] ∧ ∀ more {fuel'}, fuel ≤ fuel' → skip fuel' (cs ++ more) = some (rest ++ more)

/-- Inside a list or a table that does not close at once. -/
theorem SteadySkip.inside {skip : Nat → List Char → Option (List Char)} {fuel fuel' : Nat}
    (h : SteadySkip skip fuel) {closing : Char} {cs rest : List Char}
    (skipped : skip fuel (dropGap cs) = some rest) (stops : rest ≠ [])
    (other : ∀ cs', dropGap cs = closing :: cs' → False) (enough : fuel ≤ fuel')
    (more : List Char) : skip fuel' (dropGap (cs ++ more)) = some (rest ++ more) ∧
      ∀ cs', dropGap (cs ++ more) = closing :: cs' → False := by
  obtain ⟨nonempty, went⟩ := h.goesOn skipped stops
  refine ⟨?_, dropGap_append_other nonempty other more⟩
  rw [dropGap_append_of_ne_nil nonempty]
  exact went more enough

theorem skipList?_append {fuel fuel' : Nat} (items : SteadySkip skipItems? fuel)
    {cs rest : List Char} (skipped : (match dropGap cs with
      | ']' :: cs => some cs
      | cs => skipItems? fuel cs) = some rest)
    (stops : rest ≠ []) (enough : fuel ≤ fuel') (more : List Char) :
    (match dropGap (cs ++ more) with
      | ']' :: cs => some cs
      | cs => skipItems? fuel' cs) = some (rest ++ more) := by
  split at skipped
  · next e =>
    cases skipped
    rw [dropGap_append e]
    rfl
  · next other =>
    obtain ⟨went, other⟩ := items.inside skipped stops other enough more
    split
    · next e => exact (other _ e).elim
    · exact went

theorem skipTable?_append {fuel fuel' : Nat} (fields : SteadySkip skipFields? fuel)
    {cs rest : List Char} (skipped : (match dropGap cs with
      | '\x7d' :: cs => some cs
      | cs => skipFields? fuel cs) = some rest)
    (stops : rest ≠ []) (enough : fuel ≤ fuel') (more : List Char) :
    (match dropGap (cs ++ more) with
      | '\x7d' :: cs => some cs
      | cs => skipFields? fuel' cs) = some (rest ++ more) := by
  split at skipped
  · next e =>
    cases skipped
    rw [dropGap_append e]
    rfl
  · next other =>
    obtain ⟨went, other⟩ := fields.inside skipped stops other enough more
    split
    · next e => exact (other _ e).elim
    · exact went

theorem steadySkip_value {fuel : Nat} (items : SteadySkip skipItems? fuel)
    (fields : SteadySkip skipFields? fuel) : SteadySkip skipValue? (fuel + 1) := by
  refine ⟨fun {cs rest} skipped stops => ?_⟩
  rw [skipValue?] at skipped
  have nonempty : dropGap cs ≠ [] := by
    intro e
    rw [e] at skipped
    cases skipped
  refine ⟨ne_nil_of_dropGap nonempty, fun more fuel' enough => ?_⟩
  obtain ⟨fuel', rfl⟩ : ∃ k, fuel' = k + 1 := ⟨fuel' - 1, by omega⟩
  have enough := Nat.le_of_succ_le_succ enough
  rw [skipValue?]
  split at skipped
  · next e =>
    rw [dropGap_append e]
    exact skipBody?_append skipped more
  · next e =>
    rw [dropGap_append e]
    exact word?_append skipped more
  · next e =>
    rw [dropGap_append e]
    exact word?_append skipped more
  · next e =>
    rw [dropGap_append e]
    exact word?_append skipped more
  · next e =>
    rw [dropGap_append e]
    exact skipList?_append items skipped stops enough more
  · next e =>
    rw [dropGap_append e]
    exact skipTable?_append fields skipped stops enough more
  · next quote null yes no list table =>
    obtain ⟨⟨number, rest⟩, read, rfl⟩ := Option.map_eq_some_iff.1 skipped
    split
    · next e => exact (dropGap_append_other nonempty quote more _ e).elim
    · next e => exact (dropGap_append_other nonempty null more _ e).elim
    · next e => exact (dropGap_append_other nonempty yes more _ e).elim
    · next e => exact (dropGap_append_other nonempty no more _ e).elim
    · next e => exact (dropGap_append_other nonempty list more _ e).elim
    · next e => exact (dropGap_append_other nonempty table more _ e).elim
    · rw [dropGap_append_of_ne_nil nonempty, (steady_number?.goesOn read stops).2 more]
      rfl

theorem steadySkip_items {fuel : Nat} (value : SteadySkip skipValue? fuel)
    (items : SteadySkip skipItems? fuel) : SteadySkip skipItems? (fuel + 1) := by
  refine ⟨fun {cs rest} skipped stops => ?_⟩
  obtain ⟨mid, first, second⟩ := Option.bind_eq_some_iff.1 skipped
  have some_left : mid ≠ [] := by
    rintro rfl
    cases second
  obtain ⟨nonempty, went⟩ := value.goesOn first some_left
  refine ⟨nonempty, fun more fuel' enough => ?_⟩
  obtain ⟨fuel', rfl⟩ : ∃ k, fuel' = k + 1 := ⟨fuel' - 1, by omega⟩
  have enough := Nat.le_of_succ_le_succ enough
  rw [skipItems?, went more enough, Option.bind_eq_bind, Option.bind_some]
  split at second
  · next e =>
    rw [dropGap_append e]
    exact (items.goesOn second stops).2 more enough
  · next e =>
    cases second
    rw [dropGap_append e]
    rfl
  · contradiction

theorem steadySkip_fields {fuel : Nat} (value : SteadySkip skipValue? fuel)
    (fields : SteadySkip skipFields? fuel) : SteadySkip skipFields? (fuel + 1) := by
  refine ⟨fun {cs rest} skipped stops => ?_⟩
  rw [skipFields?] at skipped
  split at skipped
  · next left e =>
    refine ⟨ne_nil_of_dropGap (by rw [e]; rintro ⟨⟩), fun more fuel' enough => ?_⟩
    obtain ⟨fuel', rfl⟩ : ∃ k, fuel' = k + 1 := ⟨fuel' - 1, by omega⟩
    have enough := Nat.le_of_succ_le_succ enough
    obtain ⟨mid, key, skipped⟩ := Option.bind_eq_some_iff.1 skipped
    rw [skipFields?, dropGap_append e]
    show Option.bind (skipBody? (left ++ more)) _ = _
    rw [skipBody?_append key, Option.bind_some]
    split at skipped
    · next after e' =>
      obtain ⟨last, inner, skipped⟩ := Option.bind_eq_some_iff.1 skipped
      rw [dropGap_append e']
      have some_left : last ≠ [] := by
        rintro rfl
        cases skipped
      show Option.bind (skipValue? fuel' (after ++ more)) _ = _
      rw [(value.goesOn inner some_left).2 more enough, Option.bind_some]
      split at skipped
      · next e'' =>
        rw [dropGap_append e'']
        exact (fields.goesOn skipped stops).2 more enough
      · next e'' =>
        cases skipped
        rw [dropGap_append e'']
        rfl
      · contradiction
    · contradiction
  · contradiction

theorem steadySkip (fuel : Nat) : SteadySkip skipValue? fuel ∧ SteadySkip skipItems? fuel ∧
    SteadySkip skipFields? fuel := by
  induction fuel with
  | zero =>
    refine ⟨⟨?_⟩, ⟨?_⟩, ⟨?_⟩⟩ <;> intro cs rest skipped <;> cases skipped
  | succ fuel ih =>
    obtain ⟨value, items, fields⟩ := ih
    exact ⟨steadySkip_value items fields, steadySkip_items value items,
      steadySkip_fields value fields⟩

theorem skip?_append {cs rest : List Char} (skipped : skip? cs = some rest) (stops : rest ≠ [])
    (more : List Char) : skip? (cs ++ more) = some (rest ++ more) := by
  apply ((steadySkip _).1.goesOn skipped stops).2
  rw [List.length_append]
  omega

end Precedence.Json

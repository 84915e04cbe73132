import Precedence.Proofs.Steady
/-!
A record in a text that goes on. It ends with its closing bracket, so it is read the same whatever
is added behind it, and with anything but blanks behind it the text is no record.
-/
namespace Precedence.Record

open Json Text

@[simp] theorem lift_eq_ok {α : Type} {o : Option α} {a : α} : lift o = .ok a ↔ o = some a := by
  cases o with
  | none => simp [lift]
  | some b => simp [lift]

/-- A reader that stops before the end of a text stops there as well when the text goes on. -/
structure Steady {α : Type} (read : Reader α) : Prop where
  goesOn : ∀ {cs a rest}, read cs = .ok (a, rest) → rest ≠ [] →
    cs ≠ [] ∧ ∀ more, read (cs ++ more) = .ok (a, rest ++ more)

section

variable {α β : Type}

theorem Steady.of_lift {read : List Char → Option (α × List Char)} (h : Json.Steady read) :
    Steady fun cs => lift (read cs) := by
  refine ⟨fun {cs a rest} first stops => ?_⟩
  obtain ⟨nonempty, went⟩ := h.goesOn (lift_eq_ok.1 first) stops
  exact ⟨nonempty, fun more => lift_eq_ok.2 (went more)⟩

theorem Steady.bind {read : Reader α} {next : α → Reader β} (h : Steady read)
    (h' : ∀ a, Steady (next a)) : Steady fun cs => read cs >>= fun r => next r.1 r.2 := by
  refine ⟨fun {cs b rest} both stops => ?_⟩
  obtain ⟨⟨a, mid⟩, first, second⟩ := exists_of_bind_eq_ok both
  obtain ⟨left, goes⟩ := (h' a).goesOn second stops
  obtain ⟨nonempty, went⟩ := h.goesOn first left
  refine ⟨nonempty, fun more => ?_⟩
  rw [went more, ok_bind]
  exact goes more

theorem Steady.pure (a : α) : Steady fun cs => .ok (a, cs) := by
  refine ⟨?_⟩
  rintro cs _ _ ⟨⟩ stops
  exact ⟨stops, fun _ => rfl⟩

theorem Steady.fail (fault : Fault) :
    Steady fun _ => (.error fault : Except Fault (α × List Char)) :=
  ⟨fun failed => by cases failed⟩

end

theorem steady_text : Steady text := .of_lift steady_readQuoted?.gap

theorem steady_id : Steady id := by
  refine ⟨fun {cs i rest} first stops => ?_⟩
  obtain ⟨⟨s, mid⟩, quoted, parsed⟩ := exists_of_bind_eq_ok first
  dsimp only at parsed
  split at parsed
  · next e =>
    cases parsed
    obtain ⟨nonempty, went⟩ := steady_text.goesOn quoted stops
    refine ⟨nonempty, fun more => ?_⟩
    rw [id, went more, ok_bind]
    dsimp only
    rw [e]
  · contradiction

theorem steady_natural (limit : Nat) : Steady (natural limit) :=
  .of_lift (steady_natural? limit).gap

theorem steady_level (n : Nat) : Steady fun cs => match Priority.ofLevel? n with
    | some p => .ok (p, cs)
    | none => .error (.priority n) := by
  cases Priority.ofLevel? n with
  | some p => exact .pure p
  | none => exact .fail _

theorem steady_priority : Steady priority := (steady_natural 256).bind steady_level

/-- A value that has been read and is then understood, or not. -/
theorem Steady.understood {α β : Type} {read : Reader α} (h : Steady read) (f : α → Option β) :
    Steady fun cs => read cs >>= fun r => lift (f r.1) >>= fun b => .ok (b, r.2) := by
  have taken (a : α) : Steady fun cs => lift (f a) >>= fun b => .ok (b, cs) := by
    cases f a with
    | some b => exact .pure b
    | none => exact .fail _
  exact h.bind taken

theorem steady_instant : Steady instant :=
  steady_text.understood fun s => (Instant.ofRecordText s).toOption

theorem Steady.into {α : Type} {read : Reader α} (h : Steady read) (put : α → Draft) :
    Steady (Record.into read put) := h.bind fun a => .pure (put a)

theorem Steady.optional {α : Type} {read : Reader α} (h : Steady read) :
    Steady (Record.optional read) := by
  refine ⟨fun {cs a rest} first stops => ?_⟩
  unfold Record.optional at first
  split at first
  · next left e =>
    obtain ⟨_, null, done⟩ := exists_of_bind_eq_ok first
    cases done
    refine ⟨ne_nil_of_dropGap (by rw [e]; rintro ⟨⟩), fun more => ?_⟩
    rw [Record.optional, dropGap_append e]
    show lift (word? ['u', 'l', 'l'] (left ++ more)) >>= _ = _
    rw [word?_append (lift_eq_ok.1 null)]
    rfl
  · next other =>
    obtain ⟨⟨a, _⟩, value, done⟩ := exists_of_bind_eq_ok first
    cases done
    obtain ⟨nonempty, went⟩ := h.goesOn value stops
    refine ⟨ne_nil_of_dropGap nonempty, fun more => ?_⟩
    rw [Record.optional]
    split
    · next e => exact (dropGap_append_other nonempty other more _ e).elim
    · rw [dropGap_append_of_ne_nil nonempty, went more]
      rfl

/-- A word is there before anything is added to the text. -/
theorem word_append {c : Char} {w cs rest : List Char}
    (h : lift (word? (c :: w) (dropGap cs)) = .ok rest) :
    cs ≠ [] ∧ ∀ more, lift (word? (c :: w) (dropGap (cs ++ more))) = .ok (rest ++ more) := by
  have nonempty : dropGap cs ≠ [] := by
    intro e
    rw [e] at h
    cases h
  refine ⟨ne_nil_of_dropGap nonempty, fun more => ?_⟩
  rw [dropGap_append_of_ne_nil nonempty]
  exact lift_eq_ok.2 (word?_append (lift_eq_ok.1 h) more)

theorem steady_name {α : Type} (ofName? : String → Option α) : Steady (name ofName?) := by
  refine ⟨fun {cs a rest} first stops => ?_⟩
  unfold name at first
  split at first
  · next left e =>
    obtain ⟨⟨s, cs₁⟩, key, first⟩ := exists_of_bind_eq_ok first
    obtain ⟨b, known, first⟩ := exists_of_bind_eq_ok first
    obtain ⟨cs₂, colon, first⟩ := exists_of_bind_eq_ok first
    obtain ⟨cs₃, null, first⟩ := exists_of_bind_eq_ok first
    obtain ⟨cs₄, closed, done⟩ := exists_of_bind_eq_ok first
    cases done
    refine ⟨ne_nil_of_dropGap (by rw [e]; rintro ⟨⟩), fun more => ?_⟩
    rw [name, dropGap_append e]
    show text (left ++ more) >>= _ = _
    rw [(steady_text.goesOn key (word_append colon).1).2 more, ok_bind]
    dsimp only
    rw [known, ok_bind, (word_append colon).2, ok_bind, (word_append null).2, ok_bind,
      (word_append closed).2, ok_bind]
  · next other =>
    obtain ⟨⟨s, cs₁⟩, key, first⟩ := exists_of_bind_eq_ok first
    obtain ⟨b, known, done⟩ := exists_of_bind_eq_ok first
    cases done
    have nonempty : dropGap cs ≠ [] := by
      intro e
      rw [e] at key
      cases key
    refine ⟨ne_nil_of_dropGap nonempty, fun more => ?_⟩
    rw [name]
    split
    · next e => exact (dropGap_append_other nonempty other more _ e).elim
    · have went := (steady_readQuoted?.goesOn (lift_eq_ok.1 key) stops).2 more
      rw [dropGap_append_of_ne_nil nonempty, lift_eq_ok.2 went, ok_bind]
      dsimp only
      rw [known, ok_bind]

/-- Items of a list, with as many steps as there may be or more. -/
theorem idsFrom_append {fuel : Nat} {cs rest : List Char} {ids : List TaskId}
    (read : idsFrom fuel cs = .ok (ids, rest)) : cs ≠ [] ∧
      ∀ more {fuel'}, fuel ≤ fuel' → idsFrom fuel' (cs ++ more) = .ok (ids, rest ++ more) := by
  induction fuel generalizing cs ids with
  | zero => cases read
  | succ fuel ih =>
    obtain ⟨⟨i, mid⟩, first, next⟩ := exists_of_bind_eq_ok read
    dsimp only at next
    have left : mid ≠ [] := by
      rintro rfl
      cases next
    obtain ⟨nonempty, went⟩ := steady_id.goesOn first left
    refine ⟨nonempty, fun more fuel' enough => ?_⟩
    obtain ⟨fuel', rfl⟩ : ∃ k, fuel' = k + 1 := ⟨fuel' - 1, by omega⟩
    rw [idsFrom, went more, ok_bind]
    dsimp only
    split at next
    · next e =>
      obtain ⟨⟨others, last⟩, items, done⟩ := exists_of_bind_eq_ok next
      cases done
      rw [dropGap_append e]
      show idsFrom fuel' _ >>= _ = _
      rw [(ih items).2 more (Nat.le_of_succ_le_succ enough), ok_bind]
    · next e =>
      cases next
      rw [dropGap_append e]
      rfl
    · contradiction

theorem idsInside_append {cs rest : List Char} {is : List TaskId}
    (read : (match dropGap cs with
      | ']' :: cs => Except.ok ([], cs)
      | cs => idsFrom (cs.length + 1) cs) = .ok (is, rest)) (more : List Char) :
    (match dropGap (cs ++ more) with
      | ']' :: cs => Except.ok ([], cs)
      | cs => idsFrom (cs.length + 1) cs) = .ok (is, rest ++ more) := by
  split at read
  · next e =>
    cases read
    rw [dropGap_append e]
    rfl
  · next other =>
    obtain ⟨nonempty, went⟩ := idsFrom_append read
    split
    · next e => exact (dropGap_append_other nonempty other more _ e).elim
    · rw [dropGap_append_of_ne_nil nonempty]
      apply went
      rw [List.length_append]
      omega

theorem steady_ids : Steady ids := by
  refine ⟨fun {cs is rest} first _ => ?_⟩
  unfold ids at first
  split at first
  · next left e =>
    refine ⟨ne_nil_of_dropGap (by rw [e]; rintro ⟨⟩), fun more => ?_⟩
    rw [ids, dropGap_append e]
    exact idsInside_append first more
  · contradiction

theorem steady_field (d : Draft) (f : Field) : Steady (field d f) := by
  unfold field
  cases f with
  | id => exact steady_id.into _
  | description => exact steady_text.into _
  | status => exact (steady_name _).into _
  | priority => exact steady_priority.into _
  | estimatedDuration => exact (steady_natural _).optional.into _
  | parent => exact steady_id.optional.into _
  | depth => exact (steady_natural _).into _
  | origin => exact (steady_name _).into _
  | dependsOn => exact steady_ids.into _
  | createdAt => exact steady_instant.into _
  | updatedAt => exact steady_instant.into _
  | completedAt => exact steady_instant.optional.into _

theorem itemsFrom_append {fs : List Field} {d d' : Draft} {cs rest : List Char}
    (read : itemsFrom d fs cs = .ok (d', rest)) :
    cs ≠ [] ∧ ∀ more, itemsFrom d fs (cs ++ more) = .ok (d', rest ++ more) := by
  induction fs generalizing d cs with
  | nil => cases read
  | cons f fs ih =>
    obtain ⟨⟨d₁, mid⟩, first, next⟩ := exists_of_bind_eq_ok read
    dsimp only at next
    have left : mid ≠ [] := by
      rintro rfl
      cases next
    obtain ⟨nonempty, went⟩ := (steady_field d f).goesOn first left
    refine ⟨nonempty, fun more => ?_⟩
    rw [itemsFrom, went more, ok_bind]
    dsimp only
    split at next
    · next e =>
      rw [dropGap_append e]
      exact (ih next).2 more
    · next e =>
      cases next
      rw [dropGap_append e]
      rfl
    · contradiction

/-- What is read after the value of a field: the other fields, or the end of the table. -/
theorem fieldsAfter_append {fuel : Nat} {d d' : Draft} {mid rest : List Char}
    (others : ∀ {cs}, fieldsFrom fuel d cs = .ok (d', rest) →
      ∀ more {fuel'}, fuel ≤ fuel' → fieldsFrom fuel' d (cs ++ more) = .ok (d', rest ++ more))
    (next : (match dropGap mid with
      | ',' :: cs => fieldsFrom fuel d cs
      | '\x7d' :: cs => .ok (d, cs)
      | _ => .error .malformed) = .ok (d', rest)) :
    mid ≠ [] ∧ ∀ more {fuel'}, fuel ≤ fuel' → (match dropGap (mid ++ more) with
      | ',' :: cs => fieldsFrom fuel' d cs
      | '\x7d' :: cs => .ok (d, cs)
      | _ => .error .malformed) = .ok (d', rest ++ more) := by
  split at next
  · next e =>
    refine ⟨ne_nil_of_dropGap (by rw [e]; rintro ⟨⟩), fun more fuel' enough => ?_⟩
    rw [dropGap_append e]
    exact others next more enough
  · next e =>
    cases next
    refine ⟨ne_nil_of_dropGap (by rw [e]; rintro ⟨⟩), fun more fuel' _ => ?_⟩
    rw [dropGap_append e]
    rfl
  · contradiction

theorem fieldsFrom_append {fuel : Nat} {d d' : Draft} {cs rest : List Char}
    (read : fieldsFrom fuel d cs = .ok (d', rest)) : cs ≠ [] ∧
      ∀ more {fuel'}, fuel ≤ fuel' → fieldsFrom fuel' d (cs ++ more) = .ok (d', rest ++ more) := by
  induction fuel generalizing d cs with
  | zero => cases read
  | succ fuel ih =>
    obtain ⟨⟨key, cs₁⟩, named, next⟩ := exists_of_bind_eq_ok read
    dsimp only at next
    split at next
    · contradiction
    next new =>
    obtain ⟨cs₂, colon, next⟩ := exists_of_bind_eq_ok next
    obtain ⟨nonempty, went⟩ := steady_text.goesOn named (word_append colon).1
    refine ⟨nonempty, fun more fuel' enough => ?_⟩
    obtain ⟨fuel', rfl⟩ : ∃ k, fuel' = k + 1 := ⟨fuel' - 1, by omega⟩
    have enough := Nat.le_of_succ_le_succ enough
    rw [fieldsFrom, went more, ok_bind]
    dsimp only
    rw [if_neg new, (word_append colon).2, ok_bind]
    split at next
    · next f known =>
      obtain ⟨⟨d₁, cs₃⟩, value, next⟩ := exists_of_bind_eq_ok next
      obtain ⟨left, closes⟩ := fieldsAfter_append (fun others => (ih others).2) next
      rw [((steady_field d f).goesOn value left).2 more, ok_bind]
      exact closes more enough
    · next unknown =>
      obtain ⟨cs₃, value, next⟩ := exists_of_bind_eq_ok next
      rw [ok_bind] at next
      obtain ⟨left, closes⟩ := fieldsAfter_append (fun others => (ih others).2) next
      rw [lift_eq_ok.2 (skip?_append (lift_eq_ok.1 value) left more), ok_bind, ok_bind]
      exact closes more enough

/-- The end of reading a record, when its fields have been read. -/
def finish (read : Draft × List Char) : Except Fault (Task × List Char) := do
  let t ← lift read.1.task?
  .ok (t, read.2)

theorem finish_append {t : Task} {d : Draft} {cs rest : List Char}
    (done : finish (d, cs) = .ok (t, rest)) (more : List Char) :
    finish (d, cs ++ more) = .ok (t, rest ++ more) := by
  obtain ⟨u, complete, e⟩ := exists_of_bind_eq_ok done
  cases e
  rw [finish, complete, ok_bind]

theorem taskTable_append {t : Task} {cs rest : List Char} (read : (match dropGap cs with
      | '\x7d' :: cs => finish ({}, cs)
      | cs => fieldsFrom (cs.length + 1) {} cs >>= finish) = .ok (t, rest)) (more : List Char) :
    (match dropGap (cs ++ more) with
      | '\x7d' :: cs => finish ({}, cs)
      | cs => fieldsFrom (cs.length + 1) {} cs >>= finish) = .ok (t, rest ++ more) := by
  split at read
  · next e =>
    rw [dropGap_append e]
    exact finish_append read more
  · next other =>
    obtain ⟨⟨d, _⟩, fields, done⟩ := exists_of_bind_eq_ok read
    obtain ⟨nonempty, went⟩ := fieldsFrom_append fields
    split
    · next e => exact (dropGap_append_other nonempty other more _ e).elim
    · rw [dropGap_append_of_ne_nil nonempty, went more (by rw [List.length_append]; omega), ok_bind]
      exact finish_append done more

theorem taskList_append {t : Task} {cs rest : List Char} (read : (match dropGap cs with
      | ']' :: cs => finish ({}, cs)
      | cs => itemsFrom {} Field.all cs >>= finish) = .ok (t, rest)) (more : List Char) :
    (match dropGap (cs ++ more) with
      | ']' :: cs => finish ({}, cs)
      | cs => itemsFrom {} Field.all cs >>= finish) = .ok (t, rest ++ more) := by
  split at read
  · next e =>
    rw [dropGap_append e]
    exact finish_append read more
  · next other =>
    obtain ⟨⟨d, _⟩, fields, done⟩ := exists_of_bind_eq_ok read
    obtain ⟨nonempty, went⟩ := itemsFrom_append fields
    split
    · next e => exact (dropGap_append_other nonempty other more _ e).elim
    · rw [dropGap_append_of_ne_nil nonempty, went more, ok_bind]
      exact finish_append done more

/-- A whole record is read the same, whatever is added to the text. -/
theorem task_append {t : Task} {cs rest : List Char} (read : task cs = .ok (t, rest))
    (more : List Char) : task (cs ++ more) = .ok (t, rest ++ more) := by
  unfold task at read ⊢
  split at read
  · next e =>
    rw [dropGap_append e]
    exact taskTable_append read more
  · next e =>
    rw [dropGap_append e]
    exact taskList_append read more
  · contradiction

end Precedence.Record

namespace Precedence.Task

open Json Record

/-- Nothing but blanks can be added to a record. -/
theorem ofRecord_append {s more : String} {t : Task} (h : ofRecord s = .ok t)
    (added : dropGap more.toList ≠ []) : ofRecord (s ++ more) = .error .malformed := by
  obtain ⟨⟨t', rest⟩, read, gaps⟩ := exists_of_bind_eq_ok h
  dsimp only at gaps
  split at gaps
  · next ended =>
    rw [ofRecord, Record.whole, String.toList_append, task_append read, ok_bind]
    dsimp only
    rw [if_neg]
    rwa [dropGap, List.dropWhile_append, ← dropGap, ended, List.isEmpty_nil, if_pos rfl]
  · contradiction

end Precedence.Task

import Precedence.Failure
import Precedence.Proofs.Disk
/-!
Actions run on a disk one after the other, and what an action leaves alone whether or not it fails.
-/
namespace Precedence.Action

variable {α β : Type}

@[simp] theorem pure_run (x : α) (d : Disk) : (pure x : Action α) d = (.ok x, d) := rfl

@[simp] theorem get_run (d : Disk) : (get : Action Disk) d = (.ok d, d) := rfl

@[simp] theorem ask_run (f : Disk → Except Failure α) (d : Disk) : ask f d = (f d, d) := rfl

theorem bind_run (a : Action α) (f : α → Action β) (d : Disk) :
    (a >>= f) d = match a d with
      | (.ok x, d') => f x d'
      | (.error e, d') => (.error e, d') := by
  show (ExceptT.bindCont (m := StateM Disk) f (a d).1) (a d).2 = _
  cases a d with
  | mk r d' => cases r <;> rfl

theorem bind_ok {a : Action α} {d d' : Disk} {x : α} (h : a d = (.ok x, d')) (f : α → Action β) :
    (a >>= f) d = f x d' := by
  rw [bind_run, h]

theorem bind_eq_ok {a : Action α} {f : α → Action β} {d d' : Disk} {y : β}
    (h : (a >>= f) d = (.ok y, d')) : ∃ x c, a d = (.ok x, c) ∧ f x c = (.ok y, d') := by
  rw [bind_run] at h
  cases e : a d with
  | mk r c =>
    rw [e] at h
    cases r with
    | ok x => exact ⟨x, c, rfl, h⟩
    | error _ => cases (congrArg Prod.fst h)

/-- What is answered when an action is done. -/
theorem answered_run (a : Action α) (f : α → β) (d : Disk) :
    (a >>= fun x => pure (f x)) d = ((a d).1.map f, (a d).2) := by
  rw [bind_run]
  cases a d with
  | mk r d' => cases r <;> rfl

theorem pure_eq_ok {x y : α} {d d' : Disk} (h : (pure x : Action α) d = (.ok y, d')) :
    x = y ∧ d' = d := by
  rw [pure_run, Prod.mk.injEq, Except.ok.injEq] at h
  exact ⟨h.1, h.2.symm⟩

theorem ask_eq_ok {f : Disk → Except Failure α} {d d' : Disk} {x : α} (h : ask f d = (.ok x, d')) :
    f d = .ok x ∧ d' = d := by
  rw [ask_run, Prod.mk.injEq] at h
  exact ⟨h.1, h.2.symm⟩

theorem refuseIf_eq_ok {c : Bool} {f : Failure} {x : Unit} {d d' : Disk}
    (h : refuseIf c f d = (.ok x, d')) : c = false ∧ d' = d := by
  cases c with
  | true => cases congrArg Prod.fst h
  | false => exact ⟨rfl, (pure_eq_ok h).2⟩

/-- What holds after an action: something of its result and the disk if it succeeds, and something
of the disk if it fails. -/
@[irreducible] def Ends (a : Action α) (d : Disk) (ok : α → Disk → Prop)
    (failed : Disk → Prop) : Prop :=
  match a d with
  | (.ok x, d') => ok x d'
  | (.error _, d') => failed d'

section

variable {ok : β → Disk → Prop} {failed : Disk → Prop} {d : Disk}

theorem Ends.bind {a : Action α} {f : α → Action β}
    (h : Ends a d (fun x d' => Ends (f x) d' ok failed) failed) : Ends (a >>= f) d ok failed := by
  unfold Ends at h ⊢
  rw [bind_run]
  cases e : a d with
  | mk r d' =>
    rw [e] at h
    cases r with
    | ok x => exact h
    | error _ => exact h

theorem Ends.mono {a : Action β} {ok' : β → Disk → Prop} {failed' : Disk → Prop}
    (h : Ends a d ok failed) (h₁ : ∀ x d', ok x d' → ok' x d') (h₂ : ∀ d', failed d' → failed' d') :
    Ends a d ok' failed' := by
  unfold Ends at h ⊢
  split
  · next e => rw [e] at h; exact h₁ _ _ h
  · next e => rw [e] at h; exact h₂ _ h

theorem Ends.congr {a b : Action β} (h : Ends b d ok failed) (same : a d = b d) :
    Ends a d ok failed := by
  unfold Ends at h ⊢
  rwa [same]

theorem ends_iff {a : Action β} {P : Disk → Prop} : Ends a d (fun _ => P) P ↔ P (a d).2 := by
  unfold Ends
  cases a d with
  | mk r d' => cases r <;> exact Iff.rfl

theorem Ends.and {a : Action β} {ok' : β → Disk → Prop} {failed' : Disk → Prop}
    (h : Ends a d ok failed) (h' : Ends a d ok' failed') :
    Ends a d (fun x d' => ok x d' ∧ ok' x d') fun d' => failed d' ∧ failed' d' := by
  unfold Ends at h h' ⊢
  cases e : a d with
  | mk r d' =>
    rw [e] at h h'
    cases r with
    | ok x => exact ⟨h, h'⟩
    | error _ => exact ⟨h, h'⟩

theorem Ends.snd {a : Action β} {P : Disk → Prop} (h : Ends a d ok failed) (h' : P (a d).2) :
    Ends a d (fun x d' => ok x d' ∧ P d') fun d' => failed d' ∧ P d' := h.and (ends_iff.2 h')

theorem ends_run (a : Action β) (d : Disk) :
    Ends a d (fun x d' => a d = (.ok x, d')) fun _ => True := by
  unfold Ends
  split
  · assumption
  · trivial

theorem ends_pure {x : β} (h : ok x d) : Ends (pure x) d ok failed := by
  unfold Ends
  exact h

theorem ends_throw {f : Failure} (h : failed d) : Ends (throw f : Action β) d ok failed := by
  unfold Ends
  exact h

theorem ends_modify {f : Disk → Disk} {ok : Unit → Disk → Prop} (h : ok () (f d)) :
    Ends (modify f : Action Unit) d ok failed := by
  unfold Ends
  exact h

theorem ends_ask {f : Disk → Except Failure β} (h : ∀ x, f d = .ok x → ok x d)
    (h' : ∀ e, f d = .error e → failed d) : Ends (ask f) d ok failed := by
  unfold Ends
  rw [ask_run]
  cases e : f d with
  | ok x => exact h x e
  | error fault => exact h' fault e

theorem ends_change {deed : Deed} {f : Disk → Except Disk.Fault Disk}
    {ok : Unit → Disk → Prop} (h : ∀ d', f d = .ok d' → ok () d')
    (h' : ∀ fault, f d = .error fault → failed d) : Ends (change deed f) d ok failed := by
  unfold Ends change
  cases e : f d with
  | ok d' => exact h d' e
  | error fault => exact h' fault e

theorem ends_makeDirectories {deed : Deed} {p : Path} {ok : Unit → Disk → Prop}
    (h : ∀ d', d.makeDirectories p = (.ok (), d') → ok () d')
    (h' : ∀ fault d', d.makeDirectories p = (.error fault, d') → failed d') :
    Ends (makeDirectories deed p) d ok failed := by
  unfold Ends makeDirectories
  cases e : d.makeDirectories p with
  | mk r d' =>
    cases r with
    | ok _ => exact h d' e
    | error fault => exact h' fault d' e

end

/-- An action that only looks. -/
def Still (a : Action α) : Prop := ∀ d, (a d).2 = d

theorem still_pure (x : α) : Still (pure x) := fun _ => rfl

theorem still_throw (f : Failure) : Still (throw f : Action α) := fun _ => rfl

theorem still_get : Still get := fun _ => rfl

theorem still_ask (f : Disk → Except Failure α) : Still (ask f) := fun _ => rfl

theorem still_refuseIf (c : Bool) (f : Failure) : Still (refuseIf c f) := by
  cases c with
  | true => exact still_throw f
  | false => exact still_pure ()

theorem Still.after {a : Action α} {f : α → Action β} {P : Disk → Prop} {d : Disk} (h : Still a)
    (here : P d) (rest : ∀ x, a d = (.ok x, d) → P (f x d).2) : P ((a >>= f) d).2 := by
  have same := h d
  rw [bind_run]
  cases e : a d with
  | mk r d' =>
    rw [e] at same
    obtain rfl : d' = d := same
    cases r with
    | ok x => exact rest x e
    | error _ => exact here

theorem Still.bind {a : Action α} {f : α → Action β} (h : Still a) (h' : ∀ x, Still (f x)) :
    Still (a >>= f) := fun d => h.after (P := (· = d)) rfl fun x _ => h' x d

theorem Still.ends {a : Action α} {f : α → Action β} {d : Disk} {ok : β → Disk → Prop}
    {failed : Disk → Prop} (h : Still a) (here : failed d)
    (rest : ∀ x, a d = (.ok x, d) → Ends (f x) d ok failed) : Ends (a >>= f) d ok failed := by
  apply Ends.bind
  have same := h d
  unfold Ends at rest ⊢
  cases e : a d with
  | mk r d' =>
    rw [e] at same
    obtain rfl : d' = d := same
    cases r with
    | ok x => exact rest x e
    | error _ => exact here

/-- What holds of a disk after an action, and after whatever follows it. -/
theorem snd_bind {a : Action α} {f : α → Action β} {P : Disk → Prop} {d : Disk} (h : P (a d).2)
    (rest : ∀ x c, P c → P (f x c).2) : P ((a >>= f) d).2 := by
  rw [bind_run]
  cases e : a d with
  | mk r c =>
    rw [e] at h
    cases r with
    | ok x => exact rest x c h
    | error _ => exact h

theorem snd_bind_of_still {a : Action α} {f : α → Action β} (h : ∀ x, Still (f x)) (d : Disk) :
    ((a >>= f) d).2 = (a d).2 := by
  rw [bind_run]
  cases a d with
  | mk r d' =>
    cases r with
    | ok x => exact h x d'
    | error _ => rfl

theorem still_mapM {l : List α} {f : α → Action β} (h : ∀ x, Still (f x)) : Still (l.mapM f) := by
  induction l with
  | nil => exact still_pure []
  | cons x l ih =>
    rw [List.mapM_cons]
    exact (h x).bind fun y => ih.bind fun ys => still_pure (y :: ys)

theorem still_mapM? {o : Option α} {f : α → Action β} (h : ∀ x, Still (f x)) :
    Still (o.mapM f) := by
  cases o with
  | none => exact still_pure none
  | some x => exact (h x).bind fun y => still_pure (some y)

theorem still_foldlM {l : List α} {f : β → α → Action β} (h : ∀ y x, Still (f y x)) (start : β) :
    Still (l.foldlM f start) := by
  induction l generalizing start with
  | nil => exact still_pure start
  | cons x l ih => exact (h start x).bind ih

end Precedence.Action

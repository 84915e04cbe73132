import Mathlib.Data.List.Nodup
/-!
Lists without repeats: of equal elements the first one stays. Taking repeats out commutes with
whatever keeps different elements apart.
-/
namespace Precedence

variable {α β : Type} [DecidableEq α]

/-- Induction along the recursion that takes repeats out. -/
theorem repeats_induction {motive : List α → Prop} (nil : motive [])
    (cons : ∀ a l, motive (l.filter fun b => !b == a) → motive (a :: l)) (l : List α) : motive l :=
  match l with
  | [] => nil
  | a :: l => cons a l (repeats_induction nil cons _)
termination_by l.length
decreasing_by
  have := List.length_filter_le (fun b => !b == a) l
  simp only [List.length_cons]
  omega

theorem nodup_eraseDups (l : List α) : l.eraseDups.Nodup := by
  induction l using repeats_induction with
  | nil => exact List.nodup_nil
  | cons a l ih =>
    rw [List.eraseDups_cons, List.nodup_cons]
    exact ⟨by simp [List.mem_eraseDups], ih⟩

theorem eraseDups_eq_self {l : List α} (h : l.Nodup) : l.eraseDups = l := by
  induction l with
  | nil => rfl
  | cons a l ih =>
    obtain ⟨new, distinct⟩ := List.nodup_cons.1 h
    have kept : (l.filter fun b => !b == a) = l := List.filter_eq_self.2 fun b hb => by
      have : b ≠ a := ne_of_mem_of_not_mem hb new
      simpa using this
    rw [List.eraseDups_cons, kept, ih distinct]

@[simp] theorem eraseDups_eraseDups (l : List α) : l.eraseDups.eraseDups = l.eraseDups :=
  eraseDups_eq_self (nodup_eraseDups l)

@[simp] theorem head?_eraseDups (l : List α) : l.eraseDups.head? = l.head? := by
  cases l with
  | nil => rfl
  | cons a l => rw [List.eraseDups_cons, List.head?_cons, List.head?_cons]

theorem mem_iff_of_eraseDups_eq {l l' : List α} (h : l.eraseDups = l'.eraseDups) {a : α} :
    a ∈ l ↔ a ∈ l' := by
  rw [← List.mem_eraseDups, h, List.mem_eraseDups]

theorem eraseDups_perm {l l' : List α} (perm : l.Perm l') : l.eraseDups.Perm l'.eraseDups := by
  rw [List.perm_ext_iff_of_nodup (nodup_eraseDups l) (nodup_eraseDups l')]
  intro a
  rw [List.mem_eraseDups, List.mem_eraseDups, perm.mem_iff]

theorem eraseDups_filterMap [DecidableEq β] {f : α → Option β}
    (apart : ∀ x y b, f x = some b → f y = some b → x = y) (l : List α) :
    (l.filterMap f).eraseDups = l.eraseDups.filterMap f := by
  induction l using repeats_induction with
  | nil => rfl
  | cons a l ih =>
    rw [List.eraseDups_cons]
    cases e : f a with
    | none =>
      have skipped : (l.filter fun b => !b == a).filterMap f = l.filterMap f := by
        rw [List.filterMap_filter]
        apply List.filterMap_congr
        intro b _
        split
        · rfl
        · next h => rw [show b = a by simpa using h, e]
      rw [List.filterMap_cons_none e, List.filterMap_cons_none e, ← ih, skipped]
    | some c =>
      have skipped : (l.filter fun b => !b == a).filterMap f =
          (l.filterMap f).filter fun y => !y == c := by
        rw [List.filterMap_filter, List.filter_filterMap]
        apply List.filterMap_congr
        intro b _
        by_cases h : b = a
        · subst h
          simp [e, Option.filter]
        · have other : ∀ y, f b = some y → y ≠ c := by
            rintro y hy rfl
            exact h (apart b a y hy e)
          cases hb : f b with
          | none => simp
          | some y => simp [h, Option.filter, other y hb]
      rw [List.filterMap_cons_some e, List.filterMap_cons_some e, List.eraseDups_cons,
        ← ih, skipped]

theorem eraseDups_map_on [DecidableEq β] {f : α → β} {l : List α}
    (apart : ∀ x ∈ l, ∀ y ∈ l, f x = f y → x = y) : (l.map f).eraseDups = l.eraseDups.map f := by
  induction l using repeats_induction with
  | nil => rfl
  | cons a l ih =>
    have others : (l.map f).filter (fun b => !b == f a) = (l.filter fun b => !b == a).map f := by
      rw [List.filter_map]
      congr 1
      apply List.filter_congr
      intro b hb
      have same : f b = f a ↔ b = a :=
        ⟨apart b (List.mem_cons_of_mem _ hb) a List.mem_cons_self, congrArg f⟩
      simp [same]
    have kept {x : α} (hx : x ∈ l.filter fun b => !b == a) : x ∈ a :: l :=
      List.mem_cons_of_mem _ (List.mem_filter.1 hx).1
    rw [List.map_cons, List.eraseDups_cons, List.eraseDups_cons, List.map_cons, others,
      ih fun x hx y hy => apart x (kept hx) y (kept hy)]

theorem eraseDups_map [DecidableEq β] {f : α → β} (apart : Function.Injective f) (l : List α) :
    (l.map f).eraseDups = l.eraseDups.map f := eraseDups_map_on fun _ _ _ _ same => apart same

theorem eraseDups_filter (p : α → Bool) (l : List α) :
    (l.filter p).eraseDups = l.eraseDups.filter p := by
  rw [← List.filterMap_eq_filter]
  refine eraseDups_filterMap (fun x y b hx hy => ?_) l
  rw [Option.guard_eq_some_iff] at hx hy
  exact hx.1.trans hy.1.symm

/-- Lists that are the same without repeats are the same with others around them. -/
theorem eraseDups_append_congr {l l' : List α} (h : l.eraseDups = l'.eraseDups)
    (before after : List α) :
    (before ++ l ++ after).eraseDups = (before ++ l' ++ after).eraseDups := by
  have inner : (before ++ l).eraseDups = (before ++ l').eraseDups := by
    rw [List.eraseDups_append, List.eraseDups_append, List.removeAll, List.removeAll,
      eraseDups_filter, eraseDups_filter, h]
  have rest : after.removeAll (before ++ l) = after.removeAll (before ++ l') := by
    apply List.filter_congr
    intro a _
    have same := mem_iff_of_eraseDups_eq h (a := a)
    simp [same]
  rw [List.eraseDups_append, inner, rest, ← List.eraseDups_append]

theorem eraseDups_flatMap {f : β → List α} {l : List β}
    (apart : l.Pairwise fun x y => ∀ a ∈ f x, a ∉ f y) :
    (l.flatMap f).eraseDups = l.flatMap fun x => (f x).eraseDups := by
  induction l with
  | nil => rfl
  | cons x l ih =>
    obtain ⟨first, others⟩ := List.pairwise_cons.1 apart
    have kept : (l.flatMap f).removeAll (f x) = l.flatMap f := List.filter_eq_self.2 fun a ha => by
      obtain ⟨y, hy, hay⟩ := List.mem_flatMap.1 ha
      have : a ∉ f x := fun hax => first y hy a hax hay
      simpa using this
    rw [List.flatMap_cons, List.flatMap_cons, List.eraseDups_append, kept, ih others]

omit [DecidableEq α] in
/-- What one element of a list contributes is filtered out of what all contribute. -/
theorem filter_flatMap_eq {l : List β} (distinct : l.Nodup) {b : β} (mem : b ∈ l)
    {f : β → List α} {p : α → Bool} (own : ∀ a ∈ f b, p a)
    (others : ∀ c ∈ l, c ≠ b → ∀ a ∈ f c, ¬ p a) : (l.flatMap f).filter p = f b := by
  induction l with
  | nil => contradiction
  | cons c l ih =>
    obtain ⟨new, distinct⟩ := List.nodup_cons.1 distinct
    rw [List.flatMap_cons, List.filter_append]
    rcases List.mem_cons.1 mem with rfl | mem
    · have rest : (l.flatMap f).filter p = [] := List.filter_eq_nil_iff.2 fun a ha => by
        obtain ⟨c, hc, hac⟩ := List.mem_flatMap.1 ha
        exact others c (List.mem_cons_of_mem _ hc) (ne_of_mem_of_not_mem hc new) a hac
      rw [List.filter_eq_self.2 own, rest, List.append_nil]
    · have first : (f c).filter p = [] := List.filter_eq_nil_iff.2
        (others c List.mem_cons_self (ne_of_mem_of_not_mem mem new).symm)
      rw [first, ih distinct mem fun c hc => others c (List.mem_cons_of_mem _ hc), List.nil_append]

def noteNew (l : List α) (a : α) : List α := if a ∈ l then l else l ++ [a]

/-- Elements that are noted one after the other come without repeats. -/
theorem foldl_noteNew (noted l : List α) :
    l.foldl noteNew noted = noted ++ (l.filter fun a => a ∉ noted).eraseDups := by
  induction l generalizing noted with
  | nil => simp
  | cons a l ih =>
    rw [List.foldl_cons, ih, noteNew]
    split
    · next old => rw [List.filter_cons_of_neg (by simpa using old)]
    · next new =>
      rw [List.filter_cons_of_pos (by simpa using new), List.eraseDups_cons, List.filter_filter,
        List.append_assoc, List.singleton_append]
      congr 3
      apply List.filter_congr
      intro b _
      by_cases h : b = a <;> simp [h, new]

theorem eraseDups_concat (l : List α) (a : α) : (l ++ [a]).eraseDups = noteNew l.eraseDups a := by
  have noted (l : List α) : l.eraseDups = l.foldl noteNew [] := by simp [foldl_noteNew]
  rw [noted, noted, List.foldl_append]
  rfl

end Precedence

import Precedence.Proofs.Moment
import Precedence.Task.Reader
/-!
Records are read back: the text written for a task stands for that task, and it is one line.
-/
namespace Precedence.Json

open Text

@[simp] theorem dropGap_quoted (s : String) (rest : List Char) :
    dropGap (quoted s ++ rest) = quoted s ++ rest := rfl

theorem decimal_ne_zero_cons (n : Nat) (c : Char) (cs : List Char) :
    decimal n ≠ '0' :: c :: cs := by
  induction n using decimal.induct generalizing c cs with
  | case1 n h => simp [decimal, h]
  | case2 n h ih =>
    rw [decimal, if_neg h]
    intro e
    cases hd : decimal (n / 10) with
    | nil => exact decimal_ne_nil _ hd
    | cons a as =>
      rw [hd, List.cons_append, List.cons.injEq] at e
      obtain ⟨rfl, -⟩ := e
      cases as with
      | cons b bs => exact ih b bs hd
      | nil =>
        have value := value_decimal (n / 10)
        rw [hd] at value
        have zero : n / 10 = 0 := value.symm
        omega

@[simp] theorem printChars_natural (n : Nat) : printChars (.natural n) = decimal n := by
  simp [Document.natural, printChars, integerText, decimalText]

/-- What follows a value inside a list or a table. -/
def Ends (rest : List Char) : Prop := ∃ c cs, rest = c :: cs ∧ (c = ',' ∨ c = ']' ∨ c = '\x7d')

theorem natural?_decimal {limit n : Nat} (h : n < limit) {rest : List Char} (ends : Ends rest) :
    natural? limit (decimal n ++ rest) = some (n, rest) := by
  obtain ⟨c, cs, rfl, stop⟩ := ends
  have whole : wholePart? (decimal n ++ c :: cs) = some (decimal n, c :: cs) := by
    have split : (decimal n ++ c :: cs).span isDigit = (decimal n, c :: cs) :=
      span_isDigit_append (isDigit_of_mem_decimal n) (by rcases stop with rfl | rfl | rfl <;> rfl)
    rw [wholePart?, split]
    split
    · next e => exact absurd (Prod.mk.inj e).1 (decimal_ne_nil n)
    · next e => exact absurd (Prod.mk.inj e).1 (decimal_ne_zero_cons n _ _)
    · next e => rw [e]
  rw [natural?, whole]
  rcases stop with rfl | rfl | rfl <;> simp [h]

end Precedence.Json

namespace Precedence.Record

open Json Text

@[simp] theorem text_quoted (s : String) (rest : List Char) :
    text (quoted s ++ rest) = .ok (s, rest) := by
  rw [text, dropGap_quoted, readQuoted?_quoted]
  rfl

@[simp] theorem id_quoted (i : TaskId) (rest : List Char) :
    id (quoted i.text ++ rest) = .ok (i, rest) := by
  simp [id]

theorem name_quoted {α : Type} {ofName? : String → Option α} {s : String} {a : α}
    (h : ofName? s = some a) (rest : List Char) :
    name ofName? (quoted s ++ rest) = .ok (a, rest) := by
  rw [name, dropGap_quoted]
  split
  · next e => exact absurd (List.cons.inj e).1 (by decide)
  · rw [readQuoted?_quoted]
    simp [lift, h]

@[simp] theorem dropGap_decimal (n : Nat) (rest : List Char) :
    dropGap (decimal n ++ rest) = decimal n ++ rest := by
  obtain ⟨d, ds, e⟩ := List.exists_cons_of_ne_nil (decimal_ne_nil n)
  have digit : isDigit d := isDigit_of_mem_decimal n d (by simp [e])
  have noGap : isGap d = false := by
    simp only [isDigit, Bool.and_eq_true, decide_eq_true_eq] at digit
    simp only [isGap, Bool.or_eq_false_iff, decide_eq_false_iff_not]
    refine ⟨⟨⟨?_, ?_⟩, ?_⟩, ?_⟩ <;> rintro rfl <;> simp at digit
  rw [e, List.cons_append, dropGap, List.dropWhile_cons_of_neg (by simp [noGap])]

theorem natural_decimal {limit n : Nat} (h : n < limit) {rest : List Char} (ends : Ends rest) :
    natural limit (decimal n ++ rest) = .ok (n, rest) := by
  rw [natural, dropGap_decimal, natural?_decimal h ends]
  rfl

theorem priority_decimal (p : Priority) {rest : List Char} (ends : Ends rest) :
    priority (decimal p.level ++ rest) = .ok (p, rest) := by
  have byte : p.level < 256 := by have := p.level_le; omega
  rw [priority, natural_decimal byte ends, ok_bind]
  simp

@[simp] theorem instant_quoted (t : Instant) (rest : List Char) :
    instant (quoted t.recordText ++ rest) = .ok (t, rest) := by
  simp [instant, lift, Except.toOption]

theorem optional_ok {α : Type} {read : Reader α} {cs rest : List Char} {a : α}
    (h : read cs = .ok (a, rest)) (notNull : (dropGap cs).head? ≠ some 'n')
    (noGap : dropGap cs = cs) : optional read cs = .ok (some a, rest) := by
  rw [noGap] at notNull
  rw [optional, noGap]
  split
  · exact absurd rfl notNull
  · rw [h, ok_bind]

theorem optional_natural_decimal {limit n : Nat} (h : n < limit) {rest : List Char}
    (ends : Ends rest) : optional (natural limit) (decimal n ++ rest) = .ok (some n, rest) := by
  refine optional_ok (natural_decimal h ends) ?_ (dropGap_decimal n rest)
  obtain ⟨d, ds, e⟩ := List.exists_cons_of_ne_nil (decimal_ne_nil n)
  have digit : isDigit d := isDigit_of_mem_decimal n d (by simp [e])
  rw [dropGap_decimal, e]
  rintro ⟨⟩
  exact absurd digit (by decide)

theorem idsFrom_printItems (p : TaskId) (ps : List TaskId) (rest : List Char) {fuel : Nat}
    (h : ps.length < fuel) :
    idsFrom fuel (quoted p.text ++ (printItems (ps.map fun p => .text p.text) ++ rest)) =
      .ok (p :: ps, rest) := by
  induction ps generalizing p fuel with
  | nil =>
    obtain _ | fuel := fuel
    · exact absurd h (Nat.not_lt_zero _)
    · rw [idsFrom, id_quoted, ok_bind]
      rfl
  | cons q ps ih =>
    obtain _ | fuel := fuel
    · exact absurd h (Nat.not_lt_zero _)
    · rw [idsFrom, id_quoted, ok_bind]
      simp only [List.map_cons, printItems, printChars, List.cons_append, List.append_assoc]
      rw [show dropGap (',' :: _) = ',' :: _ from rfl]
      simp only [ih q (Nat.lt_of_succ_lt_succ h), ok_bind]

theorem length_le_printItems (items : List Document) :
    items.length ≤ (printItems items).length := by
  induction items with
  | nil => exact Nat.zero_le _
  | cons d items ih =>
    simp only [printItems, List.length_cons, List.length_append] at *
    omega

theorem ids_printChars (ps : List TaskId) (rest : List Char) :
    ids (printChars (.list (ps.map fun p => .text p.text)) ++ rest) = .ok (ps, rest) := by
  cases ps with
  | nil => rfl
  | cons p ps =>
    simp only [List.map_cons, printChars, List.cons_append, List.append_assoc, ids]
    rw [show dropGap ('[' :: _) = '[' :: _ from rfl]
    simp only [dropGap_quoted]
    split
    · next e => exact absurd (List.cons.inj e).1 (by decide)
    · apply idsFrom_printItems p ps rest
      have enough := length_le_printItems (ps.map fun p => .text p.text)
      simp only [List.length_map, List.length_append] at *
      omega

/-- A draft with what a field of a task holds. -/
def Draft.fill (d : Draft) (t : Task) : Field → Draft
  | .id => { d with id := some t.id }
  | .description => { d with description := some t.description }
  | .status => { d with status := some t.status }
  | .priority => { d with priority := some t.priority }
  | .estimatedDuration =>
    { d with estimatedDuration := some (t.estimatedDuration.map UInt64.toNat) }
  | .parent => { d with parent := some t.parent }
  | .depth => { d with depth := some t.depth.toNat }
  | .origin => { d with origin := some t.origin }
  | .dependsOn => { d with dependsOn := some t.dependsOn }
  | .createdAt => { d with createdAt := some t.createdAt }
  | .updatedAt => { d with updatedAt := some t.updatedAt }
  | .completedAt => { d with completedAt := some t.completedAt }

@[simp] theorem Draft.has_fill (d : Draft) (t : Task) (f g : Field) :
    (d.fill t f).has g = (f == g || d.has g) := by
  cases f <;> cases g <;> rfl

theorem into_ok {α : Type} {read : Reader α} {put : α → Draft} {cs rest : List Char} {a : α}
    (h : read cs = .ok (a, rest)) : into read put cs = .ok (put a, rest) := by
  rw [into, h, ok_bind]

theorem field_printChars {t : Task} {f : Field} {value : Document} (h : f.value? t = some value)
    (d : Draft) {rest : List Char} (ends : Ends rest) :
    field d f (printChars value ++ rest) = .ok (d.fill t f, rest) := by
  cases f with
  | id =>
    obtain rfl := Option.some.inj h
    rw [field]
    exact into_ok (id_quoted t.id rest)
  | description =>
    obtain rfl := Option.some.inj h
    rw [field]
    exact into_ok (text_quoted t.description rest)
  | status =>
    obtain rfl := Option.some.inj h
    rw [field]
    exact into_ok (name_quoted (Status.ofName?_name t.status) rest)
  | priority =>
    obtain rfl := Option.some.inj h
    rw [field, printChars_natural]
    exact into_ok (priority_decimal t.priority ends)
  | estimatedDuration =>
    obtain ⟨n, e, rfl⟩ := Option.map_eq_some_iff.1 h
    have small : n.toNat < UInt64.size := n.toNat_lt
    rw [field, Draft.fill, e, printChars_natural]
    exact into_ok (optional_natural_decimal small ends)
  | parent =>
    obtain ⟨p, e, rfl⟩ := Option.map_eq_some_iff.1 h
    rw [field, Draft.fill, e]
    exact into_ok (optional_ok (id_quoted p rest) (by rintro ⟨⟩) rfl)
  | depth =>
    obtain rfl := Option.some.inj h
    have small : t.depth.toNat < UInt32.size := t.depth.toNat_lt
    rw [field, printChars_natural]
    exact into_ok (natural_decimal small ends)
  | origin =>
    obtain rfl := Option.some.inj h
    rw [field]
    exact into_ok (name_quoted (Origin.ofName?_name t.origin) rest)
  | dependsOn =>
    simp only [Field.value?] at h
    split at h
    · contradiction
    · obtain rfl := Option.some.inj h
      rw [field]
      exact into_ok (ids_printChars t.dependsOn rest)
  | createdAt =>
    obtain rfl := Option.some.inj h
    rw [field]
    exact into_ok (instant_quoted t.createdAt rest)
  | updatedAt =>
    obtain rfl := Option.some.inj h
    rw [field]
    exact into_ok (instant_quoted t.updatedAt rest)
  | completedAt =>
    obtain ⟨c, e, rfl⟩ := Option.map_eq_some_iff.1 h
    rw [field, Draft.fill, e]
    exact into_ok (optional_ok (instant_quoted c rest) (by rintro ⟨⟩) rfl)

def written (t : Task) (fs : List Field) : List (String × Document) :=
  fs.filterMap fun f => (f.value? t).map fun d => (f.key, d)

def Draft.fillAll (d : Draft) (t : Task) (fs : List Field) : Draft :=
  (fs.filter fun f => (f.value? t).isSome).foldl (fun d f => d.fill t f) d

/-- A field is read into the draft, and what follows it tells whether there are more. -/
theorem fieldsFrom_field {t : Task} {f : Field} {value : Document} {d : Draft}
    (h : f.value? t = some value) (fresh : d.has f = false) (fuel : Nat) {rest : List Char}
    (ends : Ends rest) :
    fieldsFrom (fuel + 1) d (quoted f.key ++ ':' :: (printChars value ++ rest)) =
      match dropGap rest with
      | ',' :: cs => fieldsFrom fuel (d.fill t f) cs
      | '\x7d' :: cs => .ok (d.fill t f, cs)
      | _ => .error .malformed := by
  rw [fieldsFrom, text_quoted, ok_bind]
  simp only [Field.ofKey?_key, Option.any_some, fresh, Bool.false_eq_true, if_false]
  rw [show lift (word? [':'] (dropGap (':' :: _))) = .ok _ from rfl, ok_bind]
  rw [field_printChars h d ends]
  rfl

theorem written_cons_none {t : Task} {f : Field} (h : f.value? t = none) (fs : List Field) :
    written t (f :: fs) = written t fs := by
  simp [written, h]

theorem written_cons_some {t : Task} {f : Field} {value : Document} (h : f.value? t = some value)
    (fs : List Field) : written t (f :: fs) = (f.key, value) :: written t fs := by
  simp [written, h]

/-- The fields behind the first key are read to the end of the object. Each is new to the draft,
and a field that is left out leaves the draft as it is. -/
theorem fieldsFrom_written {t : Task} {f : Field} {value : Document} {fs : List Field} {d : Draft}
    {fuel : Nat} (h : f.value? t = some value) (distinct : (f :: fs).Nodup)
    (fresh : ∀ g ∈ f :: fs, d.has g = false) (enough : (written t fs).length < fuel)
    (rest : List Char) :
    fieldsFrom fuel d
        (quoted f.key ++ (':' :: (printChars value ++ (printFields (written t fs) ++ rest)))) =
      .ok ((d.fill t f).fillAll t fs, rest) := by
  induction fs generalizing f value d fuel with
  | nil =>
    obtain _ | fuel := fuel
    · exact absurd enough (Nat.not_lt_zero _)
    · exact fieldsFrom_field h (fresh f List.mem_cons_self) fuel ⟨_, rest, rfl, .inr (.inr rfl)⟩
  | cons g fs ih =>
    obtain ⟨new, distinct'⟩ := List.nodup_cons.1 distinct
    cases hg : g.value? t with
    | none =>
      rw [written_cons_none hg] at enough ⊢
      rw [Draft.fillAll, List.filter_cons_of_neg (by simp [hg])]
      refine ih h (distinct.sublist (.cons_cons _ (List.sublist_cons_self _ _))) (fun k hk => ?_)
        enough
      rcases List.mem_cons.1 hk with rfl | hk
      · exact fresh k List.mem_cons_self
      · exact fresh k (List.mem_cons_of_mem _ (List.mem_cons_of_mem _ hk))
    | some w =>
      rw [written_cons_some hg] at enough ⊢
      rw [Draft.fillAll, List.filter_cons_of_pos (by simp [hg]), List.foldl_cons]
      obtain _ | fuel := fuel
      · exact absurd enough (Nat.not_lt_zero _)
      simp only [printFields, List.cons_append, List.append_assoc]
      rw [fieldsFrom_field h (fresh f List.mem_cons_self) fuel ⟨_, _, rfl, .inl rfl⟩]
      refine ih hg distinct' (fun k hk => ?_) (Nat.lt_of_succ_lt_succ enough)
      rw [Draft.has_fill, fresh k (List.mem_cons_of_mem _ hk), Bool.or_false, beq_eq_false_iff_ne]
      rintro rfl
      exact new hk

theorem length_le_printFields (fields : List (String × Document)) :
    fields.length ≤ (printFields fields).length := by
  induction fields with
  | nil => exact Nat.zero_le _
  | cons f fields ih =>
    simp only [printFields, List.length_cons, List.length_append] at *
    omega

@[simp] theorem task?_fillAll (t : Task) : (({} : Draft).fillAll t Field.all).task? = some t := by
  obtain ⟨id, description, status, priority, duration, parent, depth, origin, dependsOn, createdAt,
    updatedAt, completedAt⟩ := t
  cases duration <;> cases parent <;> cases completedAt <;> cases dependsOn <;>
    simp [Draft.fillAll, Field.all, Field.value?, Draft.fill, Draft.task?]

theorem task_printChars (t : Task) (rest : List Char) :
    task (printChars t.document ++ rest) = .ok (t, rest) := by
  have enough (cs : List Char) : (written t Field.all.tail).length <
      (quoted Field.id.key ++ ':' :: (printChars (.text t.id.text) ++
        (printFields (written t Field.all.tail) ++ cs))).length + 1 := by
    have := length_le_printFields (written t Field.all.tail)
    simp only [List.length_append, List.length_cons] at *
    omega
  have fields := @fieldsFrom_written t .id _ Field.all.tail {} _ rfl (by decide)
    (fun g _ => by cases g <;> rfl) (enough rest) rest
  have opened : printChars t.document ++ rest =
      '\x7b' :: (quoted Field.id.key ++ ':' :: (printChars (.text t.id.text) ++
        (printFields (written t Field.all.tail) ++ rest))) := by
    show '\x7b' :: (_ ++ _ ++ _) ++ rest = _
    simp only [List.cons_append, List.append_assoc]
    rfl
  rw [opened, task, show dropGap ('\x7b' :: _) = '\x7b' :: _ from rfl]
  simp only [dropGap_quoted]
  split
  · next closed => exact absurd (List.cons.inj closed).1 (by decide)
  · rw [fields, ok_bind, show (({} : Draft).fill t .id).fillAll t Field.all.tail =
      ({} : Draft).fillAll t Field.all from rfl, task?_fillAll]
    rfl

end Precedence.Record

namespace Precedence.Task

/-- The record of a task stands for it. -/
@[simp] theorem ofRecord_record (t : Task) : ofRecord t.record = .ok t := by
  have read : Record.task (Json.printChars t.document) = .ok (t, []) := by
    simpa using Record.task_printChars t []
  rw [ofRecord, Record.whole, record, Json.print, String.toList_ofList, read, ok_bind]
  rfl

end Precedence.Task

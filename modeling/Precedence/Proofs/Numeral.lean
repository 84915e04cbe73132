import Mathlib.Data.List.TakeDrop
import Precedence.Time.Reader
/-! Numerals in front of other text: the readers of digits stop where the digits that were written
stop, and give back their value. -/
namespace Precedence

@[simp] theorem ok_bind {ε α β : Type} (a : α) (f : α → Except ε β) :
    (Except.ok a >>= f) = f a := rfl

theorem eq_ok_of_toOption {ε α : Type} {r : Except ε α} {a : α} (h : r.toOption = some a) :
    r = .ok a := by
  cases r with
  | ok _ => rw [Option.some.inj h]
  | error _ => contradiction

theorem exists_of_bind_eq_ok {ε α β : Type} {x : Except ε α} {f : α → Except ε β} {b : β}
    (h : x >>= f = .ok b) : ∃ a, x = .ok a ∧ f a = .ok b := by
  cases x with
  | error _ => cases h
  | ok a => exact ⟨a, rfl, h⟩

theorem exists_of_map_eq_ok {ε α β : Type} {x : Except ε α} {f : α → β} {b : β}
    (h : x.map f = .ok b) : ∃ a, x = .ok a ∧ f a = b := by
  cases x with
  | error _ => cases h
  | ok a => exact ⟨a, rfl, Except.ok.inj h⟩

theorem eq_ok_of_mapError {ε ε' α : Type} {x : Except ε α} {f : ε → ε'} {a : α}
    (h : x.mapError f = .ok a) : x = .ok a := by
  cases x with
  | error _ => cases h
  | ok b => rw [Except.ok.inj h]

end Precedence

namespace Precedence.Text

def beginsWithoutDigit (cs : List Char) : Bool := cs.head?.all fun c => !isDigit c

/-- Digits are split off up to the first character that is none, or as many as asked for. -/
theorem spanDigits_append {most : Nat} {ds rest : List Char} (digits : ∀ c ∈ ds, isDigit c)
    (fits : ds.length ≤ most) (stops : ds.length = most ∨ beginsWithoutDigit rest) :
    spanDigits most (ds ++ rest) = (ds, rest) := by
  induction most generalizing ds with
  | zero => simp_all [spanDigits]
  | succ most ih =>
    cases ds with
    | nil =>
      cases rest with
      | nil => simp [spanDigits]
      | cons c rest => simp_all [spanDigits, beginsWithoutDigit]
    | cons d ds =>
      have hd : isDigit d := digits d (by simp)
      have hr : spanDigits most (ds ++ rest) = (ds, rest) :=
        ih (fun c hc => digits c (by simp [hc])) (by simpa using fits) (by simpa using stops)
      simp [spanDigits, hd, hr]

theorem span_isDigit_append {ds rest : List Char} (digits : ∀ c ∈ ds, isDigit c)
    (stops : beginsWithoutDigit rest) : (ds ++ rest).span isDigit = (ds, rest) := by
  rw [List.span_eq_takeWhile_dropWhile, List.takeWhile_append_of_pos digits,
    List.dropWhile_append_of_pos digits]
  cases rest with
  | nil => simp
  | cons c rest => simp_all [beginsWithoutDigit]

theorem not_isBlank_of_isDigit {c : Char} (h : isDigit c) : isBlank c = false := by
  simp only [isDigit, Bool.and_eq_true, decide_eq_true_eq] at h
  simp only [isBlank, Bool.or_eq_false_iff, Bool.and_eq_false_iff, decide_eq_false_iff_not,
    beq_eq_false_iff_ne]
  omega

theorem trimStart_digits {ds rest : List Char} (digits : ∀ c ∈ ds, isDigit c) (h : ds ≠ []) :
    trimStart (ds ++ rest) = ds ++ rest := by
  obtain ⟨d, ds, rfl⟩ := List.exists_cons_of_ne_nil h
  exact trimStart_eq_self (not_isBlank_of_isDigit (digits d (by simp)))

theorem length_le_utf8ByteSize (cs : List Char) : cs.length ≤ (String.ofList cs).utf8ByteSize := by
  induction cs with
  | nil => simp
  | cons c cs ih =>
    have hc := c.utf8Size_pos
    rw [String.ofList_cons, String.utf8ByteSize_append, String.utf8ByteSize_singleton,
      List.length_cons]
    omega

end Precedence.Text

namespace Precedence.Instant

open Text

/-- A run of digits between two bounds is read back from the front of a text. -/
theorem number_append {least most : Nat} {ds rest : List Char} (digits : ∀ c ∈ ds, isDigit c)
    (enough : least ≤ ds.length) (fits : ds.length ≤ most)
    (stops : ds.length = most ∨ beginsWithoutDigit rest) :
    number least most (ds ++ rest) = .ok (value ds, rest) := by
  have long : ¬ (String.ofList ((ds ++ rest).take least)).utf8ByteSize < least := by
    have h := length_le_utf8ByteSize ((ds ++ rest).take least)
    rw [List.length_take, List.length_append] at h
    omega
  simp only [number, if_neg long, spanDigits_append digits fits stops, if_neg (Nat.not_lt.2 enough)]

theorem number_fixed {least places n : Nat} (enough : least ≤ places) (h : n < tenTo places)
    (rest : List Char) : number least places (fixed places n ++ rest) = .ok (n, rest) := by
  have length := length_fixed places n
  rw [number_append (isDigit_of_mem_fixed places n) (Nat.le_trans enough (Nat.le_of_eq length.symm))
    (Nat.le_of_eq length) (.inl length), value_fixed, Nat.mod_eq_of_lt h]

@[simp] theorem expect_cons (c : Char) (cs : List Char) : expect c (c :: cs) = .ok cs := by
  simp [expect]

end Precedence.Instant

import Precedence.Proofs.Numeral
/-!
Moments are read back. The text in a record stands for the moment that it was written for, whatever
its year; the text in a row of the replica does so as long as four digits hold the year.
-/
namespace Precedence.Instant

open Text

def reading (t : Instant) : Reading where
  year := t.date.year
  month := t.date.month
  day := t.date.day
  hour := t.second / 3600
  minute := t.second / 60 % 60
  second := t.second % 60 + if t.nanos < secondLength then 0 else 1
  nanos := t.nanos % secondLength
  offset := 0

theorem reading_second_eq_sixty (t : Instant) :
    t.reading.second = 60 ↔ secondLength ≤ t.nanos := by
  obtain ⟨-, fraction⟩ := t.timeOfDay
  simp only [reading]
  split <;> omega

theorem isTime_reading (t : Instant) :
    IsTime t.reading.hour t.reading.minute t.reading.second := by
  have inDay := t.timeOfDay.1
  simp only [dayLength] at inDay
  refine ⟨?_, ?_, ?_⟩ <;> simp only [reading]
  · omega
  · omega
  · split <;> omega

/-- A moment is made of its own reading, also where it is in a leap second. -/
@[simp] theorem instant_reading (t : Instant) : t.reading.instant = .ok t := by
  obtain ⟨-, fraction⟩ := t.timeOfDay
  have sixty := t.reading_second_eq_sixty
  have second : 3600 * t.reading.hour + 60 * t.reading.minute +
      (if t.reading.second = 60 then 59 else t.reading.second) = t.second := by
    simp only [sixty]
    by_cases leap : secondLength ≤ t.nanos
    · simp only [reading, if_pos leap]
      omega
    · simp only [reading, if_neg leap, if_pos (Nat.lt_of_not_le leap)]
      omega
  have nanos : t.reading.nanos + (if t.reading.second = 60 then secondLength else 0) = t.nanos := by
    simp only [sixty]
    by_cases leap : secondLength ≤ t.nanos
    · simp only [reading, if_pos leap]
      simp only [secondLength] at *
      omega
    · simp only [reading, if_neg leap, Nat.mod_eq_of_lt (Nat.lt_of_not_le leap), Nat.add_zero]
  have whole : t.reading.offset.natAbs < dayLength := by simp [reading, dayLength]
  have made : t.reading.instant? = some t := by
    simp only [Reading.instant?, if_pos (And.intro t.isTime_reading whole), second, nanos]
    simp [reading]
  simp [Reading.instant, made]

/-! Parts of a text -/

private theorem fraction_point {places n : Nat} (positive : 0 < places) (fits : places ≤ 9)
    (h : n < tenTo places) {rest : List Char} (stops : beginsWithoutDigit rest) :
    fraction ('.' :: fixed places n ++ rest) = .ok (n * tenTo (9 - places), rest) := by
  have length := length_fixed places n
  have read : number 1 9 (fixed places n ++ rest) = .ok (n, rest) := by
    rw [number_append (isDigit_of_mem_fixed places n) (by omega) (by omega) (.inr stops),
      value_fixed, Nat.mod_eq_of_lt h]
  have skip : rest.dropWhile isDigit = rest := by
    cases rest with
    | nil => rfl
    | cons c rest => simp_all [beginsWithoutDigit]
  rw [List.cons_append, fraction, read]
  simp [pure, Except.pure, length, skip]

theorem fraction_append {n : Nat} (h : n < secondLength) {rest : List Char}
    (stops : beginsWithoutDigit rest) (noPoint : rest.head? ≠ some '.') :
    fraction (fractionText n ++ rest) = .ok (n, rest) := by
  have h : n < 1000000000 := h
  unfold fractionText
  split
  · next zero =>
    subst zero
    cases rest with
    | nil => rfl
    | cons c rest =>
      rw [List.nil_append, fraction]
      rintro cs ⟨⟩
      exact noPoint rfl
  split
  · rw [fraction_point (by decide) (by decide) (by simp only [tenTo]; omega) stops]
    simp only [tenTo]
    congr 2
    omega
  split
  · rw [fraction_point (by decide) (by decide) (by simp only [tenTo]; omega) stops]
    simp only [tenTo]
    congr 2
    omega
  · rw [fraction_point (by decide) (by decide) (by simp only [tenTo]; omega) stops]
    simp [tenTo]

theorem number_size (n : Nat) {rest : List Char} (stops : beginsWithoutDigit rest) :
    number 1 ((if n ≤ 9999 then fixed 4 n else decimal n) ++ rest).length
      ((if n ≤ 9999 then fixed 4 n else decimal n) ++ rest) = .ok (n, rest) := by
  split
  · next h =>
    have small : n < tenTo 4 := Nat.lt_of_le_of_lt h (by decide)
    rw [number_append (isDigit_of_mem_fixed 4 n) (by simp) (by simp) (.inr stops),
      value_fixed, Nat.mod_eq_of_lt small]
  · rw [number_append (isDigit_of_mem_decimal n) (List.length_pos_iff.2 (decimal_ne_nil n))
      (by simp) (.inr stops), value_decimal]

theorem year_append (y : Int) {rest : List Char} (stops : beginsWithoutDigit rest) :
    year (yearText y ++ rest) = .ok (y, rest) := by
  unfold yearText
  split
  · next h =>
    have read : number 1 4 (fixed 4 y.toNat ++ rest) = .ok (y.toNat, rest) :=
      number_fixed (by decide) (by simp only [tenTo]; omega) rest
    obtain ⟨d, ds, e⟩ := List.exists_cons_of_ne_nil (l := fixed 4 y.toNat) (by simp [fixed])
    have digit : isDigit d := isDigit_of_mem_fixed 4 y.toNat d (by simp [e])
    rw [e, List.cons_append] at read ⊢
    rw [year, read]
    · simp only [ok_bind, pure, Except.pure, Except.ok.injEq, Prod.mk.injEq, and_true]
      omega
    · rintro cs ⟨⟩
      exact absurd digit (by decide)
    · rintro cs ⟨⟩
      exact absurd digit (by decide)
  · dsimp only
    rw [List.cons_append]
    split
    · rw [year, number_size y.natAbs stops]
      simp only [ok_bind, pure, Except.pure, Except.ok.injEq, Prod.mk.injEq, and_true]
      omega
    · rw [year, number_size y.natAbs stops]
      simp only [ok_bind, pure, Except.pure, Except.ok.injEq, Prod.mk.injEq, and_true]
      omega

theorem looseNumber_fixed {low high n : Nat} (least : low ≤ n) (most : n ≤ high) (h : n < 100)
    (rest : List Char) : looseNumber low high (fixed 2 n ++ rest) = .ok (n, rest) := by
  rw [looseNumber, trimStart_digits (isDigit_of_mem_fixed 2 n) (by simp [fixed]), ranged,
    number_fixed (by decide) h]
  simp [pure, Except.pure, least, most]

@[simp] theorem separator_t (cs : List Char) : separator ('T' :: cs) = .ok cs := rfl

@[simp] theorem trimStart_yearText (y : Int) (rest : List Char) :
    trimStart (yearText y ++ rest) = yearText y ++ rest := by
  unfold yearText
  split
  · exact trimStart_digits (isDigit_of_mem_fixed 4 _) (by simp [fixed])
  · apply trimStart_eq_self
    split <;> rfl

@[simp] theorem lenient_recordText (t : Instant) : lenient t.recordText.toList = .ok t.reading := by
  have month := t.date.valid.one_le_month
  have month_le := t.date.valid.month_le
  have day := t.date.valid.one_le_day
  have day_le : t.date.day ≤ 31 := Nat.le_trans t.date.valid.day_le (Date.monthLength_le ..)
  obtain ⟨hour, minute, second⟩ := t.isTime_reading
  have nanos : t.nanos % secondLength < secondLength := Nat.mod_lt _ (by decide)
  have dash (cs : List Char) : trimStart ('-' :: cs) = '-' :: cs := trimStart_eq_self rfl
  have colon (cs : List Char) : trimStart (':' :: cs) = ':' :: cs := trimStart_eq_self rfl
  simp only [reading] at hour minute second
  simp only [recordText, localText, dateText, clockText, String.toList_ofList, List.append_assoc,
    List.cons_append, lenient, trimStart_yearText]
  rw [year_append _ rfl, ok_bind]
  dsimp only
  rw [dash, expect_cons, ok_bind, looseNumber_fixed month month_le (by omega), ok_bind]
  dsimp only
  rw [dash, expect_cons, ok_bind, looseNumber_fixed day day_le (by omega), ok_bind]
  dsimp only
  rw [separator_t, ok_bind, looseNumber_fixed (Nat.zero_le _) (by omega) (by omega), ok_bind]
  dsimp only
  rw [colon, expect_cons, ok_bind, looseNumber_fixed (Nat.zero_le _) (by omega) (by omega), ok_bind]
  dsimp only
  rw [colon, expect_cons, ok_bind, looseNumber_fixed (Nat.zero_le _) (by omega) (by omega), ok_bind]
  dsimp only
  rw [fraction_append nanos rfl (by decide), ok_bind]
  rfl

/-- A record's text stands for the moment that it was written for. -/
@[simp] theorem ofRecordText_recordText (t : Instant) : ofRecordText t.recordText = .ok t := by
  simp [ofRecordText]

theorem strict_rowText (t : Instant) (least : 0 ≤ t.date.year) (most : t.date.year ≤ 9999) :
    strict t.rowText.toList = .ok t.reading := by
  have month := t.date.valid.month_le
  have day : t.date.day ≤ 31 := Nat.le_trans t.date.valid.day_le (Date.monthLength_le ..)
  have time := t.isTime_reading
  have ⟨hour, minute, second⟩ := time
  have nanos : t.nanos % secondLength < secondLength := Nat.mod_lt _ (by decide)
  have pair {n : Nat} (h : n < 100) (rest : List Char) :
      number 2 2 (fixed 2 n ++ rest) = .ok (n, rest) := number_fixed (Nat.le_refl _) h rest
  have year (rest : List Char) :
      number 4 4 (fixed 4 t.date.year.toNat ++ rest) = .ok (t.date.year.toNat, rest) :=
    number_fixed (Nat.le_refl _) (by simp only [tenTo]; omega) rest
  have year_eq : ((t.date.year.toNat : Nat) : Int) = t.date.year := by omega
  have long : ¬ (String.ofList (t.localText ++ ['+', '0', '0', ':', '0', '0'])).utf8ByteSize <
      strictLength := by
    have h := length_le_utf8ByteSize (t.localText ++ ['+', '0', '0', ':', '0', '0'])
    simp only [localText, dateText, clockText, yearText, if_pos (And.intro least most),
      List.length_append, List.length_cons, length_fixed, List.length_nil, strictLength] at h ⊢
    omega
  have universal : offset (expect ':') ['+', '0', '0', ':', '0', '0'] = .ok (0, []) := by decide
  simp only [reading] at time hour minute second
  simp only [rowText, String.toList_ofList, strict, if_neg long]
  simp only [localText, dateText, clockText, yearText, if_pos (And.intro least most),
    List.append_assoc, List.cons_append]
  rw [year, ok_bind, expect_cons, ok_bind, pair (by omega), ok_bind, expect_cons, ok_bind,
    pair (by omega), ok_bind]
  simp only [year_eq, Date.ofParts?_parts, Option.isNone_some, Bool.false_eq_true, if_false]
  rw [separator_t, ok_bind, pair (by omega), ok_bind, expect_cons, ok_bind, pair (by omega),
    ok_bind, expect_cons, ok_bind, pair (by omega), ok_bind,
    fraction_append nanos rfl (by decide), ok_bind]
  simp only [if_neg (not_not_intro time)]
  rw [universal, ok_bind]
  rfl

/-- The text in a row stands for its moment, for the years of four digits. -/
theorem ofRowText_rowText (t : Instant) (least : 0 ≤ t.date.year) (most : t.date.year ≤ 9999) :
    ofRowText t.rowText = .ok t := by
  simp [ofRowText, strict_rowText t least most]

theorem strict_ne_ok {c : Char} (h : isDigit c = false) (cs : List Char) (r : Reading) :
    strict (c :: cs) ≠ .ok r := by
  intro read
  unfold strict at read
  split at read
  · contradiction
  · obtain ⟨x, year, -⟩ := exists_of_bind_eq_ok read
    have none : spanDigits 4 (c :: cs) = ([], c :: cs) := by simp [spanDigits, h]
    rw [number, none] at year
    split at year <;> contradiction

theorem yearText_signed {y : Int} (outside : ¬ (0 ≤ y ∧ y ≤ 9999)) :
    ∃ c cs, yearText y = c :: cs ∧ isDigit c = false := by
  rw [yearText, if_neg outside]
  exact ⟨_, _, rfl, by split <;> decide⟩

/-- No other year is read back. -/
theorem year_of_ofRowText {t u : Instant} (read : ofRowText t.rowText = .ok u) :
    0 ≤ t.date.year ∧ t.date.year ≤ 9999 := by
  by_contra outside
  obtain ⟨c, cs, text, sign⟩ := yearText_signed outside
  obtain ⟨rest, row⟩ : ∃ rest, t.rowText.toList = c :: rest := by
    rw [rowText, localText, dateText, text, String.toList_ofList]
    exact ⟨_, rfl⟩
  rw [ofRowText, row] at read
  obtain ⟨r, strict, -⟩ := exists_of_bind_eq_ok read
  exact strict_ne_ok sign rest r strict

end Precedence.Instant

/-! Days of the Gregorian calendar, extended in both directions over a little more than half a
million years. -/
namespace Precedence

namespace Date

/-- Every fourth year is a leap year, but of the full centuries only every fourth. -/
def isLeap (year : Int) : Bool := year % 4 == 0 && (year % 100 != 0 || year % 400 == 0)

def monthLength (year : Int) (month : Nat) : Nat :=
  if month = 2 then (if isLeap year then 29 else 28)
  else if month = 4 ∨ month = 6 ∨ month = 9 ∨ month = 11 then 30
  else 31

theorem monthLength_le (year : Int) (month : Nat) : monthLength year month ≤ 31 := by
  unfold monthLength
  repeat' split
  all_goals decide

def firstYear : Int := -262143
def lastYear : Int := 262142

/-- What makes three numbers a day of the calendar. -/
structure Valid (year : Int) (month day : Nat) : Prop where
  firstYear_le : firstYear ≤ year
  le_lastYear : year ≤ lastYear
  one_le_month : 1 ≤ month
  month_le : month ≤ 12
  one_le_day : 1 ≤ day
  day_le : day ≤ monthLength year month

instance (year : Int) (month day : Nat) : Decidable (Valid year month day) :=
  decidable_of_iff
    (firstYear ≤ year ∧ year ≤ lastYear ∧ 1 ≤ month ∧ month ≤ 12 ∧ 1 ≤ day ∧
      day ≤ monthLength year month)
    ⟨fun ⟨a, b, c, d, e, f⟩ => ⟨a, b, c, d, e, f⟩, fun ⟨a, b, c, d, e, f⟩ => ⟨a, b, c, d, e, f⟩⟩

end Date

structure Date where
  year : Int
  month : Nat
  day : Nat
  valid : Date.Valid year month day
  deriving DecidableEq

namespace Date

def ofParts? (year : Int) (month day : Nat) : Option Date :=
  if h : Valid year month day then some ⟨year, month, day, h⟩ else none

@[simp] theorem ofParts?_parts (d : Date) : ofParts? d.year d.month d.day = some d := by
  simp [ofParts?, d.valid]

def next? (d : Date) : Option Date :=
  (ofParts? d.year d.month (d.day + 1)).or
    ((ofParts? d.year (d.month + 1) 1).or (ofParts? (d.year + 1) 1 1))

def previous? (d : Date) : Option Date :=
  (ofParts? d.year d.month (d.day - 1)).or
    ((ofParts? d.year (d.month - 1) (monthLength d.year (d.month - 1))).or
      (ofParts? (d.year - 1) 12 31))

def compare (a b : Date) : Ordering :=
  (Ord.compare a.year b.year).then ((Ord.compare a.month b.month).then (Ord.compare a.day b.day))

/-- The days from the first of January 1970 to the first day of a year. -/
def daysToYear (year : Int) : Int :=
  let y := year - 1
  365 * (year - 1970) + (y / 4 - y / 100 + y / 400) - 477

def daysToMonth (year : Int) : Nat → Nat
  | 0 => 0
  | 1 => 0
  | m + 2 => daysToMonth year (m + 1) + monthLength year (m + 1)

def dayNumber (d : Date) : Int :=
  daysToYear d.year + daysToMonth d.year d.month + (d.day - 1)

/-- The day so many days after the first of January 1970, found by its year and then by its
month. -/
def after1970? (n : Nat) : Option Date :=
  let year := (List.range (n / 365 + 1)).foldl
    (fun (y : Int) _ => if daysToYear (y + 1) ≤ n then y + 1 else y) 1970
  let place := (List.range 12).foldl
    (fun (p : Nat × Nat) _ =>
      let length := monthLength year p.1
      if length ≤ p.2 then (p.1 + 1, p.2 - length) else p)
    (1, (n - daysToYear year).toNat)
  ofParts? year place.1 (place.2 + 1)

end Date
end Precedence

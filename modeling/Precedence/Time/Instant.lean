import Precedence.Text.Decimal
import Precedence.Time.Date
import Precedence.Word
/-!
Moments in universal time, to the nanosecond and with leap seconds, and the texts they are written
as. A leap second is the last second of a minute with a fraction of one second or more.
-/
namespace Precedence

namespace Instant

def dayLength : Nat := 86400

def secondLength : Nat := 1000000000

/-- A time of day, in seconds from midnight and a fraction. Only the last second of a minute has a
fraction of one second or more. A setter for the fraction alone could give one to any other second
too; such a value is not a time in universal time, no clock shows it and no text stands for it, so
there are none here. -/
def TimeOfDay (second nanos : Nat) : Prop :=
  second < dayLength ∧
    (nanos < secondLength ∨ (nanos < 2 * secondLength ∧ second % 60 = 59))

instance (second nanos : Nat) : Decidable (TimeOfDay second nanos) :=
  inferInstanceAs (Decidable (_ ∧ _))

end Instant

/-- A moment that a clock can show or a text can name, leap seconds at the end of a minute
included. -/
structure Instant where
  date : Date
  second : Nat
  /-- The fraction of that second; one second or more in a leap second. -/
  nanos : Nat
  timeOfDay : Instant.TimeOfDay second nanos
  deriving DecidableEq

namespace Instant

def ofParts? (date : Date) (second nanos : Nat) : Option Instant :=
  if h : TimeOfDay second nanos then some ⟨date, second, nanos, h⟩ else none

@[simp] theorem ofParts?_parts (t : Instant) : ofParts? t.date t.second t.nanos = some t := by
  simp [ofParts?, t.timeOfDay]

def compare (a b : Instant) : Ordering :=
  (a.date.compare b.date).then ((Ord.compare a.second b.second).then (Ord.compare a.nanos b.nanos))

/-- The moment so many seconds earlier, for less than a day in either direction, unless it falls out
of the calendar. -/
def minusSeconds? (t : Instant) (seconds : Int) : Option Instant :=
  let moved := (t.second : Int) - seconds
  if moved < 0 then
    t.date.previous?.bind fun d => ofParts? d (moved + dayLength).toNat t.nanos
  else if moved < dayLength then ofParts? t.date moved.toNat t.nanos
  else t.date.next?.bind fun d => ofParts? d (moved - dayLength).toNat t.nanos

@[simp] theorem minusSeconds?_zero (t : Instant) : t.minusSeconds? 0 = some t := by
  have h := t.timeOfDay.1
  have h₁ : ¬ ((t.second : Int) < 0) := by omega
  have h₂ : (t.second : Int) < dayLength := by omega
  simp [minusSeconds?, h₁, h₂]

def after1970? (nanos : Nat) : Option Instant :=
  (Date.after1970? (nanos / secondLength / dayLength)).bind fun d =>
    ofParts? d (nanos / secondLength % dayLength) (nanos % secondLength)

/-- The nanoseconds from the first of January 1970, where they fit a signed 64-bit word. -/
def epochNanos? (t : Instant) : Option Int :=
  let n := (t.date.dayNumber * dayLength + t.second) * secondLength + t.nanos
  if Word.IsSigned n then some n else none

/-- A year of one to four digits has four, any other year a sign and at least four. -/
def yearText (year : Int) : List Char :=
  if 0 ≤ year ∧ year ≤ 9999 then Text.fixed 4 year.toNat
  else
    let size := year.natAbs
    (if year < 0 then '-' else '+') ::
      (if size ≤ 9999 then Text.fixed 4 size else Text.decimal size)

def dateText (d : Date) : List Char :=
  yearText d.year ++ '-' :: Text.fixed 2 d.month ++ '-' :: Text.fixed 2 d.day

/-- The fraction in as few groups of three digits as hold it; no point where it is zero. -/
def fractionText (nanos : Nat) : List Char :=
  if nanos = 0 then []
  else if nanos % 1000000 = 0 then '.' :: Text.fixed 3 (nanos / 1000000)
  else if nanos % 1000 = 0 then '.' :: Text.fixed 6 (nanos / 1000)
  else '.' :: Text.fixed 9 nanos

/-- Hour, minute and second; a leap second is second 60. -/
def clockText (t : Instant) : List Char :=
  let second := t.second % 60 + if t.nanos < secondLength then 0 else 1
  Text.fixed 2 (t.second / 3600) ++ ':' :: Text.fixed 2 (t.second / 60 % 60) ++
    ':' :: Text.fixed 2 second ++ fractionText (t.nanos % secondLength)

def localText (t : Instant) : List Char := dateText t.date ++ 'T' :: clockText t

/-- The text in records, with `Z` for universal time. -/
def recordText (t : Instant) : String := String.ofList (t.localText ++ ['Z'])

/-- The text in the rows of the replica, with a numeric offset. -/
def rowText (t : Instant) : String := String.ofList (t.localText ++ ['+', '0', '0', ':', '0', '0'])

def shortText (t : Instant) : String :=
  String.ofList (dateText t.date ++ ' ' :: Text.fixed 2 (t.second / 3600) ++
    ':' :: Text.fixed 2 (t.second / 60 % 60))

end Instant
end Precedence

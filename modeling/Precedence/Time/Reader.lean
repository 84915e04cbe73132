import Precedence.Text.Blank
import Precedence.Time.Instant
/-!
Reading moments. Records are read leniently: blanks may stand around the numbers, months and the
like may have one digit, a signed year may have any number of digits. Rows of the replica are read
in the one strict form of RFC 3339. In both, second 60 is a leap second, a fraction is cut after
nine digits, and any offset from universal time is taken off.
-/
namespace Precedence.Instant

open Text (isDigit spanDigits trimStart value)

inductive Fault where
  | outOfRange
  | invalid
  | tooShort
  | tooLong
  deriving DecidableEq, Repr

def Fault.message : Fault → String
  | .outOfRange => "input is out of range"
  | .invalid => "input contains invalid characters"
  | .tooShort => "premature end of input"
  | .tooLong => "trailing input"

structure Reading where
  year : Int
  month : Nat
  day : Nat
  hour : Nat
  minute : Nat
  second : Nat
  nanos : Nat
  /-- Seconds ahead of universal time. -/
  offset : Int

abbrev IsTime (hour minute second : Nat) : Prop := hour < 24 ∧ minute < 60 ∧ second ≤ 60

def Reading.instant? (r : Reading) : Option Instant := do
  let date ← Date.ofParts? r.year r.month r.day
  if IsTime r.hour r.minute r.second ∧ r.offset.natAbs < dayLength then
    let isLeap := r.second = 60
    let second := 3600 * r.hour + 60 * r.minute + if isLeap then 59 else r.second
    let t ← ofParts? date second (r.nanos + if isLeap then secondLength else 0)
    t.minusSeconds? r.offset
  else none

/-- Reads a value from the front of the characters that remain. -/
abbrev Scan (α : Type) := List Char → Except Fault (α × List Char)

/-- A number of digits between two bounds. A text with fewer bytes than the lower bound ends too
early, whatever it holds. -/
def number (least most : Nat) : Scan Nat := fun cs =>
  if (String.ofList (cs.take least)).utf8ByteSize < least then .error .tooShort
  else
    let (ds, rest) := spanDigits most cs
    if ds.length < least then .error .invalid else .ok (value ds, rest)

def ranged (low high : Nat) (scan : Scan Nat) : Scan Nat := fun cs => do
  let (n, cs) ← scan cs
  if low ≤ n ∧ n ≤ high then return (n, cs) else throw .outOfRange

def expect (c : Char) : List Char → Except Fault (List Char)
  | [] => .error .tooShort
  | d :: cs => if d = c then .ok cs else .error .invalid

def separator : List Char → Except Fault (List Char)
  | [] => .error .tooShort
  | c :: cs => if c = 'T' ∨ c = 't' ∨ c = ' ' then .ok cs else .error .invalid

/-- The fraction of a second after a point, in nanoseconds; digits past the ninth are dropped. -/
def fraction : Scan Nat
  | '.' :: cs => do
    let (n, rest) ← number 1 9 cs
    return (n * Text.tenTo (9 - (cs.length - rest.length)), rest.dropWhile isDigit)
  | cs => .ok (0, cs)

/-- An offset in hours and minutes, with what stands between them dropped by `skip`. -/
def offset (skip : List Char → Except Fault (List Char)) : Scan Int
  | [] => .error .tooShort
  | c :: cs =>
    if c = 'Z' ∨ c = 'z' then .ok (0, cs)
    else if c ≠ '+' ∧ c ≠ '-' ∧ c ≠ '−' then .error .invalid
    else do
      let (hours, cs) ← number 2 2 cs
      let (minutes, cs) ← ranged 0 59 (number 2 2) (← skip cs)
      let seconds : Int := 3600 * hours + 60 * minutes
      return (if c = '+' then seconds else -seconds, cs)

/-- A year: four digits at most, or a sign and any number of digits. -/
def year : Scan Int
  | '-' :: cs => do
    let (n, rest) ← number 1 cs.length cs
    return (-(n : Int), rest)
  | '+' :: cs => do
    let (n, rest) ← number 1 cs.length cs
    return ((n : Int), rest)
  | cs => do
    let (n, rest) ← number 1 4 cs
    return ((n : Int), rest)

def looseNumber (low high : Nat) : Scan Nat := fun cs =>
  ranged low high (number 1 2) (trimStart cs)

/-- Universal time by name, or an offset whose minutes may follow colons and blanks. -/
def looseOffset (cs : List Char) : Except Fault (Int × List Char) :=
  let bySign := offset (fun cs => .ok (cs.dropWhile fun c => c = ':' || Text.isBlank c)) cs
  match cs with
  | u :: t :: c :: rest =>
    if u.toLower = 'u' ∧ t.toLower = 't' ∧ c.toLower = 'c' then .ok (0, rest) else bySign
  | _ => bySign

def lenient (cs : List Char) : Except Fault Reading := do
  let (year, cs) ← year (trimStart cs)
  let (month, cs) ← looseNumber 1 12 (← expect '-' (trimStart cs))
  let (day, cs) ← looseNumber 1 31 (← expect '-' (trimStart cs))
  let (hour, cs) ← looseNumber 0 23 (← separator cs)
  let (minute, cs) ← looseNumber 0 59 (← expect ':' (trimStart cs))
  let (second, cs) ← looseNumber 0 60 (← expect ':' (trimStart cs))
  let (nanos, cs) ← fraction cs
  let (offset, cs) ← looseOffset (trimStart cs)
  if trimStart cs = [] then return { year, month, day, hour, minute, second, nanos, offset }
  else throw .tooLong

def strictLength : Nat := 19

/-- The reading of a text in strict form. Its length is looked at before anything else, and what
its digits say of a date or a time of day once all of them have been read. -/
def strict (cs : List Char) : Except Fault Reading := do
  if (String.ofList cs).utf8ByteSize < strictLength then throw .tooShort
  let (year, cs) ← number 4 4 cs
  let (month, cs) ← number 2 2 (← expect '-' cs)
  let (day, cs) ← number 2 2 (← expect '-' cs)
  if (Date.ofParts? year month day).isNone then throw .outOfRange
  let (hour, cs) ← number 2 2 (← separator cs)
  let (minute, cs) ← number 2 2 (← expect ':' cs)
  let (second, cs) ← number 2 2 (← expect ':' cs)
  let (nanos, cs) ← fraction cs
  if ¬ IsTime hour minute second then throw .outOfRange
  let (offset, cs) ← offset (expect ':') cs
  if cs = [] then return { year, month, day, hour, minute, second, nanos, offset }
  else throw .tooLong

/-- The moment that a reading stands for; some days and offsets in range make none. -/
def Reading.instant (r : Reading) : Except Fault Instant :=
  match r.instant? with
  | some t => .ok t
  | none => .error .outOfRange

def ofRecordText (s : String) : Except Fault Instant := do (← lenient s.toList).instant

def ofRowText (s : String) : Except Fault Instant := do (← strict s.toList).instant

end Precedence.Instant

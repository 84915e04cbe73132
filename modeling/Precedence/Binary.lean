import Precedence.Text.Decimal
/-!
Numbers with as many binary digits as a word or a double keeps: rounding to the nearest, and the
double that is taken for digits scaled by a power of ten.
-/
namespace Precedence

/-- The number `significand * 2 ^ exponent`. -/
structure Binary where
  significand : Nat
  exponent : Int
  deriving DecidableEq, Repr

namespace Binary

/-- The integer nearest to a quotient; of two that are equally near, the even one. -/
def roundDiv (n d : Nat) : Nat :=
  let q := n / d
  let twice := 2 * (n % d)
  if d < twice ∨ (twice = d ∧ q % 2 = 1) then q + 1 else q

/-- A rounded quotient is at most half a unit away. -/
theorem roundDiv_near (n d : Nat) (h : 0 < d) :
    2 * (d * roundDiv n d) ≤ 2 * n + d ∧ 2 * n ≤ 2 * (d * roundDiv n d) + d := by
  have e := Nat.div_add_mod n d
  have l := Nat.mod_lt n h
  unfold roundDiv
  generalize n / d = q at *
  generalize n % d = r at *
  simp only
  split
  · rw [Nat.mul_add]
    omega
  · omega

theorem roundDiv_even (n d : Nat) (h : 2 * (n % d) = d) : roundDiv n d % 2 = 0 := by
  unfold roundDiv
  generalize n / d = q
  simp only [h, Nat.lt_irrefl, true_and, false_or]
  split <;> omega

def drop (x : Binary) (extra : Nat) : Binary :=
  ⟨roundDiv x.significand (1 <<< extra), x.exponent + extra⟩

def size (n : Nat) : Nat := n.log2 + 1

def toWord (x : Binary) : Binary := x.drop (size x.significand - 64)

/-- The nearest double: 53 leading binary digits, and none below the smallest of its units. -/
def toDouble (x : Binary) : Binary :=
  x.drop (max (size x.significand - 53) (-1074 - x.exponent).toNat)

def mul (x y : Binary) : Binary :=
  toWord ⟨x.significand * y.significand, x.exponent + y.exponent⟩

/-- The word nearest to one part of a power of ten. -/
def partOfTen (power : Nat) : Binary :=
  let shift := 63 + size (Text.tenTo power)
  ⟨roundDiv (1 <<< shift) (Text.tenTo power), -shift⟩

def times (x y : Binary) : Nat → Binary
  | 0 => x
  | n + 1 => (x.mul y).times y n

/-- Divides by a power of ten: first by hundreds of tens, then by tens of tens, then by tens. -/
def lower (x : Binary) (power : Nat) : Binary :=
  ((x.times (partOfTen 100) (power / 100)).times (partOfTen 10) (power % 100 / 10)).times
    (partOfTen 1) (power % 10)

def integer? (x : Binary) : Option Nat :=
  match x.exponent with
  | .ofNat k => some (x.significand <<< k)
  | .negSucc k =>
    let unit := 1 <<< (k + 1)
    if x.significand % unit = 0 then some (x.significand / unit) else none

/-- The most that leaves room in a word for one more digit. -/
def room : Nat := 1844674407370955160

/-- The number that leading digits make, as many as fit a word, and how many these are. -/
def leading (n count : Nat) : List Char → Nat × Nat
  | [] => (n, count)
  | d :: ds =>
    if n < room then leading (10 * n + Text.digitValue d) (count + 1) ds else (n, count)

/-- Moves tens from a power into a number as long as it fits a word. -/
def raise (n : Nat) : Nat → Nat × Nat
  | 0 => (n, 0)
  | power + 1 => if n ≤ room then raise (10 * n) power else (n, power + 1)

def cancel (n : Nat) : Nat → Nat × Nat
  | 0 => (n, 0)
  | power + 1 => if n % 10 = 0 then cancel (n / 10) power else (n, power + 1)

/-- The integer that a number times a power of ten is as a double, if it is one of less than 64
binary digits. -/
def scaled? (n : Nat) : Int → Option Nat
  | .ofNat power =>
    match raise n power with
    | (n, 0) => (toDouble ⟨n, 0⟩).integer?
    | _ => none
  | .negSucc power =>
    let (n, power) := cancel n (power + 1)
    (toDouble (lower ⟨n, 0⟩ power)).integer?

/-- The integer that digits with a point behind the first so many, times a power of ten, are as a
double. -/
def ofDigits? (digits : List Char) (whole : Nat) (power : Int) : Option Nat :=
  let (n, count) := leading 0 0 digits
  if n = 0 then some 0 else scaled? n (power + whole - count)

end Binary
end Precedence

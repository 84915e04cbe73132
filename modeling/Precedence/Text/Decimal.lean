/-! Decimal numerals: writing a number without leading zeros or in a fixed number of digits, and
reading the value of a run of digits. Reading a numeral gives back the number it was written for. -/
namespace Precedence.Text

def digit (n : Nat) : Char := Char.ofNat (48 + n % 10)

def isDigit (c : Char) : Bool := 48 ≤ c.toNat && c.toNat ≤ 57

def digitValue (c : Char) : Nat := c.toNat - 48

def decimal (n : Nat) : List Char :=
  if n < 10 then [digit n] else decimal (n / 10) ++ [digit (n % 10)]

/-- The last digits of a number, as many as asked for. -/
def fixed : Nat → Nat → List Char
  | 0, _ => []
  | places + 1, n => fixed places (n / 10) ++ [digit (n % 10)]

def tenTo : Nat → Nat
  | 0 => 1
  | n + 1 => 10 * tenTo n

def value (ds : List Char) : Nat := ds.foldl (fun n d => 10 * n + digitValue d) 0

/-- Splits the leading digits, at most so many, off a text. -/
def spanDigits : Nat → List Char → List Char × List Char
  | 0, cs => ([], cs)
  | _, [] => ([], [])
  | most + 1, c :: cs =>
    if isDigit c then ((spanDigits most cs).map (c :: ·) id) else ([], c :: cs)

private theorem digit_all : ∀ n, n < 10 → isDigit (digit n) ∧ digitValue (digit n) = n := by decide

@[simp] theorem isDigit_digit (n : Nat) : isDigit (digit n) := by
  have h := (digit_all (n % 10) (Nat.mod_lt _ (by decide))).1
  simpa [digit] using h

@[simp] theorem digitValue_digit (n : Nat) : digitValue (digit n) = n % 10 := by
  have h := (digit_all (n % 10) (Nat.mod_lt _ (by decide))).2
  simpa [digit] using h

@[simp] theorem value_concat (ds : List Char) (d : Char) :
    value (ds ++ [d]) = 10 * value ds + digitValue d := by
  simp [value]

@[simp] theorem value_decimal (n : Nat) : value (decimal n) = n := by
  induction n using decimal.induct with
  | case1 n h =>
    rw [decimal, if_pos h]
    simp [value]
    omega
  | case2 n h ih =>
    rw [decimal, if_neg h, value_concat, ih, digitValue_digit]
    omega

theorem isDigit_of_mem_decimal (n : Nat) : ∀ c ∈ decimal n, isDigit c := by
  induction n using decimal.induct with
  | case1 n h =>
    rw [decimal, if_pos h]
    simp
  | case2 n h ih =>
    rw [decimal, if_neg h]
    intro c hc
    rcases List.mem_append.1 hc with hc | hc
    · exact ih c hc
    · rw [List.mem_singleton.1 hc]
      exact isDigit_digit _

theorem decimal_ne_nil (n : Nat) : decimal n ≠ [] := by
  rw [decimal]
  split <;> simp

@[simp] theorem length_fixed (places n : Nat) : (fixed places n).length = places := by
  induction places generalizing n with
  | zero => rfl
  | succ places ih => simp [fixed, ih]

theorem isDigit_of_mem_fixed (places n : Nat) : ∀ c ∈ fixed places n, isDigit c := by
  induction places generalizing n with
  | zero => simp [fixed]
  | succ places ih =>
    intro c hc
    rcases List.mem_append.1 hc with hc | hc
    · exact ih _ c hc
    · rw [List.mem_singleton.1 hc]
      exact isDigit_digit _

@[simp] theorem value_fixed (places n : Nat) : value (fixed places n) = n % tenTo places := by
  induction places generalizing n with
  | zero => simp [fixed, value, tenTo, Nat.mod_one]
  | succ places ih =>
    rw [fixed, value_concat, ih, digitValue_digit, tenTo, Nat.mod_mul]
    omega

def decimalText (n : Nat) : String := String.ofList (decimal n)

def integerText : Int → String
  | .ofNat n => decimalText n
  | .negSucc n => String.ofList ('-' :: decimal (n + 1))

end Precedence.Text

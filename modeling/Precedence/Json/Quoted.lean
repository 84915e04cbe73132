import Precedence.Digest
/-!
JSON strings: writing a text between quotation marks and reading it back. Quotation marks,
backslashes and control characters are escaped; all other characters stand for themselves.
-/
namespace Precedence.Json

def escape (c : Char) : List Char :=
  if c = '"' then ['\\', '"']
  else if c = '\\' then ['\\', '\\']
  else if c = '\n' then ['\\', 'n']
  else if c = '\t' then ['\\', 't']
  else if c = '\r' then ['\\', 'r']
  else if c = '\x08' then ['\\', 'b']
  else if c = '\x0c' then ['\\', 'f']
  else if c.toNat < 32 then ['\\', 'u', '0', '0', hexDigit (c.toNat / 16), hexDigit c.toNat]
  else [c]

def quotedBody (cs : List Char) : List Char := cs.flatMap escape ++ ['"']

def quoted (s : String) : List Char := '"' :: quotedBody s.toList

def hexValue? (c : Char) : Option Nat :=
  if 48 ≤ c.toNat ∧ c.toNat ≤ 57 then some (c.toNat - 48)
  else if 97 ≤ c.toNat ∧ c.toNat ≤ 102 then some (c.toNat - 87)
  else if 65 ≤ c.toNat ∧ c.toNat ≤ 70 then some (c.toNat - 55)
  else none

def hexUnit? (a b c d : Char) : Option Nat := do
  let a ← hexValue? a
  let b ← hexValue? b
  let c ← hexValue? c
  let d ← hexValue? d
  some (((a * 16 + b) * 16 + c) * 16 + d)

/-- The character that a letter after a backslash stands for, other than `u`. -/
def shortEscape? : Char → Option Char
  | '"' => some '"'
  | '\\' => some '\\'
  | '/' => some '/'
  | 'b' => some '\x08'
  | 'f' => some '\x0c'
  | 'n' => some '\n'
  | 'r' => some '\r'
  | 't' => some '\t'
  | _ => none

/-- A unit of sixteen bits that is a character by itself. -/
def single? (unit : Nat) : Option Char :=
  if 0xD800 ≤ unit ∧ unit ≤ 0xDFFF then none else some (Char.ofNat unit)

/-- Two units of sixteen bits that are one character together. -/
def paired? (high low : Nat) : Option Char :=
  if 0xD800 ≤ high ∧ high ≤ 0xDBFF ∧ 0xDC00 ≤ low ∧ low ≤ 0xDFFF then
    some (Char.ofNat (0x10000 + (high - 0xD800) * 0x400 + (low - 0xDC00)))
  else none

def push (c : Char) : Option (List Char × List Char) → Option (List Char × List Char) :=
  Option.map fun (s, rest) => (c :: s, rest)

/-- Reads a string from after its opening mark, up to and with its closing mark. -/
def readBody : List Char → Option (List Char × List Char)
  | [] => none
  | '"' :: cs => some ([], cs)
  | '\\' :: 'u' :: a :: b :: c :: d :: cs =>
    match (hexUnit? a b c d).bind single? with
    | some ch => push ch (readBody cs)
    | none =>
      match cs with
      | '\\' :: 'u' :: a' :: b' :: c' :: d' :: cs =>
        match (hexUnit? a b c d).bind fun high => (hexUnit? a' b' c' d').bind (paired? high) with
        | some ch => push ch (readBody cs)
        | none => none
      | _ => none
  | '\\' :: c :: cs =>
    match shortEscape? c with
    | some ch => push ch (readBody cs)
    | none => none
  | c :: cs => if c = '\\' ∨ c.toNat < 32 then none else push c (readBody cs)

def readQuoted? : List Char → Option (String × List Char)
  | '"' :: cs => (readBody cs).map fun (s, rest) => (String.ofList s, rest)
  | _ => none

private theorem hexUnit?_control : ∀ n, n < 32 →
    (hexUnit? '0' '0' (hexDigit (n / 16)) (hexDigit n)).bind single? = some (Char.ofNat n) := by
  decide

theorem readBody_short {letter c : Char} (short : shortEscape? letter = some c)
    (cs : List Char) : readBody ('\\' :: letter :: cs) = push c (readBody cs) := by
  have notU : letter ≠ 'u' := by
    rintro rfl
    cases short
  rw [readBody.eq_5 _ _ fun _ _ _ _ _ e => absurd e notU, short]

theorem readBody_unit {a b c d ch : Char} (unit : (hexUnit? a b c d).bind single? = some ch)
    (cs : List Char) :
    readBody ('\\' :: 'u' :: a :: b :: c :: d :: cs) = push ch (readBody cs) := by
  rw [readBody.eq_def]
  simp only [unit]

theorem readBody_plain {c : Char} (quote : c ≠ '"') (backslash : c ≠ '\\')
    (printable : ¬ c.toNat < 32) (cs : List Char) : readBody (c :: cs) = push c (readBody cs) := by
  rw [readBody.eq_6 _ _ quote (fun _ _ _ _ _ e => absurd e backslash)
      fun _ _ e => absurd e backslash,
    if_neg (not_or.2 ⟨backslash, printable⟩)]

theorem readBody_escape (c : Char) (cs : List Char) :
    readBody (escape c ++ cs) = push c (readBody cs) := by
  unfold escape
  iterate 7
    split
    · next short =>
      rw [short]
      exact readBody_short (by rfl) cs
  split
  · next control =>
    have unit := hexUnit?_control c.toNat control
    rw [Char.ofNat_toNat] at unit
    exact readBody_unit unit cs
  · next quote backslash _ _ _ _ _ printable =>
    exact readBody_plain quote backslash printable cs

@[simp] theorem readBody_quotedBody (s rest : List Char) :
    readBody (quotedBody s ++ rest) = some (s, rest) := by
  induction s with
  | nil => simp [quotedBody, readBody]
  | cons c s ih =>
    have h : quotedBody (c :: s) ++ rest = escape c ++ (quotedBody s ++ rest) := by
      simp [quotedBody]
    rw [h, readBody_escape, ih]
    rfl

/-- A string is read back from what is written for it. -/
@[simp] theorem readQuoted?_quoted (s : String) (rest : List Char) :
    readQuoted? (quoted s ++ rest) = some (s, rest) := by
  simp [readQuoted?, quoted]

end Precedence.Json

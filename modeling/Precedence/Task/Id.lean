import Precedence.Digest
import Precedence.Text.Blank
import Precedence.Text.Decimal
import Precedence.Time.Instant
/-! Identifiers of tasks: opaque short texts over a small set of characters. -/
namespace Precedence

namespace TaskId

def maxLength : Nat := 128

def isLetter (c : Char) : Bool :=
  (65 ≤ c.toNat && c.toNat ≤ 90) || (97 ≤ c.toNat && c.toNat ≤ 122)

/-- ASCII letters and digits, and four punctuation marks. -/
def isIdChar (c : Char) : Bool :=
  isLetter c || Text.isDigit c || c == '.' || c == '_' || c == ':' || c == '-'

structure Allowed (s : String) : Prop where
  ne_empty : s.toList ≠ []
  size_le : s.utf8ByteSize ≤ maxLength
  isIdChar_of_mem : ∀ c ∈ s.toList, isIdChar c

end TaskId

structure TaskId where
  text : String
  allowed : TaskId.Allowed text

namespace TaskId

@[ext] theorem ext {a b : TaskId} (h : a.text = b.text) : a = b := by
  cases a; cases b; cases h; rfl

instance : DecidableEq TaskId := fun a b =>
  decidable_of_iff (a.text = b.text) ⟨ext, fun h => h ▸ rfl⟩

instance : Repr TaskId := ⟨fun id n => reprPrec id.text n⟩

/-- Why a text is no identifier. The text is the trimmed one. -/
inductive Fault where
  | empty
  | tooLong (text : String)
  | invalidCharacter (text : String)
  deriving DecidableEq, Repr

def Fault.message : Fault → String
  | .empty => "Task ID must not be empty"
  | .tooLong s => "Task ID is longer than 128 characters: '" ++ s ++ "'"
  | .invalidCharacter s =>
    "Invalid task ID '" ++ s ++ "': only letters, digits, '.', '_', ':' and '-' are allowed"

/-- The identifier that a text stands for, blanks around it aside. Length is measured in bytes and
before the characters are looked at. -/
def parse (raw : String) : Except Fault TaskId :=
  let s := Text.trim raw
  if h₁ : s.toList = [] then .error .empty
  else if h₂ : s.utf8ByteSize ≤ maxLength then
    if h₃ : s.toList.all isIdChar then .ok ⟨s, h₁, h₂, List.all_eq_true.1 h₃⟩
    else .error (.invalidCharacter s)
  else .error (.tooLong s)

/-- Identifiers are ordered as their texts are, byte by byte. -/
def compare (a b : TaskId) : Ordering := Ord.compare a.text b.text

private theorem blank_toNat {c : Char} (h : Text.isBlank c) :
    c.toNat ≤ 0x20 ∨ 0x85 ≤ c.toNat := by
  simp only [Text.isBlank, Bool.or_eq_true, Bool.and_eq_true, decide_eq_true_eq, beq_iff_eq] at h
  omega

private theorem idChar_toNat {c : Char} (h : isIdChar c) : 0x20 < c.toNat ∧ c.toNat < 0x80 := by
  simp only [isIdChar, isLetter, Text.isDigit, Bool.or_eq_true, Bool.and_eq_true, decide_eq_true_eq,
    beq_iff_eq] at h
  rcases h with ((((h | h) | h) | h) | h) | h
  · omega
  · omega
  all_goals subst h; decide

/-- An identifier is its own trimming, so its text stands for it. -/
@[simp] theorem parse_text (id : TaskId) : parse id.text = .ok id := by
  have h : Text.trim id.text = id.text := Text.trim_eq_self fun c hc => by
    have h := idChar_toNat (id.allowed.isIdChar_of_mem c hc)
    cases hb : Text.isBlank c with
    | false => rfl
    | true => have := blank_toNat hb; omega
  unfold parse
  simp only [h]
  rw [dif_neg id.allowed.ne_empty, dif_pos id.allowed.size_le,
    dif_pos (List.all_eq_true.2 id.allowed.isIdChar_of_mem)]

def isHexDigit (c : Char) : Bool :=
  Text.isDigit c || (97 ≤ c.toNat && c.toNat ≤ 102) || (65 ≤ c.toNat && c.toNat ≤ 70)

/-- Whether an identifier has the form of those made here: `t-` and seven hexadecimal digits. -/
def isGenerated (id : TaskId) : Bool :=
  match id.text.toList with
  | 't' :: '-' :: ds => ds.length == 7 && ds.all isHexDigit
  | _ => false

private theorem isIdChar_hexDigit (n : Nat) : isIdChar (hexDigit n) := by
  have all : ∀ m, m < 16 → isIdChar (hexDigit m) := by decide
  have h := all (n % 16) (Nat.mod_lt _ (by decide))
  simpa [hexDigit] using h

private theorem isIdChar_of_mem_hexDigits {b : Bytes} {c : Char} (h : c ∈ hexDigits b) :
    isIdChar c := by
  simp only [hexDigits, List.mem_flatMap, List.mem_cons, List.not_mem_nil, or_false] at h
  obtain ⟨_, _, rfl | rfl⟩ := h <;> exact isIdChar_hexDigit _

private theorem size_of_idChars {cs : List Char} (h : ∀ c ∈ cs, isIdChar c) :
    (String.ofList cs).utf8ByteSize = cs.length := by
  induction cs with
  | nil => rfl
  | cons c cs ih =>
    have hc := idChar_toNat (h c (by simp))
    have h₁ : c.utf8Size = 1 := by
      rw [Char.utf8Size_eq_one_iff, UInt32.le_iff_toNat_le]
      have : c.toNat = c.val.toNat := rfl
      simp
      omega
    rw [String.ofList_cons, String.utf8ByteSize_append, String.utf8ByteSize_singleton, h₁,
      ih fun d hd => h d (by simp [hd]), List.length_cons, Nat.add_comm]

/-- The identifier made for a task described at a moment: the first digits of the digest of the
description followed by the moment in nanoseconds, or by zero where those do not fit a word. -/
def generate (description : String) (now : Instant) : TaskId :=
  let nanos := Text.integerText (now.epochNanos?.getD 0)
  let digits := (hexDigits (digest (Bytes.ofText (description ++ nanos)))).take 7
  have h : ∀ c ∈ 't' :: '-' :: digits, isIdChar c := by
    intro c hc
    rcases List.mem_cons.1 hc with rfl | hc
    · decide
    rcases List.mem_cons.1 hc with rfl | hc
    · decide
    · exact isIdChar_of_mem_hexDigits (List.mem_of_mem_take hc)
  { text := String.ofList ('t' :: '-' :: digits)
    allowed :=
      { ne_empty := by simp
        size_le := by
          rw [size_of_idChars h]
          have : digits.length ≤ 7 := List.length_take_le _ _
          simp only [List.length_cons, maxLength]
          omega
        isIdChar_of_mem := by simpa only [String.toList_ofList] using h } }

end TaskId
end Precedence

/-! Words of 64 bits: which integers fit a signed one and which an unsigned one. -/
namespace Precedence.Word

/-- Half the number of words: signed words begin that far below zero and end before it. -/
def half : Nat := 9223372036854775808

def IsSigned (n : Int) : Prop := -half ≤ n ∧ n < half

def IsUnsigned (n : Int) : Prop := 0 ≤ n ∧ n < UInt64.size

instance (n : Int) : Decidable (IsSigned n) := inferInstanceAs (Decidable (_ ∧ _))

instance (n : Int) : Decidable (IsUnsigned n) := inferInstanceAs (Decidable (_ ∧ _))

end Precedence.Word

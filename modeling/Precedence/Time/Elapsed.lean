import Precedence.Text.Decimal
/-! Times elapsed, in nanoseconds, written in the greatest unit that they reach, with the fraction
cut after its last digit that is not zero. -/
namespace Precedence.Elapsed

/-- The digits of a fraction with so many places, without the zeros at its end. -/
def fraction (places n : Nat) : List Char :=
  match ((Text.fixed places n).reverse.dropWhile (· == '0')).reverse with
  | [] => []
  | ds => '.' :: ds

def inUnit (places n : Nat) (name : String) : String :=
  let size := Text.tenTo places
  String.ofList (Text.decimal (n / size) ++ fraction places (n % size)) ++ name

def text (nanos : Nat) : String :=
  if Text.tenTo 9 ≤ nanos then inUnit 9 nanos "s"
  else if Text.tenTo 6 ≤ nanos then inUnit 6 nanos "ms"
  else if Text.tenTo 3 ≤ nanos then inUnit 3 nanos "µs"
  else inUnit 0 nanos "ns"

def milliseconds (nanos : Nat) : Nat := nanos / Text.tenTo 6

end Precedence.Elapsed

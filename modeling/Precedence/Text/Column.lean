/-! Text laid out in columns of a fixed width, measured in characters. -/
namespace Precedence.Text

inductive Side
  | left
  | right
  | centre
  deriving DecidableEq, Repr

/-- Fills text up to a width; in the centre the smaller half of the filling goes to the left. -/
def fill (side : Side) (width : Nat) (c : Char) (s : String) : String :=
  let room := width - s.length
  let before := match side with
    | .left => 0
    | .right => room
    | .centre => room / 2
  String.ofList (List.replicate before c ++ s.toList ++ List.replicate (room - before) c)

def padLeft (width : Nat) (s : String) : String := fill .left width ' ' s

def padRight (width : Nat) (s : String) : String := fill .right width ' ' s

def first (n : Nat) (s : String) : String := String.ofList (s.toList.take n)

def rule (n : Nat) (c : Char) : String := String.ofList (List.replicate n c)

def block (lines : List String) : String := String.join (lines.map (· ++ "\n"))

theorem fill_of_length_ge {side : Side} {width : Nat} {c : Char} {s : String}
    (h : width ≤ s.length) : fill side width c s = s := by
  cases side <;> simp [fill, Nat.sub_eq_zero_of_le h]

end Precedence.Text

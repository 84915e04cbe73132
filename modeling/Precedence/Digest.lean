import Precedence.Bytes
/-!
The BLAKE3 digest of a run of bytes, in 32 bytes, and its hexadecimal text. Chunks of 1024 bytes are
compressed block by block into chaining values, which are joined in pairs, level by level; an odd
one rises to the next level unchanged. The last node is compressed once more with the root flag.
-/
namespace Precedence
namespace Digest

/-- Eight words that carry the state from one compression to the next. -/
abbrev Chaining := Vector UInt32 8

/-- Sixteen words: a message block, or the state of a compression. -/
abbrev Block := Vector UInt32 16

def start : Chaining :=
  #v[0x6A09E667, 0xBB67AE85, 0x3C6EF372, 0xA54FF53A, 0x510E527F, 0x9B05688C, 0x1F83D9AB, 0x5BE0CD19]

/-- Where each message word comes from in the next round. -/
def permutation : Vector (Fin 16) 16 := #v[2, 6, 3, 10, 7, 0, 4, 13, 1, 11, 12, 5, 9, 14, 15, 8]

/-- The message words of the next round are those of this one in another order. -/
theorem permutation_perm : permutation.toList.Perm (List.finRange 16) := by decide

structure Flags where
  chunkStart : Bool := false
  chunkEnd : Bool := false
  parent : Bool := false
  root : Bool := false

def Flags.word (f : Flags) : UInt32 :=
  (if f.chunkStart then 1 else 0) + (if f.chunkEnd then 2 else 0) + (if f.parent then 4 else 0) +
    (if f.root then 8 else 0)

def rotateRight (w : UInt32) (n : UInt32) : UInt32 := (w >>> n) ||| (w <<< (32 - n))

def mix (s : Block) (a b c d : Fin 16) (x y : UInt32) : Block :=
  let s := s.set a (s[a] + s[b] + x)
  let s := s.set d (rotateRight (s[d] ^^^ s[a]) 16)
  let s := s.set c (s[c] + s[d])
  let s := s.set b (rotateRight (s[b] ^^^ s[c]) 12)
  let s := s.set a (s[a] + s[b] + y)
  let s := s.set d (rotateRight (s[d] ^^^ s[a]) 8)
  let s := s.set c (s[c] + s[d])
  s.set b (rotateRight (s[b] ^^^ s[c]) 7)

/-- One round: the columns of the state, then its diagonals. -/
def round (s m : Block) : Block :=
  let s := mix s 0 4 8 12 m[0] m[1]
  let s := mix s 1 5 9 13 m[2] m[3]
  let s := mix s 2 6 10 14 m[4] m[5]
  let s := mix s 3 7 11 15 m[6] m[7]
  let s := mix s 0 5 10 15 m[8] m[9]
  let s := mix s 1 6 11 12 m[10] m[11]
  let s := mix s 2 7 8 13 m[12] m[13]
  mix s 3 4 9 14 m[14] m[15]

def rounds : Nat → Block → Block → Block
  | 0, s, _ => s
  | n + 1, s, m => rounds n (round s m) (permutation.map (m[·]))

/-- One compression still to be made. -/
structure Node where
  chaining : Chaining
  block : Block
  counter : UInt64
  length : UInt32
  flags : Flags

def Node.compress (n : Node) (flags : Flags) : Chaining :=
  let input := n.chaining
  let s : Block := #v[
    input[0], input[1], input[2], input[3], input[4], input[5], input[6], input[7],
    start[0], start[1], start[2], start[3],
    n.counter.toUInt32, (n.counter >>> 32).toUInt32, n.length, flags.word]
  let s := rounds 7 s n.block
  Vector.ofFn fun i : Fin 8 => s[i.val] ^^^ s[i.val + 8]

def Node.value (n : Node) : Chaining := n.compress n.flags

def Node.above (l r : Node) : Node where
  chaining := start
  block := l.value ++ r.value
  counter := 0
  length := 64
  flags := { parent := true }

/-- Four bytes as a word, the lowest first. -/
def word (b : Bytes) (i : Nat) : UInt32 :=
  let byte (k : Nat) : UInt32 := (b[4 * i + k]?.getD 0).toUInt32
  byte 0 ||| (byte 1 <<< 8) ||| (byte 2 <<< 16) ||| (byte 3 <<< 24)

def blockOf (b : Bytes) : Block := Vector.ofFn fun i => word b i

/-- The blocks of a chunk, compressed in turn up to the last, which is left as a node. -/
def chunkFrom (counter : UInt64) : Nat → Bool → Chaining → Bytes → Node
  | 0, isFirst, c, b => ⟨c, blockOf b, counter, b.length.toUInt32, ⟨isFirst, true, false, false⟩⟩
  | more + 1, isFirst, c, b =>
    if b.length ≤ 64 then
      ⟨c, blockOf b, counter, b.length.toUInt32, ⟨isFirst, true, false, false⟩⟩
    else
      let n : Node := ⟨c, blockOf (b.take 64), counter, 64, ⟨isFirst, false, false, false⟩⟩
      chunkFrom counter more false n.value (b.drop 64)

def chunk (counter : UInt64) (b : Bytes) : Node := chunkFrom counter 15 true start b

/-- The nodes of the chunks in order; no bytes at all are one empty chunk. -/
def chunks : Nat → UInt64 → Bytes → List Node
  | 0, _, _ => []
  | more + 1, counter, b =>
    chunk counter (b.take 1024) ::
      match b.drop 1024 with
      | [] => []
      | rest => chunks more (counter + 1) rest

def pair : List Node → List Node
  | l :: r :: rest => l.above r :: pair rest
  | rest => rest

def join : Nat → List Node → Option Node
  | _, [] => none
  | _, [n] => some n
  | 0, _ => none
  | levels + 1, ns => join levels (pair ns)

def wordBytes (w : UInt32) : Bytes :=
  [w.toUInt8, (w >>> 8).toUInt8, (w >>> 16).toUInt8, (w >>> 24).toUInt8]

end Digest

/-- The BLAKE3 digest of some bytes. -/
def digest (b : Bytes) : Bytes :=
  let nodes := Digest.chunks (b.length / 1024 + 1) 0 b
  match Digest.join nodes.length nodes with
  | some n => (n.compress { n.flags with root := true }).toList.flatMap Digest.wordBytes
  | none => []

def hexDigit (n : Nat) : Char :=
  if n % 16 < 10 then Char.ofNat (48 + n % 16) else Char.ofNat (87 + n % 16)

def hexDigits (b : Bytes) : List Char :=
  b.flatMap fun x => [hexDigit (x.toNat / 16), hexDigit x.toNat]

def hex (b : Bytes) : String := String.ofList (hexDigits b)

end Precedence

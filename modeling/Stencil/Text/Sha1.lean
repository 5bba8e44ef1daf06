import Stencil.Text.Quoted

/-!
# SHA-1

The digest of a row of bytes is five words of 32 bits. The bytes are filled up to whole blocks of
sixteen words: with a single bit, with zeros, and with the number of bits there were. Each block is
spread over eighty words, which are mixed into the state one after the other, and what comes out is
added to the state that the block has found.

What is shown of a digest is its hexadecimal digits, always forty of them.
-/

namespace Stencil
namespace Sha1

/-- The five words of a state. -/
structure State where
  a : UInt32
  b : UInt32
  c : UInt32
  d : UInt32
  e : UInt32
  deriving DecidableEq, Repr

/-- The state before the first block. -/
def State.initial : State := ⟨0x67452301, 0xEFCDAB89, 0x98BADCFE, 0x10325476, 0xC3D2E1F0⟩

/-- The word by word sum of two states. -/
def State.add (s t : State) : State := ⟨s.a + t.a, s.b + t.b, s.c + t.c, s.d + t.d, s.e + t.e⟩

/-- A word turned to the left. -/
def turned (places w : UInt32) : UInt32 := (w <<< places) ||| (w >>> (32 - places))

/-- The last `width` bytes of a number, most significant first. -/
def bigEndian : Nat → Nat → List UInt8
  | 0, _ => []
  | width + 1, n => bigEndian width (n / 256) ++ [UInt8.ofNat (n % 256)]

/-- Bytes filled up to whole blocks. -/
def filled (bytes : List UInt8) : List UInt8 :=
  let zeros := List.replicate ((119 - bytes.length % 64) % 64) 0
  bytes ++ 0x80 :: (zeros ++ bigEndian 8 (8 * bytes.length))

/-- Bytes, four to a word. -/
def words : List UInt8 → List UInt32
  | a :: b :: c :: d :: rest =>
    UInt32.ofNat (((a.toNat * 256 + b.toNat) * 256 + c.toNat) * 256 + d.toNat) :: words rest
  | _ => []

/-- A row of words, the newest first, with so many further ones. -/
def spreadFrom : Nat → List UInt32 → List UInt32
  | 0, row => row
  | n + 1, row =>
    let next := row.getD 2 0 ^^^ row.getD 7 0 ^^^ row.getD 13 0 ^^^ row.getD 15 0
    spreadFrom n (turned 1 next :: row)

/-- The eighty words of a block. -/
def spread (block : List UInt32) : List UInt32 := (spreadFrom 64 block.reverse).reverse

/-- What the middle words of a state come to in a round, and the constant of the round. -/
def mixed (round : Nat) (s : State) : UInt32 × UInt32 :=
  if round < 20 then ((s.b &&& s.c) ||| (~~~s.b &&& s.d), 0x5A827999)
  else if round < 40 then (s.b ^^^ s.c ^^^ s.d, 0x6ED9EBA1)
  else if round < 60 then ((s.b &&& s.c) ||| (s.b &&& s.d) ||| (s.c &&& s.d), 0x8F1BBCDC)
  else (s.b ^^^ s.c ^^^ s.d, 0xCA62C1D6)

/-- One round: a word is mixed into the state. -/
def round (s : State) (w : UInt32 × Nat) : State :=
  let (middle, constant) := mixed w.2 s
  ⟨turned 5 s.a + middle + s.e + constant + w.1, s.a, turned 30 s.b, s.c, s.d⟩

/-- A block is mixed into the state. -/
def absorb (s : State) (block : List UInt32) : State :=
  s.add ((spread block).zipIdx.foldl round s)

/-- So many blocks are mixed into the state. -/
def absorbAll : Nat → State → List UInt32 → State
  | 0, s, _ => s
  | n + 1, s, row => absorbAll n (absorb s (row.take 16)) (row.drop 16)

/-- The digest of bytes. -/
def digest (bytes : List UInt8) : State :=
  let row := words (filled bytes)
  absorbAll (row.length / 16) .initial row

/-- The hexadecimal digits of a digest. -/
def State.hexadecimal (s : State) : Text :=
  [s.a, s.b, s.c, s.d, s.e].flatMap fun w => Text.hexadecimal 8 w.toNat

example : (digest [0x61, 0x62, 0x63]).hexadecimal =
    "a9993e364706816aba3e25717850c26c9cd0d89d".toList := by
  decide +kernel

end Sha1
end Stencil

import Enclaves.Bytes
/-!
# SHA3-512

The permutation Keccak-f[1600] on twenty-five 64-bit lanes, and the sponge on top of it with a rate
of 72 bytes, the domain bits `01` and 64 bytes of output.

A lane is named by its coordinates, `x` then `y`. The state is one flat record, so that a round
builds one record and no intermediate ones; images of some megabytes pass through here.
-/

namespace Enclaves.Sha3

/-- The state: lane `lXY` is lane (X, Y) of the standard. -/
structure Lanes where
  l00 : UInt64
  l10 : UInt64
  l20 : UInt64
  l30 : UInt64
  l40 : UInt64
  l01 : UInt64
  l11 : UInt64
  l21 : UInt64
  l31 : UInt64
  l41 : UInt64
  l02 : UInt64
  l12 : UInt64
  l22 : UInt64
  l32 : UInt64
  l42 : UInt64
  l03 : UInt64
  l13 : UInt64
  l23 : UInt64
  l33 : UInt64
  l43 : UInt64
  l04 : UInt64
  l14 : UInt64
  l24 : UInt64
  l34 : UInt64
  l44 : UInt64

def Lanes.zero : Lanes :=
  ⟨0, 0, 0, 0, 0, 0, 0, 0, 0, 0, 0, 0, 0, 0, 0, 0, 0, 0, 0, 0, 0, 0, 0, 0, 0⟩

/-- Rotation towards the high end by `0 < n < 64`. -/
@[inline] def rotate (w n : UInt64) : UInt64 := (w <<< n) ||| (w >>> (64 - n))

/-- One round: θ mixes columns, ρ rotates each lane, π moves it, χ combines along rows, and ι adds
the round constant. `bXY` is lane (X, Y) after ρ and π. -/
@[inline] def Lanes.round (s : Lanes) (constant : UInt64) : Lanes :=
  let c0 := s.l00 ^^^ s.l01 ^^^ s.l02 ^^^ s.l03 ^^^ s.l04
  let c1 := s.l10 ^^^ s.l11 ^^^ s.l12 ^^^ s.l13 ^^^ s.l14
  let c2 := s.l20 ^^^ s.l21 ^^^ s.l22 ^^^ s.l23 ^^^ s.l24
  let c3 := s.l30 ^^^ s.l31 ^^^ s.l32 ^^^ s.l33 ^^^ s.l34
  let c4 := s.l40 ^^^ s.l41 ^^^ s.l42 ^^^ s.l43 ^^^ s.l44
  let d0 := c4 ^^^ rotate c1 1
  let d1 := c0 ^^^ rotate c2 1
  let d2 := c1 ^^^ rotate c3 1
  let d3 := c2 ^^^ rotate c4 1
  let d4 := c3 ^^^ rotate c0 1
  let b00 := s.l00 ^^^ d0
  let b10 := rotate (s.l11 ^^^ d1) 44
  let b20 := rotate (s.l22 ^^^ d2) 43
  let b30 := rotate (s.l33 ^^^ d3) 21
  let b40 := rotate (s.l44 ^^^ d4) 14
  let b01 := rotate (s.l30 ^^^ d3) 28
  let b11 := rotate (s.l41 ^^^ d4) 20
  let b21 := rotate (s.l02 ^^^ d0) 3
  let b31 := rotate (s.l13 ^^^ d1) 45
  let b41 := rotate (s.l24 ^^^ d2) 61
  let b02 := rotate (s.l10 ^^^ d1) 1
  let b12 := rotate (s.l21 ^^^ d2) 6
  let b22 := rotate (s.l32 ^^^ d3) 25
  let b32 := rotate (s.l43 ^^^ d4) 8
  let b42 := rotate (s.l04 ^^^ d0) 18
  let b03 := rotate (s.l40 ^^^ d4) 27
  let b13 := rotate (s.l01 ^^^ d0) 36
  let b23 := rotate (s.l12 ^^^ d1) 10
  let b33 := rotate (s.l23 ^^^ d2) 15
  let b43 := rotate (s.l34 ^^^ d3) 56
  let b04 := rotate (s.l20 ^^^ d2) 62
  let b14 := rotate (s.l31 ^^^ d3) 55
  let b24 := rotate (s.l42 ^^^ d4) 39
  let b34 := rotate (s.l03 ^^^ d0) 41
  let b44 := rotate (s.l14 ^^^ d1) 2
  { l00 := b00 ^^^ (~~~ b10 &&& b20) ^^^ constant
    l10 := b10 ^^^ (~~~ b20 &&& b30)
    l20 := b20 ^^^ (~~~ b30 &&& b40)
    l30 := b30 ^^^ (~~~ b40 &&& b00)
    l40 := b40 ^^^ (~~~ b00 &&& b10)
    l01 := b01 ^^^ (~~~ b11 &&& b21)
    l11 := b11 ^^^ (~~~ b21 &&& b31)
    l21 := b21 ^^^ (~~~ b31 &&& b41)
    l31 := b31 ^^^ (~~~ b41 &&& b01)
    l41 := b41 ^^^ (~~~ b01 &&& b11)
    l02 := b02 ^^^ (~~~ b12 &&& b22)
    l12 := b12 ^^^ (~~~ b22 &&& b32)
    l22 := b22 ^^^ (~~~ b32 &&& b42)
    l32 := b32 ^^^ (~~~ b42 &&& b02)
    l42 := b42 ^^^ (~~~ b02 &&& b12)
    l03 := b03 ^^^ (~~~ b13 &&& b23)
    l13 := b13 ^^^ (~~~ b23 &&& b33)
    l23 := b23 ^^^ (~~~ b33 &&& b43)
    l33 := b33 ^^^ (~~~ b43 &&& b03)
    l43 := b43 ^^^ (~~~ b03 &&& b13)
    l04 := b04 ^^^ (~~~ b14 &&& b24)
    l14 := b14 ^^^ (~~~ b24 &&& b34)
    l24 := b24 ^^^ (~~~ b34 &&& b44)
    l34 := b34 ^^^ (~~~ b44 &&& b04)
    l44 := b44 ^^^ (~~~ b04 &&& b14) }

/-- The constants of the twenty-four rounds. -/
def roundConstants : List UInt64 :=
  [ 0x0000000000000001, 0x0000000000008082, 0x800000000000808a, 0x8000000080008000,
    0x000000000000808b, 0x0000000080000001, 0x8000000080008081, 0x8000000000008009,
    0x000000000000008a, 0x0000000000000088, 0x0000000080008009, 0x000000008000000a,
    0x000000008000808b, 0x800000000000008b, 0x8000000000008089, 0x8000000000008003,
    0x8000000000008002, 0x8000000000000080, 0x000000000000800a, 0x800000008000000a,
    0x8000000080008081, 0x8000000000008080, 0x0000000080000001, 0x8000000080008008 ]

/-- Keccak-f[1600]. -/
def Lanes.permute (s : Lanes) : Lanes := roundConstants.foldl Lanes.round s

/-! ## The sponge -/

/-- Bytes absorbed between two permutations. -/
def rate : Nat := 72

/-- Eight bytes as a word, the lowest first, and the rest. -/
@[inline] def word : Bytes → UInt64 × Bytes
  | b0 :: b1 :: b2 :: b3 :: b4 :: b5 :: b6 :: b7 :: rest =>
    (b0.toUInt64 ||| (b1.toUInt64 <<< 8) ||| (b2.toUInt64 <<< 16) ||| (b3.toUInt64 <<< 24) |||
      (b4.toUInt64 <<< 32) ||| (b5.toUInt64 <<< 40) ||| (b6.toUInt64 <<< 48) |||
      (b7.toUInt64 <<< 56), rest)
  | _ => (0, [])

/-- Absorb `count` blocks of 72 bytes, each added to the first nine lanes before a permutation. -/
def absorb : (count : Nat) → Lanes → Bytes → Lanes
  | 0, s, _ => s
  | count + 1, s, bytes =>
    let (w0, bytes) := word bytes
    let (w1, bytes) := word bytes
    let (w2, bytes) := word bytes
    let (w3, bytes) := word bytes
    let (w4, bytes) := word bytes
    let (w5, bytes) := word bytes
    let (w6, bytes) := word bytes
    let (w7, bytes) := word bytes
    let (w8, bytes) := word bytes
    let s := { s with
      l00 := s.l00 ^^^ w0, l10 := s.l10 ^^^ w1, l20 := s.l20 ^^^ w2, l30 := s.l30 ^^^ w3
      l40 := s.l40 ^^^ w4, l01 := s.l01 ^^^ w5, l11 := s.l11 ^^^ w6, l21 := s.l21 ^^^ w7
      l31 := s.l31 ^^^ w8 }
    absorb count s.permute bytes

/-- The domain bits and the padding `10…01`, which fill the last block: one byte at least. -/
def padding (length : Nat) : Bytes :=
  match rate - 1 - length % rate with
  | 0 => [0x86]
  | free + 1 => 0x06 :: Bytes.zeros free ++ [0x80]

/-- The first 64 bytes of the state. -/
def Lanes.output (s : Lanes) : Bytes :=
  [s.l00, s.l10, s.l20, s.l30, s.l40, s.l01, s.l11, s.l21].flatMap fun lane =>
    Bytes.littleEndian 8 lane.toNat

/-- SHA3-512 of a byte string. -/
def hash (bytes : Bytes) : Block 64 where
  toBytes :=
    (absorb (bytes.length / rate + 1) Lanes.zero (bytes ++ padding bytes.length)).output
  length_eq := by simp [Lanes.output]

end Enclaves.Sha3

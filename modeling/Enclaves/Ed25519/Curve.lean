import Enclaves.Bytes
/-!
# The curve edwards25519

Points of −x² + y² = 1 + d·x²·y² over the field of p = 2²⁵⁵ − 19 elements, in the extended
coordinates (X : Y : Z : T) with x = X/Z, y = Y/Z, x·y = T/Z. The addition law is complete on this
curve, so `add` has no exceptions and doubling is an addition.

Field elements are residues, natural numbers below p. A point is stored as the 32 bytes of y with
the lowest bit of x on top; `decompress?` is lenient where decoders differ: y need not be below p,
and x = 0 may carry either sign.
-/

namespace Enclaves.Ed25519

/-- The order of the field. -/
def p : Nat := (1 <<< 255) - 19

/-- The order of the base point. -/
def order : Nat := (1 <<< 252) + 27742317777372353535851937790883648493

namespace Residue

def add (a b : Nat) : Nat := (a + b) % p
def sub (a b : Nat) : Nat := (a + (p - b)) % p
def mul (a b : Nat) : Nat := a * b % p

/-- Powers by squaring; `width` bounds the bits of the exponent. -/
def pow (a : Nat) : (width e : Nat) → Nat
  | 0, _ => 1
  | width + 1, e =>
    let half := pow a width (e / 2)
    let square := mul half half
    if e % 2 = 1 then mul square a else square

/-- The inverse, by Fermat; zero stays zero. -/
def inv (a : Nat) : Nat := pow a 255 (p - 2)

/-- The curve's constant d = −121665/121666. -/
def d : Nat := 37095705934669439343138083508754565189542113879843219016388785533085940283555

/-- A square root of −1. -/
def sqrtMinusOne : Nat :=
  19681161376707505956807079304988542015446066515923890162744021073123829784752

/-- The even root of u/v, if there is one. Since p ≡ 5 (mod 8), a root is u·v³·(u·v⁷)^((p−5)/8)
or that times a square root of −1. -/
def sqrtRatio? (u v : Nat) : Option Nat :=
  let v3 := mul (mul v v) v
  let v7 := mul (mul v3 v3) v
  let r := mul (mul u v3) (pow (mul u v7) 252 ((p - 5) / 8))
  let check := mul v (mul r r)
  let even (r : Nat) : Nat := if r % 2 = 1 then p - r else r
  if check = u then some (even r)
  else if check = sub 0 u then some (even (mul r sqrtMinusOne))
  else none

end Residue

/-- A point in extended coordinates. -/
structure Point where
  x : Nat
  y : Nat
  z : Nat
  t : Nat
  deriving DecidableEq, Repr

namespace Point

/-- The neutral element (0, 1). -/
def zero : Point := ⟨0, 1, 1, 0⟩

/-- The base point, of prime order. -/
def base : Point :=
  let x := 15112221349535400772501151409588531511454012693041857206046113283949847762202
  let y := 46316835694926478169428394003475163141307993866256225615783033603165251855960
  ⟨x, y, 1, Residue.mul x y⟩

/-- The complete addition law. -/
def add (a b : Point) : Point :=
  let m := Residue.mul (Residue.sub a.y a.x) (Residue.sub b.y b.x)
  let n := Residue.mul (Residue.add a.y a.x) (Residue.add b.y b.x)
  let c := Residue.mul (Residue.mul a.t (Residue.mul 2 Residue.d)) b.t
  let k := Residue.mul (Residue.mul a.z 2) b.z
  let e := Residue.sub n m
  let f := Residue.sub k c
  let g := Residue.add k c
  let h := Residue.add n m
  ⟨Residue.mul e f, Residue.mul g h, Residue.mul f g, Residue.mul e h⟩

def neg (a : Point) : Point := ⟨Residue.sub 0 a.x, a.y, a.z, Residue.sub 0 a.t⟩

/-- The multiple by the lowest `width` bits of a number, highest bit first. -/
def mulBits (a : Point) : (width n : Nat) → Point
  | 0, _ => zero
  | width + 1, n =>
    let half := mulBits a width (n / 2)
    let double := half.add half
    if n % 2 = 1 then double.add a else double

/-- The multiple by a number below 2²⁵⁶. -/
def scale (n : Nat) (a : Point) : Point := a.mulBits 256 n

def isZero (a : Point) : Bool := a.x == 0 && a.y == a.z

/-- Whether eight times the point vanishes: it then says nothing about who made a signature. -/
def isSmallOrder (a : Point) : Bool := (a.scale 8).isZero

/-- The 32 bytes of y, with the lowest bit of x on top. -/
def compress (a : Point) : Block 32 where
  toBytes :=
    let z := Residue.inv a.z
    Bytes.littleEndian 32 (Residue.mul a.y z + (1 <<< 255) * (Residue.mul a.x z % 2))
  length_eq := by simp

/-- The point that 32 bytes stand for, if their y has an x on the curve. -/
def decompress? (bytes : Block 32) : Option Point :=
  let n := Bytes.ofLittleEndian bytes.toBytes
  let y := n % (1 <<< 255) % p
  let yy := Residue.mul y y
  match Residue.sqrtRatio? (Residue.sub yy 1) (Residue.add (Residue.mul Residue.d yy) 1) with
  | none => none
  | some root =>
    let x := if n / (1 <<< 255) = 1 then Residue.sub 0 root else root
    some ⟨x, y, 1, Residue.mul x y⟩

end Point

end Enclaves.Ed25519

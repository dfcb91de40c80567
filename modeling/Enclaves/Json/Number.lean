/-!
# Numbers of JSON text

A number is read into a significand of 64 bits and a power of ten. A digit that does not fit ends
the significand for its part of the number: in the whole part it and the digits after it raise the
power instead, in the fraction they have no effect. The fraction starts afresh, so a digit of it can
still fit when one of the whole part did not.

A number is out of range when it has no finite double. It is held to the double that the two halves
give, each rounded to the nearest: the significand and the power of ten, and then their product. So
close to the limit the double of the text as a whole does not decide.
-/

namespace Enclaves.Json

/-- A number that is not simply a natural number of 64 bits. -/
structure Number where
  negative : Bool
  significand : Nat
  power : Int
  deriving DecidableEq, Repr

/-! ## Range -/

/-- The natural number rounded to 53 binary digits; a tie goes to the even one. -/
def nearestDouble (n : Nat) : Nat :=
  let unit := 1 <<< (n.log2 - 52)
  let below := n / unit
  let rest := n % unit
  if 2 * rest < unit ∨ 2 * rest = unit ∧ below % 2 = 0 then below * unit else (below + 1) * unit

/-- From here on a number rounds to no finite double. -/
def rangeLimit : Nat := (1 <<< 1024) - (1 <<< 970)

/-- The greatest power of ten that has a finite double. -/
def greatestPower : Nat := 308

/-- Whether a number has no finite double. -/
def Number.isOutOfRange (n : Number) : Bool :=
  n.significand ≠ 0 && 0 ≤ n.power &&
    (greatestPower < n.power ||
      rangeLimit ≤ nearestDouble n.significand * nearestDouble (Nat.pow 10 n.power.toNat))

/-! ## Digit by digit -/

/-- A number being read. `isFull` says that a digit of the part at hand did not fit, `lowers` that
the exponent is negative. -/
structure Numeral where
  negative : Bool
  significand : Nat
  isFull : Bool
  power : Int
  lowers : Bool
  exponent : Nat
  deriving DecidableEq, Repr

namespace Numeral

/-- No digit yet. -/
def start (negative : Bool) : Numeral := ⟨negative, 0, false, 0, false, 0⟩

/-- One more digit in the significand, if it fits. -/
def append? (n : Numeral) (digit : Nat) : Option Numeral :=
  if !n.isFull ∧ n.significand * 10 + digit < UInt64.size then
    some { n with significand := n.significand * 10 + digit }
  else none

/-- A digit of the whole part. -/
def whole (n : Numeral) (digit : Nat) : Numeral :=
  match n.append? digit with
  | some n => n
  | none => { n with isFull := true, power := n.power + 1 }

/-- The point: the fraction starts afresh. -/
def point (n : Numeral) : Numeral := { n with isFull := false }

/-- A digit of the fraction. -/
def fraction (n : Numeral) (digit : Nat) : Numeral :=
  match n.append? digit with
  | some n => { n with power := n.power - 1 }
  | none => { n with isFull := true }

/-- A digit of the exponent. -/
def raise (n : Numeral) (digit : Nat) : Numeral := { n with exponent := n.exponent * 10 + digit }

/-- The number that was read. -/
def toNumber (n : Numeral) : Number :=
  ⟨n.negative, n.significand, n.power + if n.lowers then -(n.exponent : Int) else n.exponent⟩

end Numeral

end Enclaves.Json

import Enclaves.Utf8
/-!
# Hexadecimal text

Bytes are written as two lower-case digits each and read in either case. A refusal names its cause:
an odd number of digits is found first, else the first byte that is no digit, with its offset in
the text's UTF-8 form. Since a byte need not be a character, it is shown as the character of the
same number in Latin-1, quoted and escaped the way a character literal is.

Addresses are written in the other convention, `0x` and no leading zeros.
-/

namespace Enclaves.Hex

/-- One digit of a number below sixteen. -/
def digit (n : Nat) : Char := Nat.digitChar n

def digits (b : UInt8) : List Char := [digit (b.toNat / 16), digit (b.toNat % 16)]

/-- Two lower-case digits for each byte. -/
def encode (bytes : Bytes) : String := String.ofList (bytes.flatMap digits)

/-- An address: `0x` and its digits, without leading zeros. -/
def address (n : Nat) : String := "0x" ++ String.ofList (Nat.toDigits 16 n)

/-- Why a text is no hexadecimal byte string. -/
inductive Fault where
  | oddLength
  | invalidCharacter (byte : UInt8) (position : Nat)
  deriving DecidableEq, Repr

/-- A Latin-1 character as it stands between single quotes.

Controls, the no-break space and the soft hyphen cannot be seen, so they are written by number;
four of them, the quote and the backslash have short escapes. -/
def latin1 (byte : UInt8) : String :=
  if byte = 0 then "\\0"
  else if byte = 9 then "\\t"
  else if byte = 10 then "\\n"
  else if byte = 13 then "\\r"
  else if byte = 39 then "\\'"
  else if byte = 92 then "\\\\"
  else if byte < 0x20 ∨ (0x7f ≤ byte ∧ byte ≤ 0xa0) ∨ byte = 0xad then
    "\\u\x7b" ++ String.ofList (Nat.toDigits 16 byte.toNat) ++ "\x7d"
  else String.singleton (Char.ofNat byte.toNat)

def Fault.message : Fault → String
  | .oddLength => "Odd number of digits"
  | .invalidCharacter byte position =>
    "Invalid character '" ++ latin1 byte ++ "' at position " ++ toString position

/-- The value of an ASCII digit, in either case. -/
def value? (byte : UInt8) : Option UInt8 :=
  if 0x30 ≤ byte ∧ byte ≤ 0x39 then some (byte - 0x30)
  else if 0x61 ≤ byte ∧ byte ≤ 0x66 then some (byte - 0x61 + 10)
  else if 0x41 ≤ byte ∧ byte ≤ 0x46 then some (byte - 0x41 + 10)
  else none

/-- Pairs of ASCII digits as bytes; `position` is the offset of the first. -/
def decodePairs (position : Nat) : Bytes → Except Fault Bytes
  | high :: low :: rest =>
    match value? high, value? low with
    | none, _ => .error (.invalidCharacter high position)
    | some _, none => .error (.invalidCharacter low (position + 1))
    | some h, some l =>
      match decodePairs (position + 2) rest with
      | .ok bytes => .ok ((h * 16 + l) :: bytes)
      | .error fault => .error fault
  | [_] => .error .oddLength
  | [] => .ok []

/-- The bytes that a hexadecimal text stands for. -/
def decode (text : String) : Except Fault Bytes :=
  let ascii := Utf8.encode text
  if ascii.length % 2 = 1 then .error .oddLength else decodePairs 0 ascii

end Enclaves.Hex

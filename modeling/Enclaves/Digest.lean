import Enclaves.Hex
import Enclaves.Sha3
/-!
# Digests

A digest is 64 bytes, the SHA3-512 value of some byte string. What is hashed is always a definition
of its own elsewhere (a preimage), so that laws about the byte strings need no word about the hash,
and laws about digests hold up to a collision between two named preimages.
-/

namespace Enclaves

/-- A measurement, a history or a platform digest. -/
structure Digest where
  block : Block 64
  deriving DecidableEq

/-- Why a text is no digest. -/
inductive DigestFault where
  | hex (fault : Hex.Fault)
  | length (bytes : Nat)
  deriving DecidableEq, Repr

def DigestFault.message : DigestFault → String
  | .hex fault => "invalid digest hex: " ++ fault.message
  | .length bytes => s!"digest must be 64 bytes, got {bytes}"

namespace Digest

/-- The bytes of a digest. -/
def bytes (d : Digest) : Bytes := d.block.toBytes

@[simp] theorem length_bytes (d : Digest) : d.bytes.length = 64 := d.block.length_eq

/-- Digests with the same bytes are the same. -/
theorem ext_bytes {a b : Digest} (h : a.bytes = b.bytes) : a = b := by
  cases a; cases b; simp only [mk.injEq]; exact Block.ext_toBytes h

/-- The digest of a byte string. -/
def ofPreimage (preimage : Bytes) : Digest := ⟨Sha3.hash preimage⟩

/-- The digest that 64 bytes are. -/
def ofBytes? (bytes : Bytes) : Option Digest := (Block.ofBytes? bytes).map mk

/-- The digest that a hexadecimal text stands for, in either case. -/
def ofHex (text : String) : Except DigestFault Digest :=
  match Hex.decode text with
  | .error fault => .error (.hex fault)
  | .ok bytes =>
    match ofBytes? bytes with
    | some digest => .ok digest
    | none => .error (.length bytes.length)

def toHex (d : Digest) : String := Hex.encode d.bytes

/-- The first eight bytes, for messages. -/
def short (d : Digest) : String := Hex.encode (d.bytes.take 8)

/-- A digest as shown inside other values. -/
def describe (d : Digest) : String := "Digest(" ++ d.short ++ "…)"

end Digest

end Enclaves

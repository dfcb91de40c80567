import Enclaves.Sha512
import Enclaves.Ed25519.Curve
/-!
# Ed25519 signatures

Key derivation and signing are the plain scheme, without context or prehashing. Checking is the
strict variant: the scalar must be reduced, neither the key nor the commitment may have small order,
the equation is the one without the cofactor, and the recomputed commitment is compared as bytes.

A public key keeps the bytes it came as, since they and not the point go into the challenge.
-/

namespace Enclaves.Ed25519

/-- Bytes of a public key that decompress, with their point. -/
structure PublicKey where
  bytes : Block 32
  point : Point

/-- Accepts every encoding of a point, small orders included: `verify` is what refuses those. -/
def PublicKey.ofBytes? (bytes : Block 32) : Option PublicKey :=
  (Point.decompress? bytes).map fun point => ⟨bytes, point⟩

/-- A hash as a scalar. -/
def scalarOfHash (parts : List Bytes) : Nat :=
  Bytes.ofLittleEndian (Sha512.hash parts.flatten).toBytes % order

/-- Three low bits cleared, the top bit cleared, the one below it set. -/
def clamp (n : Nat) : Nat := n % (1 <<< 254) / 8 * 8 + (1 <<< 254)

/-- A seed's secret scalar. -/
def secretScalar (seed : Block 32) : Nat :=
  clamp (Bytes.ofLittleEndian ((Sha512.hash seed.toBytes).toBytes.take 32))

/-- The half of a seed's hash that commitments are drawn from. -/
def commitmentSeed (seed : Block 32) : Bytes := (Sha512.hash seed.toBytes).toBytes.drop 32

/-- The public key of a seed. -/
def publicKey (seed : Block 32) : PublicKey :=
  let point := Point.base.scale (secretScalar seed)
  ⟨point.compress, point⟩

/-- The signature of a message: the commitment, then the response as 32 bytes. -/
def sign (seed : Block 32) (message : Bytes) : Block 64 :=
  let r := scalarOfHash [commitmentSeed seed, message]
  let commitment := (Point.base.scale r).compress
  let challenge :=
    scalarOfHash [commitment.toBytes, (publicKey seed).bytes.toBytes, message]
  let response := (r + challenge * secretScalar seed) % order
  ⟨commitment.toBytes ++ Bytes.littleEndian 32 response, by simp⟩

/-- Strict checking of a signature. -/
def verify (key : PublicKey) (message : Bytes) (signature : Block 64) : Bool :=
  let commitment : Block 32 := ⟨signature.toBytes.take 32, by simp⟩
  let response := Bytes.ofLittleEndian (signature.toBytes.drop 32)
  if response < order then
    match Point.decompress? commitment with
    | none => false
    | some point =>
      if point.isSmallOrder || key.point.isSmallOrder then false
      else
        let challenge :=
          scalarOfHash [commitment.toBytes, key.bytes.toBytes, message]
        let recomputed := (Point.base.scale response).add ((key.point.scale challenge).neg)
        recomputed.compress = commitment
  else false

end Enclaves.Ed25519

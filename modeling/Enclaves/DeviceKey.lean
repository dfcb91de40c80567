import Enclaves.Blank
import Enclaves.Ed25519.Signature
import Enclaves.Image
/-!
# Device keys

The key that a device signs with, kept as its seed, and the identity of a monitor: that key and the
digest of the monitor's own image. A key comes in as hexadecimal text, with blanks allowed around
it; it is never shown, only its public half is.
-/

namespace Enclaves

/-- A signing key by its seed. -/
structure DeviceKey where
  seed : Block 32
  deriving DecidableEq

/-- Why a text is no device key. -/
inductive KeyFault where
  | hex (fault : Hex.Fault)
  | length (bytes : Nat)
  deriving DecidableEq, Repr

def KeyFault.message : KeyFault → String
  | .hex fault => "invalid key hex: " ++ fault.message
  | .length bytes => s!"device key must be 32 bytes, got {bytes}"

namespace DeviceKey

/-- The key whose seed a text spells. -/
def ofHex (text : String) : Except KeyFault DeviceKey :=
  match Hex.decode (trimBlanks text) with
  | .error fault => .error (.hex fault)
  | .ok bytes =>
    match Block.ofBytes? bytes with
    | some seed => .ok ⟨seed⟩
    | none => .error (.length bytes.length)

def publicKey (key : DeviceKey) : Ed25519.PublicKey := Ed25519.publicKey key.seed

def sign (key : DeviceKey) (message : Bytes) : Block 64 := Ed25519.sign key.seed message

/-- A key as shown inside other values. -/
def describe (key : DeviceKey) : String :=
  "DeviceKey(public=" ++ Hex.encode key.publicKey.bytes.toBytes ++ ")"

end DeviceKey

/-- What a monitor signs with and says of itself. -/
structure Identity where
  key : DeviceKey
  platform : Digest

namespace Identity

/-- The identity of a monitor whose image is measured in a region of some size. -/
def ofImage (key : DeviceKey) (image : Bytes) (regionSize : Nat) : Identity :=
  ⟨key, measurePlatform image regionSize⟩

def describe (identity : Identity) : String :=
  "MonitorIdentity \x7b key: " ++ identity.key.describe ++ ", platform_digest: " ++
    identity.platform.describe ++ " \x7d"

end Identity

/-! ## Public keys as text -/

/-- Why a text or a byte string is no public key. -/
inductive PublicKeyFault where
  | hex (fault : Hex.Fault)
  | length (bytes : Nat)
  | offCurve
  deriving DecidableEq, Repr

def PublicKeyFault.message : PublicKeyFault → String
  | .hex fault => fault.message
  | .length bytes => s!"public key must be 32 bytes, got {bytes}"
  | .offCurve => "signature error: Cannot decompress Edwards point"

/-- The public key that bytes stand for. -/
def publicKeyOfBytes (bytes : Bytes) : Except PublicKeyFault Ed25519.PublicKey :=
  match Block.ofBytes? bytes with
  | none => .error (.length bytes.length)
  | some block =>
    match Ed25519.PublicKey.ofBytes? block with
    | none => .error .offCurve
    | some key => .ok key

/-- The public key that a text spells, with blanks allowed around it. -/
def publicKeyOfHex (text : String) : Except PublicKeyFault Ed25519.PublicKey :=
  match Hex.decode (trimBlanks text) with
  | .error fault => .error (.hex fault)
  | .ok bytes => publicKeyOfBytes bytes

end Enclaves

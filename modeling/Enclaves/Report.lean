import Enclaves.ConnectionLog
import Enclaves.DeviceKey
/-!
# Attestation reports

A report states what an enclave was measured as, how its history has grown, the log that explains
the growth, and the platform's digest; it echoes the data it was asked with and carries a signature.

The signature covers the wire form of every other field. That message holds two parts of variable
length, and each has its length in front of it, so that no byte can be moved from one to the other.
-/

namespace Enclaves

structure Report where
  digest : Digest
  history : Digest
  log : List PeerDescriptor
  platform : Digest
  signature : Block 64
  data : Bytes
  deriving DecidableEq

/-- The fields in front of the signature, in wire form. -/
def Report.encodeBody (digest history : Digest) (log : List PeerDescriptor) (platform : Digest) :
    Bytes :=
  digest.bytes ++ history.bytes ++ Bytes.littleEndian 4 log.length ++
    log.flatMap PeerDescriptor.encode ++ platform.bytes

/-- The data section, in wire form. -/
def Report.encodeData (data : Bytes) : Bytes := Bytes.littleEndian 4 data.length ++ data

namespace Report

/-- The bytes that the signature covers: every field but itself. -/
def signedMessage (r : Report) : Bytes :=
  encodeBody r.digest r.history r.log r.platform ++ encodeData r.data

/-- A report signed by a device key. -/
def issue (key : DeviceKey) (digest history : Digest) (log : List PeerDescriptor)
    (platform : Digest) (data : Bytes) : Report :=
  let signature := key.sign (encodeBody digest history log platform ++ encodeData data)
  ⟨digest, history, log, platform, signature, data⟩

end Report

end Enclaves

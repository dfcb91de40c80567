import Enclaves.Report
/-!
# The wire form of reports

Digest, history, the number of log entries in four bytes, the entries, the platform's digest, the
signature, the length of the data in four bytes, the data. Nothing may be missing and nothing may
follow.

A reader takes a field off the front and answers the rest. The whole length is looked at before the
first field and the room for all log entries before the first entry, so a refusal says what is wrong
with the report rather than where the bytes ran out.
-/

namespace Enclaves

namespace Report

/-- Bytes of a report with an empty log and no data. -/
def minLength : Nat := 3 * 64 + 64 + 4 + 4

end Report

/-- Why bytes are no report. -/
inductive WireFault where
  | tooShort (bytes : Nat)
  | logBeyond (entries remaining : Nat)
  | entry (fault : DescriptorFault)
  | field (name : String) (needed remaining : Nat)
  | trailing (bytes : Nat)
  deriving DecidableEq, Repr

/-- A refusal without the words that introduce it. -/
def WireFault.reason : WireFault → String
  | .tooShort bytes =>
    s!"{bytes} bytes is shorter than the minimum report size {Report.minLength}"
  | .logBeyond entries remaining =>
    s!"connection log claims {entries} entries, only {remaining} bytes remain"
  | .entry fault => fault.message
  | .field name needed remaining => s!"{name} needs {needed} bytes, only {remaining} remain"
  | .trailing bytes => s!"{bytes} trailing bytes after data section"

def WireFault.message (fault : WireFault) : String := "Malformed report: " ++ fault.reason

namespace Report

/-- The wire form of a report. -/
def encode (r : Report) : Bytes :=
  encodeBody r.digest r.history r.log r.platform ++ r.signature.toBytes ++ encodeData r.data

/-- A field of `n` bytes off the front. -/
def takeBlock (n : Nat) (name : String) (bytes : Bytes) : Except WireFault (Block n × Bytes) :=
  match Block.read? bytes with
  | some field => .ok field
  | none => .error (.field name n bytes.length)

def takeDigest (name : String) (bytes : Bytes) : Except WireFault (Digest × Bytes) :=
  match takeBlock 64 name bytes with
  | .ok (block, rest) => .ok (⟨block⟩, rest)
  | .error fault => .error fault

/-- A number of four bytes off the front. -/
def takeNumber (name : String) (bytes : Bytes) : Except WireFault (Nat × Bytes) :=
  match takeBlock 4 name bytes with
  | .ok (block, rest) => .ok (Bytes.ofLittleEndian block.toBytes, rest)
  | .error fault => .error fault

/-- Log entries off the front; there is room for all of them. -/
def takeEntries : (count : Nat) → Bytes → Except WireFault (List PeerDescriptor × Bytes)
  | 0, bytes => .ok ([], bytes)
  | count + 1, bytes =>
    match PeerDescriptor.decode (bytes.take PeerDescriptor.wireLength) with
    | .error fault => .error (.entry fault)
    | .ok entry =>
      match takeEntries count (bytes.drop PeerDescriptor.wireLength) with
      | .ok (entries, rest) => .ok (entry :: entries, rest)
      | .error fault => .error fault

/-- A log off the front, its number of entries first. -/
def takeLog (bytes : Bytes) : Except WireFault (List PeerDescriptor × Bytes) :=
  match takeNumber "connection log count" bytes with
  | .error fault => .error fault
  | .ok (count, bytes) =>
    let remaining := bytes.length
    if remaining < count * PeerDescriptor.wireLength then .error (.logBeyond count remaining)
    else takeEntries count bytes

/-- The data section off the front. -/
def takeData (bytes : Bytes) : Except WireFault (Bytes × Bytes) :=
  match takeNumber "data length" bytes with
  | .error fault => .error fault
  | .ok (length, bytes) =>
    match takeBlock length "data section" bytes with
    | .ok (data, rest) => .ok (data.toBytes, rest)
    | .error fault => .error fault

/-- The report that bytes stand for. -/
def decode (bytes : Bytes) : Except WireFault Report :=
  let length := bytes.length
  if length < minLength then .error (.tooShort length)
  else do
    let (digest, bytes) ← takeDigest "digest" bytes
    let (history, bytes) ← takeDigest "hash history" bytes
    let (log, bytes) ← takeLog bytes
    let (platform, bytes) ← takeDigest "platform digest" bytes
    let (signature, bytes) ← takeBlock 64 "signature" bytes
    let (data, bytes) ← takeData bytes
    if bytes.isEmpty then .ok ⟨digest, history, log, platform, signature, data⟩
    else .error (.trailing bytes.length)

end Report

end Enclaves

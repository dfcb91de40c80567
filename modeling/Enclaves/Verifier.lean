import Enclaves.Report
/-!
# Verification of reports

A verifier believes the device's public key and what it measures itself. Its five checks are the
signature, the measurement of the subject, the history replayed from the log, the platform's digest
if one is expected, and the echoed data. The history is replayed only on top of a measurement that
matched; otherwise it counts as failed without a finding of its own.

A mismatch is a finding, never a refusal: `Verification` says which checks passed, and lists the
findings in the order of the checks.

The signature check is an argument of the whole, `Ed25519.verify` for a verifier that runs. What is
said of verification then rests on what is asked of a check, and not on the curve.
-/

namespace Enclaves

/-- What a check found wrong. -/
inductive Finding where
  | signature
  | digest (reported expected : Digest)
  | noSubject (reference : String)
  | history (reported replayed : Digest)
  | noPeer (peer : EnclaveId) (reference : Reference)
  | platform (reported expected : Digest)
  | data (bytes challenge : Nat)
  deriving DecidableEq

def Finding.message : Finding → String
  | .signature => "signature does not verify under the device key"
  | .digest reported expected =>
    s!"digest mismatch: report {reported.short} expected {expected.short}"
  | .noSubject reference => "no artifact for subject " ++ reference
  | .history reported replayed =>
    s!"hash history mismatch: report {reported.short} replayed {replayed.short}"
  | .noPeer peer reference => s!"no artifact for peer {peer.describe} ({reference.text})"
  | .platform reported expected =>
    s!"platform digest mismatch: report {reported.short} expected {expected.short}"
  | .data bytes challenge =>
    s!"data section ({bytes} bytes) does not match the {challenge}-byte challenge"

/-- Which checks passed, and what the others found. The platform is checked only on demand. -/
structure Verification where
  signatureValid : Bool
  digestMatches : Bool
  historyMatches : Bool
  platformMatches : Option Bool
  dataMatches : Bool
  diagnostics : List String
  deriving DecidableEq, Repr

/-- Whether no check that was made failed. -/
def Verification.isTrusted (v : Verification) : Bool :=
  v.signatureValid && v.digestMatches && v.historyMatches &&
    v.platformMatches != some false && v.dataMatches

/-- A check of signatures: whether the owner of a key signed a message so. -/
abbrev SignatureCheck := Ed25519.PublicKey → Bytes → Block 64 → Bool

/-- A verifier for enclaves that share a loader and a runtime. -/
structure Verifier where
  key : Ed25519.PublicKey
  loader : Bytes
  runtime : Bytes
  /-- The application behind a reference. -/
  artifact : String → Option Bytes
  /-- The platform digest that a report must carry. -/
  platform : Option Digest

namespace Verifier

/-- The signature of a report under some check. -/
def checkSignatureBy (v : Verifier) (check : SignatureCheck) (r : Report) : Bool :=
  check v.key r.signedMessage r.signature

/-- The signature check alone. -/
def checkSignature (v : Verifier) (r : Report) : Bool := v.checkSignatureBy Ed25519.verify r

/-- The measurement of the application behind a reference. -/
def measureReference (v : Verifier) (reference : String) : Option Digest :=
  (v.artifact reference).map fun app => (Image.mk v.loader v.runtime app).measure

/-- The events of a log with the measurements of the peers, or the first entry whose peer has no
artifact. A reference that occurs again is not measured again: `known` holds what was measured. -/
def resolve (v : Verifier) : (known : List (Reference × Digest)) → List PeerDescriptor →
    Except Finding (List (Event × Digest))
  | _, [] => .ok []
  | known, entry :: rest =>
    match (known.lookup entry.reference).or (v.measureReference entry.reference.text) with
    | none => .error (.noPeer entry.peer entry.reference)
    | some digest =>
      match v.resolve ((entry.reference, digest) :: known) rest with
      | .ok events => .ok ((entry.event, digest) :: events)
      | .error finding => .error finding

/-- The history that a report's log leads to. -/
def replay (v : Verifier) (r : Report) : Except Finding Digest :=
  (v.resolve [] r.log).map (replayHistory r.digest)

/-! ## The checks

Each answers its finding, if it has one. -/

def signatureFinding (v : Verifier) (check : SignatureCheck) (r : Report) : Option Finding :=
  if v.checkSignatureBy check r then none else some .signature

def digestFinding (v : Verifier) (r : Report) (subject : String) : Option Finding :=
  match v.measureReference subject with
  | none => some (.noSubject subject)
  | some expected => if expected = r.digest then none else some (.digest r.digest expected)

def historyFinding (v : Verifier) (r : Report) : Option Finding :=
  match v.replay r with
  | .error finding => some finding
  | .ok replayed => if replayed = r.history then none else some (.history r.history replayed)

def platformFinding (expected : Digest) (r : Report) : Option Finding :=
  if expected = r.platform then none else some (.platform r.platform expected)

def dataFinding (r : Report) (challenge : Bytes) : Option Finding :=
  if r.data = challenge then none else some (.data r.data.length challenge.length)

/-- All checks of a report on the enclave that runs `subject`, asked with `challenge`. -/
def verifyBy (v : Verifier) (check : SignatureCheck) (r : Report) (subject : String)
    (challenge : Bytes) : Verification :=
  let signature := v.signatureFinding check r
  let digest := v.digestFinding r subject
  let history := if digest.isNone then v.historyFinding r else none
  let platform := v.platform.bind fun expected => platformFinding expected r
  let data := dataFinding r challenge
  { signatureValid := signature.isNone
    digestMatches := digest.isNone
    historyMatches := digest.isNone && history.isNone
    platformMatches := v.platform.map fun _ => platform.isNone
    dataMatches := data.isNone
    diagnostics :=
      ([signature, digest, history, platform, data].filterMap id).map Finding.message }

/-- All checks, with those of the signature scheme that devices sign with. -/
def verify (v : Verifier) (r : Report) (subject : String) (challenge : Bytes) : Verification :=
  v.verifyBy Ed25519.verify r subject challenge

end Verifier

end Enclaves

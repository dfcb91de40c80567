import Enclaves.Console.Action
/-!
# Commands on files alone

Measuring an image, measuring a platform image, showing a report and verifying one.

A verification names the files it reads in an order that decides which error is told: the report,
the key, loader and runtime, the expected platform digest, the nonce. Applications are read by their
references, below a directory if one is given; one that cannot be read is missing, which is a
finding and no error.
-/

namespace Enclaves.Console

variable {m : Type → Type} [Host m]

/-- Print the measurement of an image. -/
def measure (loader runtime app : String) : Action m Unit := do
  let image : Image :=
    ⟨← readFile loader, ← readFile runtime, ← readFile app⟩
  line s!"  Image pages: {image.pages}"
  line ("  Digest: " ++ image.measure.toHex)

/-- Print the digest of a platform image, which must fit the configured region. -/
def platformDigest (config : Config) (path : String) : Action m Unit := do
  let image ← readFile path
  if config.platformRegionSize < image.length then
    throw (.imageTooLarge image.length config.platformRegionSize)
  line ("  Platform digest: " ++ (measurePlatform image config.platformRegionSize).toHex)

/-- The report in a file. -/
def readReport (path : String) : Action m Report := do
  check ActionError.wire (Report.decode (← readFile path))

/-- Print a report as JSON. -/
def inspect (path : String) : Action m Unit := do
  line (← readReport path).toText

/-- A text without the slashes it starts with. -/
def withoutLeadingSlashes (text : String) : String :=
  String.ofList (text.toList.dropWhile (· = '/'))

/-- The path of the application behind a reference. -/
def artifactPath (root : Option String) (reference : String) : String :=
  match root with
  | none => reference
  | some root => joinPath root (withoutLeadingSlashes reference)

/-- The applications behind some references, as far as they can be read. -/
def readArtifacts (root : Option String) : List String → m (List (String × Bytes))
  | [] => pure []
  | reference :: rest => do
    let file ← Host.readFile (artifactPath root reference)
    let others ← readArtifacts root rest
    match file with
    | .ok bytes => return (reference, bytes) :: others
    | .error _ => return others

/-- The lines that tell how a verification went. -/
def verificationLines (path : String) (v : Verification) : List String :=
  ["\n  Verification of " ++ path ++ ":", "  " ++ rule, s!"  signature: {v.signatureValid}",
    s!"  digest:    {v.digestMatches}", s!"  history:   {v.historyMatches}",
    match v.platformMatches with
    | some matched => s!"  platform:  {matched}"
    | none => "  platform:  (not checked)",
    s!"  nonce:     {v.dataMatches}"] ++
    v.diagnostics.map ("    - " ++ ·)

/-- Verify the report in a file. -/
def verify (path publicKey nonce loader runtime subject : String)
    (root platform : Option String) : Action m Unit := do
  let report ← readReport path
  let key ← check ActionError.publicKey (publicKeyOfHex publicKey)
  let loader ← readFile loader
  let runtime ← readFile runtime
  let platform ←
    match platform with
    | none => pure none
    | some text => some <$> check ActionError.digest (Digest.ofHex text)
  let nonce ← check ActionError.nonce (Hex.decode (trimBlanks nonce))
  let references := subject :: report.log.map fun entry => entry.reference.text
  let artifacts ← (readArtifacts root references.eraseDups : m _)
  let verifier : Verifier := ⟨key, loader, runtime, fun r => artifacts.lookup r, platform⟩
  let v := verifier.verify report subject nonce
  (verificationLines path v).forM line
  if v.isTrusted then line "\n  TRUSTED" else throw .untrusted

end Enclaves.Console

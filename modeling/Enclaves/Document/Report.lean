import Enclaves.Document.Value
import Enclaves.Report
import Enclaves.Verifier
/-!
# Documents of reports and verifications

A report has a JSON form beside its wire form, with the signature and the data as hexadecimal
strings. Both are checked where they are read, so a text that is accepted holds a report that also
has a wire form.
-/

namespace Enclaves

open Json

/-- A hexadecimal string. -/
def hexJson : Reader Bytes :=
  Reader.refine (fun text => (Hex.decode text).mapError Hex.Fault.message) Reader.text

/-- A hexadecimal string of a signature's length. -/
def signatureJson : Reader (Block 64) :=
  Reader.refine
    (fun text =>
      match Hex.decode text with
      | .error fault => .error fault.message
      | .ok bytes =>
        match Block.ofBytes? bytes with
        | some signature => .ok signature
        | none => .error s!"signature must be 64 bytes, got {bytes.length}")
    Reader.text

namespace Report

def toJson (r : Report) : List Token :=
  object [("digest", r.digest.toJson), ("hash_history", r.history.toJson),
    ("connection_log", array (r.log.map PeerDescriptor.toJson)),
    ("platform_digest", r.platform.toJson),
    ("signature", [textToken (Hex.encode r.signature.toBytes)]),
    ("data", [textToken (Hex.encode r.data)])]

def json : Reader Report :=
  Reader.map
    (fun (digest, history, log, platform, signature, data, ()) =>
      ⟨digest, history, log, platform, signature, data⟩)
    (Fields.cons (required "digest" Digest.json)
      (.cons (required "hash_history" Digest.json)
        (.cons (required "connection_log" (Reader.list PeerDescriptor.json))
          (.cons (required "platform_digest" Digest.json)
            (.cons (required "signature" signatureJson)
              (.cons (required "data" hexJson) .nil)))))).record

/-- A report as a text, one member to a line. -/
def toText (r : Report) : String := pretty r.toJson

/-- The report in a text. -/
def ofText (text : String) : Except Json.Fault Report := parse json text

end Report

namespace Verification

def toJson (v : Verification) : List Token :=
  object [("signature_valid", [.bool v.signatureValid]),
    ("digest_matches", [.bool v.digestMatches]),
    ("history_matches", [.bool v.historyMatches]),
    ("platform_matches",
      match v.platformMatches with
      | some matched => [.bool matched]
      | none => [.null]),
    ("nonce_matches", [.bool v.dataMatches]),
    ("diagnostics", array (v.diagnostics.map fun text => [textToken text]))]

def json : Reader Verification :=
  Reader.map
    (fun (signature, digest, history, platform, data, diagnostics, ()) =>
      ⟨signature, digest, history, platform, data, diagnostics⟩)
    (Fields.cons (required "signature_valid" Reader.bool)
      (.cons (required "digest_matches" Reader.bool)
        (.cons (required "history_matches" Reader.bool)
          (.cons { required "platform_matches" (Reader.option Reader.bool) with
              absent := some none }
            (.cons (required "nonce_matches" Reader.bool)
              (.cons (required "diagnostics" (Reader.list Reader.text)) .nil)))))).record

end Verification

end Enclaves

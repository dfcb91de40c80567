import Enclaves.Document.Report
import Enclaves.Proofs.Lexing
import Enclaves.Proofs.Reading
import Enclaves.Proofs.Wire

/-!
# Reports as text

A report has a text form and a wire form, and they agree (`Report.text_and_wire_agree`). What was
written as text is read back, whatever is in the references and the data (`Report.ofText_toText`).
And whatever text is accepted, what it spells is fit for the wire.

The second needs a word on what a text spells, since the type of a report has the lengths of its
digests and the checks of its references built in. A `Transcript` has nothing built in: it is the
text's strings as they stand, read by a reader that checks no string. The reader of reports refines
that one (`Transcript.refines_report`), so that each string of an accepted text has passed its
check, in whichever form, order and company its member was written.
-/

namespace Enclaves

open Json

/-! ## Hexadecimal text -/

namespace Hex

/-- A digit is one byte, and is read as what it stands for. -/
theorem digit_ascii : ∀ n < 16, String.utf8EncodeChar (digit n) = [UInt8.ofNat (digit n).toNat] ∧
    value? (UInt8.ofNat (digit n).toNat) = some (UInt8.ofNat n) := by
  decide

/-- The bytes of the text that a byte is written as. -/
def ascii (b : UInt8) : Bytes :=
  [UInt8.ofNat (digit (b.toNat / 16)).toNat, UInt8.ofNat (digit (b.toNat % 16)).toNat]

/-- A text of hexadecimal digits has two bytes for each byte it stands for. -/
theorem utf8_encode (bytes : Bytes) : Utf8.encode (encode bytes) = bytes.flatMap ascii := by
  have hdigits (b : UInt8) : (digits b).flatMap String.utf8EncodeChar = ascii b := by
    have hlt := b.toNat_lt
    rw [digits, List.flatMap_cons, List.flatMap_cons, List.flatMap_nil,
      (digit_ascii _ (by omega)).1, (digit_ascii _ (Nat.mod_lt _ (by decide))).1]
    rfl
  rw [Utf8.encode, encode, String.toUTF8_eq_toByteArray, String.toByteArray_ofList,
    List.utf8Encode, List.toList_data_toByteArray, List.flatMap_assoc]
  exact List.flatMap_congr fun b _ => hdigits b

/-- Pairs of digits are decoded to the bytes they stand for, wherever in the text they are. -/
theorem decodePairs_ascii (position : Nat) (bytes : Bytes) :
    decodePairs position (bytes.flatMap ascii) = .ok bytes := by
  induction bytes generalizing position with
  | nil => rfl
  | cons b bytes ih =>
    have hlt := b.toNat_lt
    have hvalue : UInt8.ofNat (b.toNat / 16) * 16 + UInt8.ofNat (b.toNat % 16) = b := by
      apply UInt8.toNat_inj.mp
      simp only [UInt8.toNat_add, UInt8.toNat_mul, UInt8.toNat_ofNat', UInt8.toNat_ofNat]
      omega
    rw [List.flatMap_cons]
    show decodePairs position (_ :: _ :: bytes.flatMap ascii) = _
    rw [decodePairs, (digit_ascii _ (by omega)).2, (digit_ascii _ (Nat.mod_lt _ (by decide))).2]
    dsimp only
    rw [ih]
    dsimp only
    rw [hvalue]

/-- Bytes are read back from their digits. -/
theorem decode_encode (bytes : Bytes) : decode (encode bytes) = .ok bytes := by
  have hlength : (bytes.flatMap ascii).length = 2 * bytes.length := by
    simp [List.length_flatMap, ascii, Nat.mul_comm]
  rw [decode, utf8_encode, if_neg (by omega), decodePairs_ascii]

end Hex

/-- A digest is read from the text it is written as. -/
theorem Digest.ofHex_toHex (digest : Digest) : Digest.ofHex digest.toHex = .ok digest := by
  rw [Digest.ofHex, Digest.toHex, Hex.decode_encode]
  dsimp only
  rw [Digest.ofBytes?, Digest.bytes, Block.ofBytes?_toBytes]
  rfl

/-- A text that is read as a digest spells its bytes. -/
theorem Digest.decode_of_ofHex {text : String} {digest : Digest}
    (h : Digest.ofHex text = .ok digest) : Hex.decode text = .ok digest.bytes := by
  unfold Digest.ofHex at h
  split at h
  · cases h
  rename_i hdecode
  split at h
  · rename_i hdigest
    cases h
    obtain ⟨block, hblock, rfl⟩ := Option.map_eq_some_iff.mp hdigest
    rw [hdecode, Digest.bytes, Block.toBytes_of_ofBytes? hblock]
  · cases h

/-- What has passed a check passed it whatever the refusal is called. -/
theorem eq_ok_of_mapError {ε ε' α : Type} {f : ε → ε'} {x : Except ε α} {a : α}
    (h : x.mapError f = .ok a) : x = .ok a := by
  cases x with
  | error fault => cases h
  | ok a' =>
    cases h
    rfl

/-! ## What is written is read -/

/-- A document that a reader takes is parsed from its indented text. -/
theorem parse_pretty {α : Type} {read : Reader α} {tokens : List Token} {a : α}
    (htakes : read.Takes tokens a) (hdocument : Document tokens) :
    parse read (pretty tokens) = .ok a := by
  have hread := htakes []
  rw [List.append_nil] at hread
  rw [parse, lex_pretty hdocument, hread]

/-- A word is taken from the number it is written as. -/
theorem wordJson_takes (n : UInt32) : wordJson.Takes [.natural n.toNat] n := by
  have hword : wordJson.Takes [.natural n.toNat] (UInt32.ofNat n.toNat) :=
    (Reader.Takes.natural n.toNat_lt).map
  rwa [UInt32.ofNat_toNat] at hword

/-- A handle is taken from its object of two members. -/
theorem EnclaveId.json_takes (id : EnclaveId) : EnclaveId.json.Takes id.toJson id := by
  have hkeys : ["index", "generation"].Nodup := by decide
  exact (Fields.Writes.takes (.required "index" (wordJson_takes id.index)
    (.required "generation" (wordJson_takes id.generation) .nil)) hkeys).map

/-- That object is a document. -/
theorem EnclaveId.document_toJson (id : EnclaveId) : Document id.toJson := by
  have hword (n : UInt32) : Document [.natural n.toNat] :=
    .natural (Nat.lt_trans n.toNat_lt (by decide))
  refine .object ?_
  simp only [List.forall_mem_cons]
  exact ⟨hword _, hword _, by simp⟩

/-- An event is taken from its name. -/
theorem Event.json_takes (event : Event) : Event.json.Takes event.toJson event := by
  cases event with
  | connect => exact .choice rfl
  | disconnect => exact .choice rfl

/-- An entry of the log is taken from its object, members in the order they are written. -/
theorem PeerDescriptor.json_takes (d : PeerDescriptor) :
    PeerDescriptor.json.Takes d.toJson d := by
  have hkeys : ["peer", "event", "reference"].Nodup := by decide
  refine (Fields.Writes.takes (.required "peer" d.peer.json_takes
    (.required "event" d.event.json_takes
      (.required "reference" (.text d.reference.text) .nil))) hkeys).refine ?_
  dsimp only
  rw [Reference.ofString_text]

/-- So is that of an entry. -/
theorem PeerDescriptor.document_toJson (d : PeerDescriptor) : Document d.toJson := by
  refine .object ?_
  simp only [List.forall_mem_cons]
  exact ⟨d.peer.document_toJson, .text _, .text _, by simp⟩

/-- A digest is taken from its hexadecimal text. -/
theorem Digest.json_takes (digest : Digest) : Digest.json.Takes digest.toJson digest := by
  refine (Reader.Takes.text digest.toHex).refine ?_
  rw [Digest.ofHex_toHex]
  rfl

/-- Bytes are taken from their hexadecimal text. -/
theorem hexJson_takes (bytes : Bytes) : hexJson.Takes [textToken (Hex.encode bytes)] bytes := by
  refine (Reader.Takes.text (Hex.encode bytes)).refine ?_
  rw [Hex.decode_encode]
  rfl

/-- A signature is taken from its hexadecimal text, which has the length of one. -/
theorem signatureJson_takes (signature : Block 64) :
    signatureJson.Takes [textToken (Hex.encode signature.toBytes)] signature := by
  refine (Reader.Takes.text (Hex.encode signature.toBytes)).refine ?_
  rw [Hex.decode_encode]
  dsimp only
  rw [Block.ofBytes?_toBytes]

namespace Report

/-- A report is taken from its object, whatever it holds. -/
theorem json_takes (r : Report) : json.Takes r.toJson r := by
  have hkeys : ["digest", "hash_history", "connection_log", "platform_digest", "signature",
    "data"].Nodup := by decide
  have hlog : (Reader.list PeerDescriptor.json).Takes (array (r.log.map PeerDescriptor.toJson))
      r.log :=
    .list (fun d _ => d.json_takes) fun d _ => ⟨.objectOpen, _, rfl, by decide⟩
  exact (Fields.Writes.takes (.required "digest" r.digest.json_takes
    (.required "hash_history" r.history.json_takes
      (.required "connection_log" hlog
        (.required "platform_digest" r.platform.json_takes
          (.required "signature" (signatureJson_takes r.signature)
            (.required "data" (hexJson_takes r.data) .nil)))))) hkeys).map

/-- What a report is written as is a document. -/
theorem document_toJson (r : Report) : Document r.toJson := by
  refine .object ?_
  simp only [List.forall_mem_cons]
  refine ⟨.text _, .text _, .array ?_, .text _, .text _, .text _, by simp⟩
  intro doc hdoc
  obtain ⟨d, -, rfl⟩ := List.mem_map.mp hdoc
  exact d.document_toJson

/-- A report is read back from its text. -/
theorem ofText_toText (r : Report) : ofText r.toText = .ok r := by
  rw [ofText, toText, parse_pretty r.json_takes r.document_toJson]

end Report

/-! ## What a text spells -/

/-- An entry of a log with any reference. -/
structure Transcript.Entry where
  peer : EnclaveId
  event : Event
  reference : String

/-- The strings of a report as a text has them. -/
structure Transcript where
  digest : String
  history : String
  log : List Transcript.Entry
  platform : String
  signature : String
  data : String

namespace Transcript

def Entry.json : Reader Entry :=
  Reader.map (fun (peer, event, reference, ()) => ⟨peer, event, reference⟩)
    (Fields.cons (required "peer" EnclaveId.json)
      (.cons (required "event" Event.json)
        (.cons (required "reference" Reader.text) .nil))).record

/-- Read as a report is, with no string looked into. -/
def json : Reader Transcript :=
  Reader.map
    (fun (digest, history, log, platform, signature, data, ()) =>
      ⟨digest, history, log, platform, signature, data⟩)
    (Fields.cons (required "digest" Reader.text)
      (.cons (required "hash_history" Reader.text)
        (.cons (required "connection_log" (Reader.list Entry.json))
          (.cons (required "platform_digest" Reader.text)
            (.cons (required "signature" Reader.text)
              (.cons (required "data" Reader.text) .nil)))))).record

/-- The strings in a text. -/
def ofText (text : String) : Except Json.Fault Transcript := parse json text

/-- An entry whose reference passes its check. -/
structure Entry.Spells (e : Entry) (d : PeerDescriptor) : Prop where
  peer : e.peer = d.peer
  event : e.event = d.event
  reference : Reference.ofString e.reference = .ok d.reference

/-- All strings pass their checks, and this report is what they stand for. -/
structure Spells (t : Transcript) (r : Report) : Prop where
  digest : Hex.decode t.digest = .ok r.digest.bytes
  history : Hex.decode t.history = .ok r.history.bytes
  log : List.Forall₂ Entry.Spells t.log r.log
  platform : Hex.decode t.platform = .ok r.platform.bytes
  signature : Hex.decode t.signature = .ok r.signature.toBytes
  data : Hex.decode t.data = .ok r.data

/-- Where all entries of a log are spelled, all its references pass the check. -/
theorem references_pass {log : List Entry} {entries : List PeerDescriptor}
    (h : List.Forall₂ Entry.Spells log entries) :
    ∀ e ∈ log, ∃ reference, Reference.ofString e.reference = .ok reference := by
  induction h with
  | nil => simp
  | cons hfirst _ ih => exact List.forall_mem_cons.mpr ⟨⟨_, hfirst.reference⟩, ih⟩

/-! ## Checked strings were read -/

/-- A text that is read as a digest is read as a text, which spells the digest. -/
theorem refines_digest :
    Reader.Refines (fun text digest => Hex.decode text = .ok digest.bytes) Reader.text
      Digest.json := by
  refine (Reader.Refines.refl Reader.text).refine.mono ?_
  rintro text digest ⟨_, rfl, haccept⟩
  exact Digest.decode_of_ofHex (eq_ok_of_mapError haccept)

/-- So is one that is read as a signature. -/
theorem refines_signature :
    Reader.Refines (fun text signature => Hex.decode text = .ok signature.toBytes) Reader.text
      signatureJson := by
  refine (Reader.Refines.refl Reader.text).refine.mono ?_
  rintro text signature ⟨_, rfl, haccept⟩
  split at haccept
  · cases haccept
  rename_i hdecode
  split at haccept
  · rename_i hblock
    cases haccept
    rw [hdecode, Block.toBytes_of_ofBytes? hblock]
  · cases haccept

/-- So is one that is read as bytes. -/
theorem refines_hex :
    Reader.Refines (fun text bytes => Hex.decode text = .ok bytes) Reader.text hexJson := by
  refine (Reader.Refines.refl Reader.text).refine.mono ?_
  rintro text bytes ⟨_, rfl, haccept⟩
  exact eq_ok_of_mapError haccept

/-- An object that is read as an entry is read without its checks, as a spelling of the entry. -/
theorem refines_entry : Reader.Refines Entry.Spells Entry.json PeerDescriptor.json := by
  refine (Reader.Refines.refl _).refine.map_left ?_
  rintro ⟨peer, event, text, ⟨⟩⟩ d ⟨_, rfl, haccept⟩
  dsimp only at haccept
  split at haccept
  · rename_i hreference
    cases haccept
    exact ⟨rfl, rfl, hreference⟩
  · cases haccept

/-- An object that is read as a report is read without its checks, as a spelling of the report. -/
theorem refines_report : Reader.Refines Spells json Report.json := by
  refine (Fields.Refines.record (.cons "digest" refines_digest
    (.cons "hash_history" refines_digest
      (.cons "connection_log" refines_entry.list
        (.cons "platform_digest" refines_digest
          (.cons "signature" refines_signature
            (.cons "data" refines_hex .nil))))))).map ?_
  rintro ⟨digest, history, log, platform, signature, data, ⟨⟩⟩ r hspells
  obtain ⟨hdigest, hhistory, hlog, hplatform, hsignature, hdata, -⟩ := hspells
  exact ⟨hdigest, hhistory, hlog, hplatform, hsignature, hdata⟩

end Transcript

/-- The text form and the wire form of reports agree. Every report is read back from its text, with
whatever is in its references and its data. And of every text that holds a report the strings have
passed all checks: digests and signature are 64 bytes in hexadecimal, references are as the wire has
room for. So, if the numbers of its entries and of its data bytes fit their fields, the report is
read back from the wire as well. -/
theorem Report.text_and_wire_agree :
    (∀ r : Report, Report.ofText r.toText = .ok r) ∧
    ∀ (text : String) (r : Report), Report.ofText text = .ok r →
      (∃ t, Transcript.ofText text = .ok t ∧ t.Spells r ∧
        (∀ s ∈ [t.digest, t.history, t.platform, t.signature],
          ∃ bytes, Hex.decode s = .ok bytes ∧ bytes.length = 64) ∧
        ∀ e ∈ t.log, ∃ reference, Reference.ofString e.reference = .ok reference) ∧
      (r.log.length < UInt32.size → r.data.length < UInt32.size →
        Report.decode r.encode = .ok r) := by
  refine ⟨Report.ofText_toText, fun text r h => ⟨?_, fun hlog hdata => ?_⟩⟩
  · obtain ⟨t, ht, hspells⟩ := Transcript.refines_report.parse h
    refine ⟨t, ht, hspells, ?_, Transcript.references_pass hspells.log⟩
    simp only [List.forall_mem_cons]
    exact ⟨⟨_, hspells.digest, r.digest.length_bytes⟩,
      ⟨_, hspells.history, r.history.length_bytes⟩,
      ⟨_, hspells.platform, r.platform.length_bytes⟩,
      ⟨_, hspells.signature, r.signature.length_toBytes⟩, by simp⟩
  · exact Report.decode_encode ⟨hlog, hdata⟩

/-- A report whose log has a reference with a quote, a backslash, controls and characters beyond
ASCII. -/
theorem Report.text_and_wire_agree_escaped :
    ∃ reference : Reference, reference.text = "a\"b\\c\n\x01\x7fé☃" ∧
      let digest : Digest := ⟨⟨List.replicate 64 0xa5, rfl⟩⟩
      let r : Report := ⟨digest, digest, [⟨⟨3, 4⟩, .connect, reference⟩], digest,
        ⟨List.replicate 64 0x1f, rfl⟩, [0, 255]⟩
      Report.ofText r.toText = .ok r ∧ Report.decode r.encode = .ok r := by
  obtain ⟨hread, haccepted⟩ := Report.text_and_wire_agree
  refine ⟨⟨"a\"b\\c\n\x01\x7fé☃", by decide, by decide⟩, rfl, hread _, ?_⟩
  exact (haccepted _ _ (hread _)).2 (by decide) (by decide)

end Enclaves

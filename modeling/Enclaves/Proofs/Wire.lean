import Enclaves.Report.Wire
import Mathlib.Data.List.Forall2

/-!
# Reports on the wire

Every reader takes off the front exactly what its writer put there, and leaves the rest alone. So a
report is read back from its wire form (`decode_encode`), and two reports that sign the same message
agree in all that they say (`signedMessage_inj`): the readers, run over the message, find the
same fields on either side. They find the same end as well, so that no message is a proper start of
another (`signedMessage_append_inj`).

Both hold where the log and the data have lengths that fit their fields of 32 bits (`Sized`). A
longer length is cut off by the writer. The reader never answers one (`sized_of_decode`).

What the reader of entries accepts is not only what their writer puts out, so a report is read from
other byte strings too. They differ from its wire form in how the entries are spelled and in nothing
else (`encodeAs`): the reader takes each of these (`decode_encodeAs_append`), and no other
(`exists_encodeAs_of_decode`).
-/

namespace Enclaves

namespace Report

/-- A report whose log and data have lengths that fit their fields. -/
structure Sized (r : Report) : Prop where
  log_lt : r.log.length < UInt32.size
  data_lt : r.data.length < UInt32.size

/-! ## What was written is read -/

section Forward

variable {name : String} {rest : Bytes}

/-- A block is taken from in front of what follows it. -/
theorem takeBlock_append {n : Nat} (block : Block n) :
    takeBlock n name (block.toBytes ++ rest) = .ok (block, rest) := by
  rw [takeBlock, Block.read?_append]

/-- A digest is taken from in front of what follows it. -/
theorem takeDigest_append (digest : Digest) :
    takeDigest name (digest.bytes ++ rest) = .ok (digest, rest) := by
  rw [takeDigest, Digest.bytes, takeBlock_append]

/-- A number of four bytes is taken from in front of what follows it. -/
theorem takeNumber_append {n : Nat} (h : n < UInt32.size) :
    takeNumber name (Bytes.littleEndian 4 n ++ rest) = .ok (n, rest) := by
  have hblock := @takeBlock_append name rest 4 ⟨Bytes.littleEndian 4 n, by simp⟩
  rw [takeNumber, hblock]
  simp only [Bytes.ofLittleEndian_littleEndian]
  rw [Nat.mod_eq_of_lt h]

/-- Byte strings that are read as the entries of a log. -/
abbrev Spelled (spellings : List Bytes) (log : List PeerDescriptor) : Prop :=
  List.Forall₂ (fun bytes entry => PeerDescriptor.decode bytes = .ok entry) spellings log

variable {spellings : List Bytes} {log : List PeerDescriptor}

/-- Entries are taken from their spellings, one after the other. -/
theorem takeEntries_append (h : Spelled spellings log) :
    takeEntries log.length (spellings.flatten ++ rest) = .ok (log, rest) := by
  induction h with
  | nil => rfl
  | cons hentry _ ih =>
    have hlength := PeerDescriptor.length_of_decode hentry
    rw [List.length_cons, List.flatten_cons, List.append_assoc, takeEntries,
      List.take_left' hlength, List.drop_left' hlength, hentry]
    simp only [ih]

/-- All spellings have the length of an entry, so their number tells how long they are. -/
theorem Spelled.length_flatten (h : Spelled spellings log) :
    spellings.flatten.length = log.length * PeerDescriptor.wireLength := by
  induction h with
  | nil => simp
  | cons hentry _ ih =>
    rw [List.flatten_cons, List.length_append, ih, PeerDescriptor.length_of_decode hentry,
      List.length_cons, Nat.add_mul, Nat.one_mul, Nat.add_comm]

/-- A log is taken from its length and the spellings of its entries. -/
theorem takeLog_append (h : Spelled spellings log) (hlt : log.length < UInt32.size) :
    takeLog (Bytes.littleEndian 4 log.length ++ (spellings.flatten ++ rest)) =
      .ok (log, rest) := by
  have hroom : ¬ (spellings.flatten ++ rest).length < log.length * PeerDescriptor.wireLength := by
    rw [List.length_append, h.length_flatten]
    omega
  rw [takeLog, takeNumber_append hlt]
  simp only [if_neg hroom, takeEntries_append h]

/-- The writer of entries spells a log. -/
theorem spelled_encode (log : List PeerDescriptor) :
    Spelled (log.map PeerDescriptor.encode) log :=
  List.forall₂_map_left_iff.mpr (List.forall₂_same.mpr fun entry _ => entry.decode_encode)

/-- Data are taken from their length and their bytes. -/
theorem takeData_append {data : Bytes} (h : data.length < UInt32.size) :
    takeData (encodeData data ++ rest) = .ok (data, rest) := by
  have hblock := @takeBlock_append "data section" rest data.length ⟨data, rfl⟩
  rw [takeData, encodeData, List.append_assoc, takeNumber_append h]
  simp only [hblock]

end Forward

/-- The wire form of a report with its entries spelled in this way. -/
def encodeAs (spellings : List Bytes) (r : Report) : Bytes :=
  r.digest.bytes ++ (r.history.bytes ++ (Bytes.littleEndian 4 r.log.length ++ (spellings.flatten ++
    (r.platform.bytes ++ (r.signature.toBytes ++ encodeData r.data)))))

/-- A report is encoded with its entries spelled as they are written. -/
theorem encode_eq_encodeAs (r : Report) :
    r.encode = encodeAs (r.log.map PeerDescriptor.encode) r := by
  simp only [encode, encodeBody, encodeAs, List.append_assoc, List.flatMap_def]

/-- However its entries are spelled, a report has no fewer bytes than the shortest one. -/
theorem minLength_le_encodeAs (spellings : List Bytes) (r : Report) :
    minLength ≤ (encodeAs spellings r).length := by
  simp only [encodeAs, encodeData, List.length_append, Digest.length_bytes, Block.length_toBytes,
    Bytes.length_littleEndian, minLength]
  omega

/-- A report is read from each of its spellings, and refused if anything follows. -/
theorem decode_encodeAs_append {spellings : List Bytes} {r : Report} (h : r.Sized)
    (hlog : Spelled spellings r.log) (rest : Bytes) :
    decode (encodeAs spellings r ++ rest) =
      if rest.isEmpty then .ok r else .error (.trailing rest.length) := by
  have hlength : ¬ (encodeAs spellings r ++ rest).length < minLength := by
    have hle := minLength_le_encodeAs spellings r
    rw [List.length_append]
    omega
  simp only [decode, if_neg hlength]
  simp only [encodeAs, List.append_assoc, takeDigest_append, takeLog_append hlog h.log_lt,
    takeBlock_append, takeData_append h.data_lt, bind, Except.bind]

/-- A report is read back from its wire form. -/
theorem decode_encode {r : Report} (h : r.Sized) : decode r.encode = .ok r := by
  have hread := decode_encodeAs_append h (spelled_encode r.log) []
  rwa [List.append_nil, ← encode_eq_encodeAs] at hread

/-! ## What was read stood in front -/

section Exact

variable {name : String} {bytes rest : Bytes}

/-- A block that was taken stood in front. -/
theorem eq_append_of_takeBlock {n : Nat} {block : Block n}
    (h : takeBlock n name bytes = .ok (block, rest)) : bytes = block.toBytes ++ rest := by
  unfold takeBlock at h
  split at h
  · cases h
    exact Block.eq_append_of_read? ‹_›
  · cases h

/-- A digest that was taken stood in front. -/
theorem eq_append_of_takeDigest {digest : Digest}
    (h : takeDigest name bytes = .ok (digest, rest)) : bytes = digest.bytes ++ rest := by
  unfold takeDigest at h
  split at h
  · rename_i hblock
    cases h
    exact eq_append_of_takeBlock hblock
  · cases h

/-- A number that was taken stood in front, and fits in its four bytes. -/
theorem eq_append_of_takeNumber {n : Nat} (h : takeNumber name bytes = .ok (n, rest)) :
    bytes = Bytes.littleEndian 4 n ++ rest ∧ n < UInt32.size := by
  unfold takeNumber at h
  split at h
  · rename_i block _ hblock
    cases h
    have hwrite := Bytes.littleEndian_ofLittleEndian block.toBytes
    have hlt := Bytes.ofLittleEndian_lt block.toBytes
    rw [block.length_toBytes] at hwrite hlt
    rw [hwrite]
    exact ⟨eq_append_of_takeBlock hblock, hlt⟩
  · cases h

/-- Entries that were taken stood in front, spelled in one way or another. -/
theorem exists_spelled_of_takeEntries {count : Nat} {log : List PeerDescriptor}
    (h : takeEntries count bytes = .ok (log, rest)) :
    ∃ spellings, Spelled spellings log ∧ log.length = count ∧
      bytes = spellings.flatten ++ rest := by
  induction count generalizing bytes log with
  | zero =>
    cases h
    exact ⟨[], .nil, rfl, rfl⟩
  | succ count ih =>
    unfold takeEntries at h
    split at h
    · cases h
    rename_i entry hentry
    split at h
    · rename_i hentries
      cases h
      obtain ⟨spellings, hspelled, hlength, hbytes⟩ := ih hentries
      refine ⟨_ :: spellings, .cons hentry hspelled, by rw [List.length_cons, hlength], ?_⟩
      rw [List.flatten_cons, List.append_assoc, ← hbytes, List.take_append_drop]
    · cases h

/-- A log that was taken stood in front, behind its length. -/
theorem exists_spelled_of_takeLog {log : List PeerDescriptor}
    (h : takeLog bytes = .ok (log, rest)) :
    ∃ spellings, Spelled spellings log ∧ log.length < UInt32.size ∧
      bytes = Bytes.littleEndian 4 log.length ++ (spellings.flatten ++ rest) := by
  unfold takeLog at h
  split at h
  · cases h
  rename_i hcount
  dsimp only at h
  split at h
  · cases h
  · obtain ⟨spellings, hspelled, rfl, rfl⟩ := exists_spelled_of_takeEntries h
    obtain ⟨hbytes, hlt⟩ := eq_append_of_takeNumber hcount
    exact ⟨spellings, hspelled, hlt, hbytes⟩

/-- Data that were taken stood in front, behind their length. -/
theorem eq_append_of_takeData {data : Bytes} (h : takeData bytes = .ok (data, rest)) :
    bytes = encodeData data ++ rest ∧ data.length < UInt32.size := by
  unfold takeData at h
  split at h
  · cases h
  rename_i hlength
  obtain ⟨hbytes, hlt⟩ := eq_append_of_takeNumber hlength
  split at h
  · rename_i block _ hblock
    cases h
    rw [encodeData, block.length_toBytes, List.append_assoc, ← eq_append_of_takeBlock hblock]
    exact ⟨hbytes, hlt⟩
  · cases h

/-- Two steps of decoding succeed if the first does, and the second on what it gives. -/
theorem bind_eq_ok {α β : Type} {x : Except WireFault α} {f : α → Except WireFault β} {b : β}
    (h : (x >>= f) = .ok b) : ∃ a, x = .ok a ∧ f a = .ok b := by
  cases x with
  | error fault => cases h
  | ok a => exact ⟨a, rfl, h⟩

/-- A report is read from its spellings only, and its lengths fit their fields. -/
theorem exists_encodeAs_of_decode {r : Report} (h : decode bytes = .ok r) :
    r.Sized ∧ ∃ spellings, Spelled spellings r.log ∧ bytes = encodeAs spellings r := by
  unfold decode at h
  dsimp only at h
  split at h
  · cases h
  obtain ⟨⟨digest, _⟩, hdigest, h⟩ := bind_eq_ok h
  obtain ⟨⟨history, _⟩, hhistory, h⟩ := bind_eq_ok h
  obtain ⟨⟨log, _⟩, hlog, h⟩ := bind_eq_ok h
  obtain ⟨⟨platform, _⟩, hplatform, h⟩ := bind_eq_ok h
  obtain ⟨⟨signature, _⟩, hsignature, h⟩ := bind_eq_ok h
  obtain ⟨⟨data, rest⟩, hdata, h⟩ := bind_eq_ok h
  dsimp only at hhistory hlog hplatform hsignature hdata h
  split at h
  · rename_i hrest
    cases h
    obtain ⟨spellings, hspelled, hlog_lt, hlog⟩ := exists_spelled_of_takeLog hlog
    obtain ⟨hdata, hdata_lt⟩ := eq_append_of_takeData hdata
    refine ⟨⟨hlog_lt, hdata_lt⟩, spellings, hspelled, ?_⟩
    rw [encodeAs, eq_append_of_takeDigest hdigest, eq_append_of_takeDigest hhistory, hlog,
      eq_append_of_takeDigest hplatform, eq_append_of_takeBlock hsignature, hdata,
      List.isEmpty_iff.mp hrest, List.append_nil]
  · cases h

/-- The lengths of a report that was read fit their fields. -/
theorem sized_of_decode {r : Report} (h : decode bytes = .ok r) : r.Sized :=
  (exists_encodeAs_of_decode h).1

end Exact

/-! ## What is signed -/

/-- A reader finds what was put in front of a byte string, whatever follows it. -/
theorem eq_of_reader {α : Type} {read : Bytes → Except WireFault (α × Bytes)} {a b : α}
    {whole whole' rest rest' : Bytes} (ha : read whole = .ok (a, rest))
    (hb : read whole' = .ok (b, rest')) (h : whole = whole') : a = b ∧ rest = rest' := by
  rw [h, hb] at ha
  cases ha
  exact ⟨rfl, rfl⟩

/-- The signed message in its fields, in front of what follows it. -/
theorem signedMessage_append (r : Report) (rest : Bytes) :
    r.signedMessage ++ rest = r.digest.bytes ++ (r.history.bytes ++
      (Bytes.littleEndian 4 r.log.length ++ ((r.log.map PeerDescriptor.encode).flatten ++
        (r.platform.bytes ++ (encodeData r.data ++ rest))))) := by
  simp only [signedMessage, encodeBody, List.append_assoc, List.flatMap_def]

/-- Two reports whose signed messages start one byte string differ in their signatures at most. -/
theorem signedMessage_append_inj {r r' : Report} {rest rest' : Bytes} (h : r.Sized)
    (h' : r'.Sized) (hmessage : r.signedMessage ++ rest = r'.signedMessage ++ rest') :
    (r.digest = r'.digest ∧ r.history = r'.history ∧ r.log = r'.log ∧ r.platform = r'.platform ∧
      r.data = r'.data) ∧ rest = rest' := by
  rw [signedMessage_append, signedMessage_append] at hmessage
  obtain ⟨hdigest, hmessage⟩ := eq_of_reader (@takeDigest_append "digest" _ r.digest)
    (takeDigest_append r'.digest) hmessage
  obtain ⟨hhistory, hmessage⟩ := eq_of_reader (@takeDigest_append "hash history" _ r.history)
    (takeDigest_append r'.history) hmessage
  obtain ⟨hlog, hmessage⟩ := eq_of_reader (takeLog_append (spelled_encode r.log) h.log_lt)
    (takeLog_append (spelled_encode r'.log) h'.log_lt) hmessage
  obtain ⟨hplatform, hmessage⟩ :=
    eq_of_reader (@takeDigest_append "platform digest" _ r.platform)
      (takeDigest_append r'.platform) hmessage
  obtain ⟨hdata, hrest⟩ := eq_of_reader (takeData_append h.data_lt) (takeData_append h'.data_lt)
    hmessage
  exact ⟨⟨hdigest, hhistory, hlog, hplatform, hdata⟩, hrest⟩

/-- Two reports with the same signed message differ in their signatures at most. -/
theorem signedMessage_inj {r r' : Report} (h : r.Sized) (h' : r'.Sized)
    (hmessage : r.signedMessage = r'.signedMessage) :
    r.digest = r'.digest ∧ r.history = r'.history ∧ r.log = r'.log ∧ r.platform = r'.platform ∧
      r.data = r'.data := by
  have happend : r.signedMessage ++ [] = r'.signedMessage ++ [] := by rw [hmessage]
  exact (signedMessage_append_inj h h' happend).1

/-- Two reports that say the same: what is compared is each field but the signature, and the logs
entry by entry. -/
structure Concurs (r r' : Report) : Prop where
  digest : r.digest = r'.digest
  history : r.history = r'.history
  log : List.Forall₂ (fun entry entry' : PeerDescriptor => entry.peer = entry'.peer ∧
    entry.event = entry'.event ∧ entry.reference.text = entry'.reference.text) r.log r'.log
  platform : r.platform = r'.platform
  data : r.data = r'.data

/-- Entries that agree in their three parts are the same. -/
theorem Concurs.log_eq {r r' : Report} (h : r.Concurs r') : r.log = r'.log := by
  apply List.forall₂_eq_eq_eq ▸ h.log.imp ?_
  rintro ⟨peer, event, reference⟩ ⟨peer', event', reference'⟩ ⟨rfl, rfl, htext⟩
  exact congrArg (PeerDescriptor.mk peer event) (Reference.ext_text htext)

/-- The signed message determines the report up to its signature. Take two reports whose lengths
fit their fields, such as any two that were read from bytes. They have the same message just when
they say the same, and then they differ in their signatures at most. Neither message is a proper
start of the other, so nothing can be moved out of one of its parts into the next, or behind it. -/
theorem signedMessage_determines {r r' : Report}
    (h : r.Sized ∨ ∃ bytes, decode bytes = .ok r) (h' : r'.Sized ∨ ∃ bytes, decode bytes = .ok r') :
    (r.signedMessage = r'.signedMessage ↔ r.Concurs r') ∧
      (r.signedMessage <+: r'.signedMessage → r.signedMessage = r'.signedMessage) ∧
      (r.Concurs r' ↔ r' = { r with signature := r'.signature }) := by
  have hsized : r.Sized := h.elim id fun ⟨_, hdecode⟩ => sized_of_decode hdecode
  have hsized' : r'.Sized := h'.elim id fun ⟨_, hdecode⟩ => sized_of_decode hdecode
  have hresigned : r.Concurs r' → r' = { r with signature := r'.signature } := by
    intro hconcurs
    have hlog := hconcurs.log_eq
    obtain ⟨hdigest, hhistory, -, hplatform, hdata⟩ := hconcurs
    rw [hdigest, hhistory, hlog, hplatform, hdata]
  have hsame : r' = { r with signature := r'.signature } → r.signedMessage = r'.signedMessage := by
    intro heq
    rw [heq]
    rfl
  have hconcurs : r.signedMessage = r'.signedMessage → r.Concurs r' := by
    intro hmessage
    obtain ⟨hdigest, hhistory, hlog, hplatform, hdata⟩ := signedMessage_inj hsized hsized' hmessage
    refine ⟨hdigest, hhistory, ?_, hplatform, hdata⟩
    rw [hlog]
    apply List.forall₂_same.mpr
    intro entry _
    exact ⟨rfl, rfl, rfl⟩
  refine ⟨⟨hconcurs, hsame ∘ hresigned⟩, ?_, ⟨hresigned, hconcurs ∘ hsame⟩⟩
  rintro ⟨rest, hstarts⟩
  have happend : r.signedMessage ++ rest = r'.signedMessage ++ [] := by
    rw [hstarts, List.append_nil]
  have hempty := (signedMessage_append_inj hsized hsized' happend).2
  rw [← hstarts, hempty, List.append_nil]

/-- A log entry that is moved into the data leaves the message as long as it was, yet it becomes
another message. A report that is signed again keeps its message. -/
theorem signedMessage_determines_shifted :
    let digest : Digest := ⟨⟨List.replicate 64 1, rfl⟩⟩
    let entry : PeerDescriptor := ⟨⟨1, 1⟩, .connect, ⟨"b", by decide, by decide⟩⟩
    let r : Report := ⟨digest, digest, [entry], digest, ⟨List.replicate 64 2, rfl⟩, []⟩
    let shifted : Report := { r with log := [], data := entry.encode }
    let resigned : Report := { r with signature := ⟨List.replicate 64 3, rfl⟩ }
    r.Sized ∧ shifted.Sized ∧ resigned.Sized ∧ r ≠ resigned ∧
      r.signedMessage.length = shifted.signedMessage.length ∧
      r.signedMessage ≠ shifted.signedMessage ∧ r.signedMessage = resigned.signedMessage := by
  intro digest entry r shifted resigned
  have hr : r.Sized := ⟨by decide, by decide⟩
  have hshifted : shifted.Sized := by
    refine ⟨by decide, ?_⟩
    rw [show shifted.data = entry.encode from rfl, PeerDescriptor.length_encode]
    decide
  have hresigned : resigned.Sized := ⟨by decide, by decide⟩
  refine ⟨hr, hshifted, hresigned, by decide, by decide +kernel, ?_, ?_⟩
  · intro hmessage
    have hconcurs := (signedMessage_determines (.inl hr) (.inl hshifted)).1.mp hmessage
    cases hconcurs.log
  · have hdetermines := signedMessage_determines (.inl hr) (.inl hresigned)
    exact hdetermines.1.mpr (hdetermines.2.2.mpr rfl)

end Report

end Enclaves

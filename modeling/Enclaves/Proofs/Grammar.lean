import Enclaves.Proofs.Cursor

/-!
# The grammar of reports

Which byte strings are reports, and which report each of them is, said without the reader: a
`WireReport` lists the parts of a byte string in order, `Proper` is what the parts must satisfy, and
`Reads` says which report has them. The reader accepts exactly the byte strings that have proper
parts, and answers the report that they read (`decode_eq_ok_iff`).

The parts of an entry are more than the entry. Seven bytes are reserved, and of the field for the
reference only what stands before its first zero counts. So an entry has many spellings and a report
with entries has many too; the writer produces the one in which all of these bytes are zero
(`WireReport.Reads.encode_eq`). Everything else in a byte string is part of the report.

No report is a proper prefix of another one, whatever its spelling (`decode_append`), since a reader
that has found a whole report refuses whatever follows it.
-/

namespace Enclaves

/-! ## Entries -/

/-- The parts of an entry on the wire. -/
structure WireEntry where
  index : Block 4
  generation : Block 4
  code : UInt8
  reserved : Block 7
  /-- The reference field in front of its first zero. -/
  text : Bytes
  /-- The reference field behind that zero. -/
  rest : Bytes

namespace WireEntry

/-- The reference field. -/
def field (w : WireEntry) : Bytes := w.text ++ 0 :: w.rest

def bytes (w : WireEntry) : Bytes :=
  w.index.toBytes ++ (w.generation.toBytes ++ (w.code :: (w.reserved.toBytes ++ w.field)))

/-- What the parts of an entry must satisfy. -/
structure Proper (w : WireEntry) : Prop where
  code : w.code = 1 ∨ w.code = 2
  length_field : w.field.length = 256
  /-- The zero behind the text is the first one. -/
  no_zero : (0 : UInt8) ∉ w.text
  utf8 : ∃ text, Utf8.encode text = w.text

/-- The entry that has these parts. -/
structure Reads (w : WireEntry) (d : PeerDescriptor) : Prop where
  index : d.peer.index.toNat = Bytes.ofLittleEndian w.index.toBytes
  generation : d.peer.generation.toNat = Bytes.ofLittleEndian w.generation.toBytes
  event : d.event.code = w.code
  reference : d.reference.bytes = w.text

/-- The parts with zeros for all that means nothing. -/
def cleared (w : WireEntry) : WireEntry :=
  { w with reserved := ⟨Bytes.zeros 7, by simp⟩, rest := Bytes.zeros w.rest.length }

variable {w : WireEntry} {d : PeerDescriptor}

/-- A proper entry takes its fixed number of bytes. -/
theorem length_bytes (h : w.Proper) : w.bytes.length = PeerDescriptor.wireLength := by
  simp only [bytes, List.length_append, List.length_cons, Block.length_toBytes, h.length_field]
  rfl

/-- Every proper choice of parts is some entry. -/
theorem Proper.exists_reads (h : w.Proper) : ∃ d, w.Reads d := by
  obtain ⟨text, htext⟩ := h.utf8
  have hlength := h.length_field
  rw [field, List.length_append, List.length_cons, ← htext] at hlength
  have hevent : ∃ event : Event, event.code = w.code := by
    rcases h.code with hcode | hcode
    · exact ⟨.connect, hcode.symm⟩
    · exact ⟨.disconnect, hcode.symm⟩
  obtain ⟨event, hevent⟩ := hevent
  have hword (block : Block 4) : (UInt32.ofNat (Bytes.ofLittleEndian block.toBytes)).toNat =
      Bytes.ofLittleEndian block.toBytes := by
    have hlt := Bytes.ofLittleEndian_lt block.toBytes
    rw [block.length_toBytes] at hlt
    exact UInt32.toNat_ofNat_of_lt' hlt
  exact ⟨⟨⟨.ofNat (Bytes.ofLittleEndian w.index.toBytes),
    .ofNat (Bytes.ofLittleEndian w.generation.toBytes)⟩, event,
      ⟨text, by rw [referenceMax]; omega, htext ▸ h.no_zero⟩⟩,
    hword _, hword _, hevent, htext⟩

/-- The reader of entries finds the parts. -/
theorem Reads.decode_eq (h : w.Reads d) (hproper : w.Proper) :
    PeerDescriptor.decode w.bytes = .ok d := by
  have hlength := length_bytes hproper
  have hindex : w.bytes.slice 0 4 = w.index.toBytes :=
    Bytes.slice_append_left w.index.length_toBytes
  have hgeneration : w.bytes.slice 4 8 = w.generation.toBytes :=
    Bytes.slice_append_middle w.index.length_toBytes (by rw [Block.length_toBytes])
  have hcode : w.bytes.getD 8 0 = w.code := by
    simp [bytes, List.getElem?_append]
  have hfield : w.bytes.drop (8 + 1 + PeerDescriptor.reserved) = w.field := by
    simp [bytes, List.drop_append, List.drop_of_length_le, PeerDescriptor.reserved]
  have hword {word : UInt32} {block : Block 4}
      (heq : word.toNat = Bytes.ofLittleEndian block.toBytes) :
      UInt32.ofNat (Bytes.ofLittleEndian block.toBytes) = word := by
    rw [← heq, UInt32.ofNat_toNat]
  have hreference := @PeerDescriptor.decodeField_append d.reference (0 :: w.rest) (by simp)
  rw [h.reference] at hreference
  simp only [PeerDescriptor.decode, hlength, ne_eq, not_true_eq_false, if_false, Nat.zero_add,
    hindex, hgeneration, hcode, hfield, hword h.index, hword h.generation, field, hreference,
    Event.ofCode?_eq_some_iff.mpr h.event.symm]

/-- A field that is read holds a zero, and the reference stands in front of the first one. -/
theorem exists_of_decodeField {field : Bytes} {reference : Reference}
    (h : PeerDescriptor.decodeField field = .ok reference) (hlength : field.length = 256) :
    ∃ rest, field = reference.bytes ++ 0 :: rest := by
  unfold PeerDescriptor.decodeField at h
  dsimp only at h
  split at h
  · cases h
  rename_i hshort
  split at h
  · cases h
  rename_i text hdecode
  split at h
  · cases h
  rename_i hreference
  cases h
  have htext : reference.bytes = field.takeWhile (· ≠ 0) := by
    rw [Reference.bytes, Reference.text_of_ofString hreference, Utf8.encode_of_decode hdecode]
  have hhead := List.head?_dropWhile_not (· ≠ (0 : UInt8)) field
  have hfield := @List.takeWhile_append_dropWhile _ (· ≠ (0 : UInt8)) field
  cases hrest : field.dropWhile (· ≠ 0) with
  | nil =>
    -- the text would fill the field
    rw [hrest, List.append_nil] at hfield
    rw [hfield, hlength] at hshort
    exact absurd (by decide) hshort
  | cons byte rest =>
    rw [hrest] at hhead hfield
    obtain rfl : byte = 0 := by simpa using hhead
    exact ⟨rest, by rw [htext, hfield]⟩

/-- Whatever the reader of entries accepts has proper parts. -/
theorem exists_of_decode {bytes : Bytes} (h : PeerDescriptor.decode bytes = .ok d) :
    ∃ w : WireEntry, w.Proper ∧ w.Reads d ∧ w.bytes = bytes := by
  unfold PeerDescriptor.decode at h
  dsimp only at h
  split at h
  · cases h
  rename_i hlength
  have hlength : bytes.length = 272 := Decidable.not_not.mp hlength
  split at h
  · cases h
  rename_i event hevent
  split at h
  · cases h
  rename_i reference hfield
  cases h
  obtain ⟨rest, hrest⟩ := exists_of_decodeField hfield (by simp [hlength, PeerDescriptor.reserved])
  have hcode := Event.ofCode?_eq_some_iff.mp hevent
  have hword {block : Bytes} (hblock : block.length = 4) :
      (UInt32.ofNat (Bytes.ofLittleEndian block)).toNat = Bytes.ofLittleEndian block := by
    have hlt := Bytes.ofLittleEndian_lt block
    rw [hblock] at hlt
    exact UInt32.toNat_ofNat_of_lt' hlt
  have hindex : (bytes.slice 0 4).length = 4 := Bytes.length_slice (by omega)
  have hgeneration : (bytes.slice 4 8).length = 4 := Bytes.length_slice (by omega)
  have hreserved : (bytes.slice 9 16).length = 7 := Bytes.length_slice (by omega)
  have hparts : bytes.slice 0 4 ++ (bytes.slice 4 8 ++ (bytes.getD 8 0 :: (bytes.slice 9 16 ++
      bytes.drop (8 + 1 + PeerDescriptor.reserved)))) = bytes := by
    rw [PeerDescriptor.reserved, Bytes.slice_append_drop (by decide),
      ← Bytes.drop_eq_cons (by omega), Bytes.slice_append_drop (by decide),
      Bytes.slice_append_drop (by decide), List.drop_zero]
  refine ⟨⟨⟨_, hindex⟩, ⟨_, hgeneration⟩, bytes.getD 8 0, ⟨_, hreserved⟩, reference.bytes, rest⟩,
    ?_, ?_, ?_⟩
  · refine ⟨?_, ?_, reference.no_zero, reference.text, rfl⟩
    · rw [hcode]
      cases event
      · exact .inl rfl
      · exact .inr rfl
    · rw [field, ← hrest, List.length_drop, hlength]
      rfl
  · exact ⟨hword hindex, hword hgeneration, hcode.symm, rfl⟩
  · rw [hrest] at hparts
    exact hparts

/-- The writer of entries puts zeros for all that means nothing. -/
theorem Reads.encode_eq (h : w.Reads d) (hproper : w.Proper) : d.encode = w.cleared.bytes := by
  have hblock {word : UInt32} {block : Block 4}
      (heq : word.toNat = Bytes.ofLittleEndian block.toBytes) :
      Bytes.littleEndian 4 word.toNat = block.toBytes := by
    have hread := Bytes.littleEndian_ofLittleEndian block.toBytes
    rwa [block.length_toBytes, ← heq] at hread
  have hzeros : Bytes.padTo PeerDescriptor.fieldLength w.text =
      w.text ++ 0 :: Bytes.zeros w.rest.length := by
    have hlength := hproper.length_field
    rw [field, List.length_append, List.length_cons] at hlength
    have hcount : PeerDescriptor.fieldLength - w.text.length = w.rest.length + 1 := by
      simp only [PeerDescriptor.fieldLength, referenceMax]
      omega
    rw [Bytes.padTo, hcount, Bytes.zeros, List.replicate_succ]
    rfl
  simp only [PeerDescriptor.encode, hblock h.index, hblock h.generation, h.event, h.reference,
    hzeros, bytes, cleared, field, PeerDescriptor.reserved, List.append_assoc, List.cons_append]

/-- Proper entries spell the log that they are read as. -/
theorem spelled {entries : List WireEntry} {log : List PeerDescriptor}
    (h : List.Forall₂ Reads entries log) (hproper : ∀ w ∈ entries, w.Proper) :
    Report.Spelled (entries.map bytes) log := by
  induction h with
  | nil => exact .nil
  | cons hentry _ ih =>
    have hforall := List.forall_mem_cons.mp hproper
    exact .cons (hentry.decode_eq hforall.1) (ih hforall.2)

/-- Whatever spells a log consists of proper entries. -/
theorem exists_of_spelled {spellings : List Bytes} {log : List PeerDescriptor}
    (h : Report.Spelled spellings log) :
    ∃ entries : List WireEntry, (∀ w ∈ entries, w.Proper) ∧ List.Forall₂ Reads entries log ∧
      entries.map bytes = spellings := by
  induction h with
  | nil => exact ⟨[], by simp, .nil, rfl⟩
  | cons hentry _ ih =>
    obtain ⟨w, hproper, hreads, rfl⟩ := exists_of_decode hentry
    obtain ⟨entries, hentries, hlog, rfl⟩ := ih
    exact ⟨w :: entries, List.forall_mem_cons.mpr ⟨hproper, hentries⟩, .cons hreads hlog, rfl⟩

/-- Proper entries are read as some log. -/
theorem exists_forall₂_reads {entries : List WireEntry} (hproper : ∀ w ∈ entries, w.Proper) :
    ∃ log, List.Forall₂ Reads entries log := by
  induction entries with
  | nil => exact ⟨[], .nil⟩
  | cons w entries ih =>
    obtain ⟨hw, hentries⟩ := List.forall_mem_cons.mp hproper
    obtain ⟨d, hd⟩ := hw.exists_reads
    obtain ⟨log, hlog⟩ := ih hentries
    exact ⟨d :: log, .cons hd hlog⟩

/-- Written again, a log has the entries it was read from with the idle bytes cleared. -/
theorem map_encode_eq {entries : List WireEntry} {log : List PeerDescriptor}
    (h : List.Forall₂ Reads entries log) (hproper : ∀ w ∈ entries, w.Proper) :
    log.map PeerDescriptor.encode = (entries.map cleared).map bytes := by
  induction h with
  | nil => rfl
  | cons hentry _ ih =>
    have hforall := List.forall_mem_cons.mp hproper
    rw [List.map_cons, List.map_cons, List.map_cons, hentry.encode_eq hforall.1, ih hforall.2]

end WireEntry

/-! ## Reports -/

/-- The parts of a report on the wire. The numbers of its entries and of its data bytes are not
among them: each is written in front of what it counts. -/
structure WireReport where
  digest : Block 64
  history : Block 64
  entries : List WireEntry
  platform : Block 64
  signature : Block 64
  data : Bytes

namespace WireReport

def bytes (w : WireReport) : Bytes :=
  w.digest.toBytes ++ (w.history.toBytes ++ (Bytes.littleEndian 4 w.entries.length ++
    ((w.entries.map WireEntry.bytes).flatten ++ (w.platform.toBytes ++ (w.signature.toBytes ++
      (Bytes.littleEndian 4 w.data.length ++ w.data))))))

/-- What the parts of a report must satisfy: both numbers fit, and the entries are proper. -/
structure Proper (w : WireReport) : Prop where
  entries_lt : w.entries.length < UInt32.size
  data_lt : w.data.length < UInt32.size
  entries : ∀ entry ∈ w.entries, entry.Proper

/-- The report that has these parts. -/
structure Reads (w : WireReport) (r : Report) : Prop where
  digest : r.digest.bytes = w.digest.toBytes
  history : r.history.bytes = w.history.toBytes
  log : List.Forall₂ WireEntry.Reads w.entries r.log
  platform : r.platform.bytes = w.platform.toBytes
  signature : r.signature = w.signature
  data : r.data = w.data

/-- The parts with zeros for all that means nothing. -/
def cleared (w : WireReport) : WireReport := { w with entries := w.entries.map WireEntry.cleared }

variable {w : WireReport} {r : Report}

/-- Every proper choice of parts is some report. -/
theorem Proper.exists_reads (h : w.Proper) : ∃ r, w.Reads r := by
  obtain ⟨log, hlog⟩ := WireEntry.exists_forall₂_reads h.entries
  exact ⟨⟨⟨w.digest⟩, ⟨w.history⟩, log, ⟨w.platform⟩, w.signature, w.data⟩,
    rfl, rfl, hlog, rfl, rfl, rfl⟩

/-- A proper report fits its length fields once it is read. -/
theorem Reads.sized (h : w.Reads r) (hproper : w.Proper) : r.Sized where
  log_lt := h.log.length_eq ▸ hproper.entries_lt
  data_lt := h.data ▸ hproper.data_lt

/-- The parts are a spelling of their report. -/
theorem Reads.bytes_eq (h : w.Reads r) :
    w.bytes = r.encodeAs (w.entries.map WireEntry.bytes) := by
  rw [bytes, Report.encodeAs, Report.encodeData, h.digest, h.history, h.log.length_eq, h.platform,
    h.signature, h.data]

/-- The writer puts zeros for all that means nothing. -/
theorem Reads.encode_eq (h : w.Reads r) (hproper : w.Proper) : r.encode = w.cleared.bytes := by
  rw [Report.encode_eq_encodeAs, WireEntry.map_encode_eq h.log hproper.entries, bytes,
    Report.encodeAs, Report.encodeData, h.digest, h.history, ← h.log.length_eq, h.platform,
    h.signature, h.data, cleared, List.length_map]

/-- The reader finds the parts, and refuses whatever follows them. -/
theorem Reads.decode_append (h : w.Reads r) (hproper : w.Proper) (rest : Bytes) :
    Report.decode (w.bytes ++ rest) =
      if rest.isEmpty then .ok r else .error (.trailing rest.length) := by
  rw [h.bytes_eq]
  exact Report.decode_encodeAs_append (h.sized hproper)
    (WireEntry.spelled h.log hproper.entries) rest

end WireReport

namespace Report

variable {bytes : Bytes} {r : Report}

/-- The reader accepts the byte strings with proper parts, each as the report that they read. -/
theorem decode_eq_ok_iff :
    decode bytes = .ok r ↔ ∃ w : WireReport, w.Proper ∧ w.Reads r ∧ w.bytes = bytes := by
  constructor
  · intro h
    obtain ⟨hsized, spellings, hspelled, rfl⟩ := exists_encodeAs_of_decode h
    obtain ⟨entries, hproper, hlog, rfl⟩ := WireEntry.exists_of_spelled hspelled
    have hreads : WireReport.Reads
        ⟨r.digest.block, r.history.block, entries, r.platform.block, r.signature, r.data⟩ r :=
      ⟨rfl, rfl, hlog, rfl, rfl, rfl⟩
    exact ⟨_, ⟨hlog.length_eq ▸ hsized.log_lt, hsized.data_lt, hproper⟩, hreads, hreads.bytes_eq⟩
  · rintro ⟨w, hproper, hreads, rfl⟩
    have h := hreads.decode_append hproper []
    rwa [List.append_nil] at h

/-- Nothing may follow a report. -/
theorem decode_append (h : decode bytes = .ok r) {rest : Bytes} (hrest : rest ≠ []) :
    decode (bytes ++ rest) = .error (.trailing rest.length) := by
  obtain ⟨w, hproper, hreads, rfl⟩ := decode_eq_ok_iff.mp h
  rw [hreads.decode_append hproper, if_neg (by rwa [List.isEmpty_iff])]

/-- What accepts a report accepts nothing longer: no report is a proper prefix of another one. -/
theorem eq_of_prefix {other : Bytes} {r' : Report} (h : decode bytes = .ok r)
    (h' : decode other = .ok r') (hpart : bytes <+: other) : bytes = other := by
  obtain ⟨rest, rfl⟩ := hpart
  by_contra hne
  have hrest : rest ≠ [] := fun hnil => hne (by rw [hnil, List.append_nil])
  rw [decode_append h hrest] at h'
  cases h'

end Report

/-- A report with one entry, with a byte that is not zero in each place that means nothing. -/
def spotted : WireReport where
  digest := ⟨Bytes.zeros 64, by simp⟩
  history := ⟨Bytes.zeros 64, by simp⟩
  entries := [⟨⟨Bytes.zeros 4, by simp⟩, ⟨Bytes.zeros 4, by simp⟩, 1, ⟨1 :: Bytes.zeros 6, by simp⟩,
    [], 1 :: Bytes.zeros 254⟩]
  platform := ⟨Bytes.zeros 64, by simp⟩
  signature := ⟨Bytes.zeros 64, by simp⟩
  data := []

theorem spotted_proper : spotted.Proper where
  entries_lt := by decide
  data_lt := by decide
  entries := by
    intro entry hmem
    obtain rfl := List.mem_singleton.mp hmem
    exact ⟨.inl rfl, by simp [WireEntry.field], by simp, "", rfl⟩

/-- The reader of reports accepts exactly its grammar: a byte string is the report `r` if it
consists of proper parts that read `r`, and of nothing more. Writing that report again gives the
same parts with zeros in the reserved bytes and behind the first zero of each reference field.

So a report with lengths that fit is read back from its wire form, and neither a beginning nor a
continuation of that is a report. The reader that keeps a position and cuts slices comes to the same
end on every byte string, with no step out of range. -/
theorem reports_follow_grammar :
    (∀ bytes r, Report.decode bytes = .ok r ↔
      ∃ w : WireReport, w.Proper ∧ w.Reads r ∧ w.bytes = bytes) ∧
    (∀ w : WireReport, w.Proper →
      ∃ r, w.Reads r ∧ Report.decode w.bytes = .ok r ∧ r.encode = w.cleared.bytes) ∧
    (∀ r : Report, r.Sized → Report.decode r.encode = .ok r ∧
      ∀ other, other ≠ r.encode → other <+: r.encode ∨ r.encode <+: other →
        ∃ fault, Report.decode other = .error fault) ∧
    (∀ bytes, (Report.decodeAt bytes).run = some (Report.decode bytes)) := by
  refine ⟨fun bytes r => Report.decode_eq_ok_iff, ?_, ?_, Report.decodeAt_eq⟩
  · intro w hproper
    obtain ⟨r, hreads⟩ := hproper.exists_reads
    exact ⟨r, hreads, Report.decode_eq_ok_iff.mpr ⟨w, hproper, hreads, rfl⟩,
      hreads.encode_eq hproper⟩
  · intro r hsized
    have hread := Report.decode_encode hsized
    refine ⟨hread, ?_⟩
    intro other hne hpart
    cases hother : Report.decode other with
    | error fault => exact ⟨fault, rfl⟩
    | ok r' =>
      obtain hpart | hpart := hpart
      · exact absurd (Report.eq_of_prefix hother hread hpart) hne
      · exact absurd (Report.eq_of_prefix hread hother hpart).symm hne

/-- A report that is accepted though bytes in it are not those that the writer puts out. -/
theorem reports_follow_grammar_spotted :
    spotted.Proper ∧ ∃ r, spotted.Reads r ∧ Report.decode spotted.bytes = .ok r ∧
      r.encode = spotted.cleared.bytes ∧ r.Sized ∧ Report.decode r.encode = .ok r ∧
        ∃ fault, Report.decode (r.encode ++ [0]) = .error fault := by
  obtain ⟨-, haccepts, hback, -⟩ := reports_follow_grammar
  obtain ⟨r, hreads, hdecode, hencode⟩ := haccepts spotted spotted_proper
  have hsized := hreads.sized spotted_proper
  obtain ⟨hread, hother⟩ := hback r hsized
  exact ⟨spotted_proper, r, hreads, hdecode, hencode, hsized, hread,
    hother (r.encode ++ [0]) (by simp) (.inr (List.prefix_append _ _))⟩

end Enclaves

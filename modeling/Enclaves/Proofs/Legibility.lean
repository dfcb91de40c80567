import Enclaves.Proofs.Accord

/-!
# Reports that are read back

A report is read back from its wire form exactly if its log and its data have lengths that fit their
fields (`Report.legible_iff`). Whatever a monitor issues, the data fits, for no configuration is
accepted in which it might not. The log fits as long as it has fewer entries than the field can
count, which the configured capacity may well exceed (`issued_reports_are_legible`).

Logs do get full: two enclaves can be connected and disconnected in turn until they are
(`Acquaintances.perform`). So there is an accepted configuration and a run in it after which a
report is issued that says its log is empty, and that is not read back
(`overlong_report_is_not_read_back`).
-/

namespace Enclaves

namespace Report

/-! ## The length fields -/

/-- Where the length of the data stands in the wire form: behind two digests, the log with its
number of entries, another digest and the signature. -/
def dataStart (r : Report) : Nat := 132 + r.log.length * PeerDescriptor.wireLength + 128

/-- The number of log entries that a wire form states. -/
def statedEntries (r : Report) : Nat := Bytes.ofLittleEndian (r.encode.slice 128 132)

/-- The length of the data that a wire form states. -/
def statedLength (r : Report) : Nat :=
  Bytes.ofLittleEndian (r.encode.slice r.dataStart (r.dataStart + 4))

/-- The length field states the number of entries as far as it has bits for it. -/
theorem statedEntries_eq (r : Report) : r.statedEntries = r.log.length % UInt32.size := by
  have hencode : r.encode = (r.digest.bytes ++ r.history.bytes) ++
      (Bytes.littleEndian 4 r.log.length ++ (r.log.flatMap PeerDescriptor.encode ++
        (r.platform.bytes ++ (r.signature.toBytes ++ encodeData r.data)))) := by
    simp only [encode, encodeBody, List.append_assoc]
  rw [statedEntries, hencode, Bytes.slice_append_middle (by simp) (by simp),
    Bytes.ofLittleEndian_littleEndian]

/-- So does the one of the data section. -/
theorem statedLength_eq (r : Report) : r.statedLength = r.data.length % UInt32.size := by
  have hentries : (r.log.flatMap PeerDescriptor.encode).length =
      r.log.length * PeerDescriptor.wireLength := by
    rw [List.flatMap_def]
    exact (spelled_encode r.log).length_flatten
  have hencode : r.encode = (r.digest.bytes ++ r.history.bytes ++
      Bytes.littleEndian 4 r.log.length ++ r.log.flatMap PeerDescriptor.encode ++
        r.platform.bytes ++ r.signature.toBytes) ++
          (Bytes.littleEndian 4 r.data.length ++ r.data) := by
    simp only [encode, encodeBody, encodeData, List.append_assoc]
  have hstart : (r.digest.bytes ++ r.history.bytes ++ Bytes.littleEndian 4 r.log.length ++
      r.log.flatMap PeerDescriptor.encode ++ r.platform.bytes ++ r.signature.toBytes).length =
        r.dataStart := by
    simp only [List.length_append, hentries, Digest.length_bytes, Block.length_toBytes,
      Bytes.length_littleEndian, dataStart]
  rw [statedLength, hencode, Bytes.slice_append_middle hstart (by simp),
    Bytes.ofLittleEndian_littleEndian]

/-- A report whose wire form states the true lengths and is read back. -/
structure Legible (r : Report) : Prop where
  entries_eq : r.statedEntries = r.log.length
  length_eq : r.statedLength = r.data.length
  decode_eq : decode r.encode = .ok r

/-- Such are the reports whose lengths fit their fields. -/
theorem legible_iff (r : Report) : r.Legible ↔ r.Sized := by
  constructor
  · intro h
    exact sized_of_decode h.decode_eq
  · intro h
    refine ⟨?_, ?_, decode_encode h⟩
    · rw [statedEntries_eq, Nat.mod_eq_of_lt h.log_lt]
    · rw [statedLength_eq, Nat.mod_eq_of_lt h.data_lt]

end Report

namespace Monitor

variable {m m' : Monitor} {config : Config} {platform : Platform} {identity : Identity}
  {a b id : EnclaveId} {e eA eB : Enclave} {n : Nat} {report : Report}

/-! ## Issued reports -/

/-- A report that was issued in a configuration. -/
structure Issued (config : Config) (report : Report) : Prop where
  log_le : report.log.length ≤ config.logCapacity
  statedEntries_eq : report.statedEntries = report.log.length % UInt32.size
  statedLength_eq : report.statedLength = report.data.length
  legible_iff : report.Legible ↔ report.log.length < UInt32.size

/-- What is known of a report is known of every one that a monitor issues. -/
theorem Founded.issued (h : Founded config identity m) (hvalid : config.Valid) {data : Bytes}
    (hattest : m.attest id data = .ok report) : Issued config report := by
  obtain ⟨hlog, hdata⟩ := h.lengths_of_attest hvalid hattest
  refine ⟨hlog, report.statedEntries_eq, ?_, ?_⟩
  · rw [report.statedLength_eq, Nat.mod_eq_of_lt hdata]
  · rw [report.legible_iff]
    exact ⟨Report.Sized.log_lt, fun hlog => ⟨hlog, hdata⟩⟩

/-- With every configuration that is accepted, after every run: a report that is issued states the
true length of its data, and it is read back unless its log is longer than it can state. -/
theorem issued_reports_are_legible (hstart : Monitor.start config platform identity = .ok m)
    (acts : List Act) (id : EnclaveId) (data : Bytes) (report : Report)
    (h : (m.perform acts).attest id data = .ok report) : Issued config report :=
  (Founded.of_start hstart acts).issued (valid_of_start hstart) h

/-- The report of an enclave that is finalized. -/
theorem issued_reports_are_legible_default :
    let acts : List Act := [.call (.allocate 3), .call (.setReference ⟨0, 1⟩ "a"),
      .call (.finalize ⟨0, 1⟩ ⟨0x80000000, 0x80001000, 0x80002000, 0x80003000⟩)]
    ∃ m, Monitor.start {} .initial ⟨⟨⟨List.replicate 32 7, rfl⟩⟩, ⟨⟨List.replicate 64 9, rfl⟩⟩⟩ =
        .ok m ∧
      ∃ report, (m.perform acts).attest ⟨0, 1⟩ [5, 6] = .ok report ∧ Issued {} report := by
  intro acts
  obtain ⟨m, hstart⟩ : ∃ m, Monitor.start {} .initial
    ⟨⟨⟨List.replicate 32 7, rfl⟩⟩, ⟨⟨List.replicate 64 9, rfl⟩⟩⟩ = .ok m := ⟨_, rfl⟩
  obtain ⟨report, hattest⟩ : ∃ report, (m.perform acts).attest ⟨0, 1⟩ [5, 6] = .ok report := by
    cases hstart
    exact ⟨_, rfl⟩
  exact ⟨m, hstart, report, hattest, issued_reports_are_legible hstart acts _ _ _ hattest⟩

/-! ## Logs that get full -/

/-- The next event between two enclaves that met some number of times. -/
def turn (n : Nat) : Event := if n % 2 = 0 then .connect else .disconnect

/-- An enclave that met a peer some number of times, in turn to connect and to disconnect. -/
structure Acquainted (m : Monitor) (id peer : EnclaveId) (n : Nat) (e : Enclave) : Prop where
  live : m.enclave? id = some e
  state_eq : e.state = .finalized
  reference_ne : e.reference ≠ none
  length_eq : e.log.entries.length = n
  linked_iff : peer ∈ e.peers ↔ n % 2 = 1
  maps : m.platform.refusesMaps id = false

/-- While there is room in their logs, they can meet another time. -/
theorem Reachable.done_turn (h : m.Reachable) (hne : a ≠ b) (hA : m.Acquainted a b n eA)
    (hB : m.Acquainted b a n eB) (hpages : 0 < m.config.connectorPages)
    (hroom : n < m.config.logCapacity) : (m.step (.meeting (turn n) a b)).1 = .ok .done := by
  have hroomA : eA.log.entries.length < m.config.logCapacity := hA.length_eq ▸ hroom
  have hroomB : eB.log.entries.length < m.config.logCapacity := hB.length_eq ▸ hroom
  unfold turn
  split
  · rename_i heven
    have hunlinked : b ∉ eA.peers := mt hA.linked_iff.mp (by omega)
    exact h.connects_iff.mpr ⟨hne, hpages, eA, eB, hA.live, hB.live, hunlinked,
      ⟨.inl hA.state_eq, hA.reference_ne, hroomA, hA.maps⟩,
      ⟨.inl hB.state_eq, hB.reference_ne, hroomB, hB.maps⟩⟩
  · have hlinked : b ∈ eA.peers := hA.linked_iff.mpr (by omega)
    exact h.disconnects_iff.mpr ⟨eA, eB, hA.live, hB.live, hlinked, hroomA, hroomB⟩

/-- After an event two enclaves are linked if it connected them. -/
theorem mem_peers_meet {event : Event} {side peer : Side} :
    peer.id ∈ (e.meet event side peer).peers ↔ event = .connect := by
  cases event with
  | connect => simp [Enclave.meet, Enclave.absorb, Enclave.peers]
  | disconnect => simp [Enclave.meet, Enclave.absorb, Enclave.peers]

/-- Two that met once more are acquainted for the next event. -/
theorem Acquainted.meet {side peer : Side} (h : m.Acquainted side.id peer.id n e)
    (hlive : m'.enclave? side.id = some (e.meet (turn n) side peer))
    (hmaps : m'.platform.refusesMaps = m.platform.refusesMaps) :
    m'.Acquainted side.id peer.id (n + 1) (e.meet (turn n) side peer) where
  live := hlive
  state_eq := h.state_eq
  reference_ne := h.reference_ne
  length_eq := by
    show (e.log.entries ++ [side.entry]).length = n + 1
    rw [List.length_append, h.length_eq]
    rfl
  linked_iff := by
    rw [mem_peers_meet, turn]
    split
    · exact iff_of_true rfl (by omega)
    · exact iff_of_false nofun (by omega)
  maps := by rw [hmaps, h.maps]

/-- Two enclaves that met some number of times. -/
structure Acquaintances (config : Config) (a b : EnclaveId) (n : Nat) (m : Monitor) : Prop where
  reachable : m.Reachable
  config_eq : m.config = config
  ne : a ≠ b
  left : ∃ e, m.Acquainted a b n e
  right : ∃ e, m.Acquainted b a n e

/-- The calls by which two enclaves meet some number of times. -/
def encounters (a b : EnclaveId) (n : Nat) : List Act :=
  (List.range n).map fun k => .call (.meeting (turn k) a b)

/-- One more encounter is one more call. -/
theorem encounters_succ (a b : EnclaveId) (n : Nat) :
    encounters a b (n + 1) = encounters a b n ++ [.call (.meeting (turn n) a b)] := by
  rw [encounters, List.range_succ, List.map_append]
  rfl

namespace Acquaintances

/-- And afterwards they have met once more. -/
theorem step (h : Acquaintances config a b n m) (hpages : 0 < config.connectorPages)
    (hroom : n < config.logCapacity) :
    Acquaintances config a b (n + 1) (m.act (.call (.meeting (turn n) a b))) := by
  obtain ⟨hreachable, rfl, hne, ⟨eA, hleft⟩, ⟨eB, hright⟩⟩ := h
  have hdone := hreachable.done_turn hne hleft hright hpages hroom
  obtain ⟨sideA, sideB, fA, fB, rfl, rfl, -, hA, hB, hafter⟩ := meeting_of_done hdone
  obtain rfl := Option.some.inj (hA.live.symm.trans hleft.live)
  obtain rfl := Option.some.inj (hB.live.symm.trans hright.live)
  have hact : m.act (.call (.meeting (turn n) sideA.id sideB.id)) =
      m.meet (turn n) sideA sideB fA fB := hafter
  have hmaps : (m.meet (turn n) sideA sideB fA fB).platform.refusesMaps =
      m.platform.refusesMaps := by
    unfold turn
    split <;> rfl
  have hliveA := enclave?_meet hne hA hB sideA.id
  have hliveB := enclave?_meet hne hA hB sideB.id
  rw [if_pos rfl] at hliveA
  rw [if_neg hne.symm, if_pos rfl] at hliveB
  refine ⟨hreachable.act _, ?_, hne, ?_, ?_⟩
  · rw [hact]
    rfl
  · rw [hact]
    exact ⟨_, hleft.meet hliveA hmaps⟩
  · rw [hact]
    exact ⟨_, hright.meet hliveB hmaps⟩

/-- So they meet until their logs are full. -/
theorem perform (h : Acquaintances config a b 0 m) (hpages : 0 < config.connectorPages)
    (hle : n ≤ config.logCapacity) :
    Acquaintances config a b n (m.perform (encounters a b n)) := by
  induction n with
  | zero => exact h
  | succ n ih =>
    have hnext := (ih (Nat.le_of_succ_le hle)).step hpages hle
    rwa [← perform_concat, ← encounters_succ] at hnext

/-- Either can be asked for a report, with all their meetings in its log. -/
theorem exists_report (h : Acquaintances config a b n m) :
    ∃ report, m.attest a [] = .ok report ∧ report.log.length = n := by
  obtain ⟨e, he⟩ := h.left
  have hstaged := h.reachable.staged he.live
  have hmeasured : e.state ≠ .allocated := by
    rw [he.state_eq]
    nofun
  obtain ⟨digest, hdigest⟩ :=
    Option.ne_none_iff_exists'.mp (mt hstaged.digest_eq_none_iff.mp hmeasured)
  obtain ⟨history, hhistory⟩ :=
    Option.ne_none_iff_exists'.mp (mt hstaged.history_eq_none_iff.mp hmeasured)
  refine ⟨_, attest_eq_ok_iff.mpr ⟨e, digest, history, he.live, ?_, hdigest, hhistory,
    Nat.zero_le _, rfl⟩, he.length_eq⟩
  rw [he.state_eq]
  rfl

end Acquaintances

/-- A configuration in which a log can have more entries than a report can state. -/
def talkative : Config where
  logCapacity := UInt32.size

/-- Two enclaves meet as often as a log has room. The report that one of them is asked for then
states that its log is empty, and it is not read back. -/
theorem overlong_report_is_not_read_back :
    let acts : List Act := [.call (.allocate 3), .call (.allocate 3),
      .call (.setReference ⟨0, 1⟩ "a"), .call (.setReference ⟨1, 1⟩ "b"),
      .call (.finalize ⟨0, 1⟩ ⟨0x80000000, 0x80001000, 0x80002000, 0x80003000⟩),
      .call (.finalize ⟨1, 1⟩ ⟨0x80045000, 0x80046000, 0x80047000, 0x80048000⟩)]
    talkative.validate = .ok () ∧
    ∃ m, Monitor.start talkative .initial
        ⟨⟨⟨List.replicate 32 7, rfl⟩⟩, ⟨⟨List.replicate 64 9, rfl⟩⟩⟩ = .ok m ∧
      ∃ report, ((m.perform acts).perform (encounters ⟨0, 1⟩ ⟨1, 1⟩ UInt32.size)).attest
          ⟨0, 1⟩ [] = .ok report ∧
        report.log.length = UInt32.size ∧ report.statedEntries = 0 ∧
        Report.decode report.encode ≠ .ok report := by
  intro acts
  have hvalidate : talkative.validate = .ok () := by decide
  refine ⟨hvalidate, ?_⟩
  obtain ⟨m, hstart⟩ : ∃ m, Monitor.start talkative .initial
    ⟨⟨⟨List.replicate 32 7, rfl⟩⟩, ⟨⟨List.replicate 64 9, rfl⟩⟩⟩ = .ok m := ⟨_, rfl⟩
  have hreachable : m.Reachable := .start (fun _ => rfl) hstart
  have hstrangers : Acquaintances talkative ⟨0, 1⟩ ⟨1, 1⟩ 0 (m.perform acts) := by
    refine ⟨hreachable.perform acts, (Founded.of_start hstart acts).config_eq, by decide, ?_, ?_⟩
    · cases hstart
      exact ⟨_, rfl, rfl, nofun, rfl, iff_of_false nofun nofun, rfl⟩
    · cases hstart
      exact ⟨_, rfl, rfl, nofun, rfl, iff_of_false nofun nofun, rfl⟩
  obtain ⟨report, hattest, hlength⟩ :=
    (hstrangers.perform (by decide) (Nat.le_refl UInt32.size)).exists_report
  refine ⟨m, hstart, report, hattest, hlength, ?_, ?_⟩
  · rw [Report.statedEntries_eq, hlength, Nat.mod_self]
  · intro hread
    have hlt := (Report.sized_of_decode hread).log_lt
    rw [hlength] at hlt
    exact Nat.lt_irrefl _ hlt

end Monitor

end Enclaves

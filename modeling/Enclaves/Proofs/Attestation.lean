import Enclaves.Proofs.Replay
import Enclaves.Proofs.Wire

/-!
# Reports of the monitor

When a report is issued and what it says (`attest_eq_ok_iff`): it is read off one record, and signed
with the key that the monitor started with. The lengths in it are bounded by the configuration, so
that with a log capacity below 2³² it fits the wire form (`Founded.sized_of_attest`).

`Founded` is what never changes, whatever happens to the enclaves: the configuration, the identity,
and that every log keeps within the configured capacity.
-/

namespace Enclaves

/-- A log that was made with a capacity and has kept within it. -/
structure ConnectionLog.Within (log : ConnectionLog) (capacity : Nat) : Prop where
  capacity_eq : log.capacity = capacity
  length_le : log.entries.length ≤ capacity

namespace Enclave

variable {e e' : Enclave}

/-- A meeting takes the room that it found. -/
theorem within_meet {capacity : Nat} {event : Event} {peer : EnclaveId} {digest : Digest}
    {connector : Connector} {reference : Reference} (h : e.log.Within capacity)
    (hfit : e.Fit event peer digest connector reference) (side other : Side) :
    (e.meet event side other).log.Within capacity := by
  have hroom : ¬ e.log.capacity ≤ e.log.entries.length := by
    simpa [ConnectionLog.isFull] using hfit.room
  rw [h.capacity_eq] at hroom
  refine ⟨h.capacity_eq, ?_⟩
  show (e.log.entries ++ [side.entry]).length ≤ capacity
  rw [List.length_append, List.length_singleton]
  omega

end Enclave

namespace Monitor

variable {m m' : Monitor} {config : Config} {identity : Identity} {act : Act} {id : EnclaveId}
  {e : Enclave} {data : Bytes} {report : Report}

/-! ## What never changes -/

/-- A monitor with the configuration and the identity that it was given. -/
structure Founded (config : Config) (identity : Identity) (m : Monitor) : Prop where
  config_eq : m.config = config
  identity_eq : m.identity = identity
  logs : ∀ id e, m.enclave? id = some e → e.log.Within config.logCapacity

/-- No act changes the configuration. -/
theorem config_of_effect (h : m.Effect act m') : m'.config = m.config := by
  cases h with
  | enroll _ => exact config_settle _ _
  | @remove _ gone e entries hlive =>
    show (m.teardown gone).config = m.config
    rw [teardown_eq hlive]
  | _ => rfl

/-- No act changes the identity that reports are signed with. -/
theorem identity_of_effect (h : m.Effect act m') : m'.identity = m.identity := by
  cases h with
  | enroll _ => exact identity_settle _ _
  | @remove _ gone e entries hlive =>
    show (m.teardown gone).identity = m.identity
    rw [teardown_eq hlive]
  | _ => rfl

namespace Founded

/-- An act founds its monitor on what the one before was founded on. -/
theorem step (h : Founded config identity m) (hstack : m.StackSound)
    (heffect : m.Effect act m') : Founded config identity m' := by
  refine ⟨(config_of_effect heffect).trans h.config_eq,
    (identity_of_effect heffect).trans h.identity_eq,
    forall_of_effect hstack heffect h.logs ?_ ?_ ?_⟩
  · intro minPages exclusive untrusted connector pages _
    exact ⟨congrArg Config.logCapacity h.config_eq, Nat.zero_le _⟩
  · intro e e' hbefore hcarried
    rw [hcarried.log_eq]
    exact hbefore
  · intro event side peer e hbefore hside
    exact Enclave.within_meet hbefore hside.fit side peer

/-- So every state of a run is founded on what it was started with. -/
theorem perform (h : Founded config identity m) (hmemory : MemorySound config m)
    (acts : List Act) : Founded config identity (m.perform acts) :=
  (perform_induction (P := fun m => MemorySound config m ∧ Founded config identity m)
    (fun ⟨hmemory, h⟩ heffect => ⟨hmemory.step heffect, h.step hmemory.stack heffect⟩)
    ⟨hmemory, h⟩ acts).2

/-- After any run. -/
theorem of_start {platform : Platform} (h : Monitor.start config platform identity = .ok m)
    (acts : List Act) : Founded config identity (m.perform acts) := by
  refine perform ?_ (MemorySound.start h) acts
  have hlogs : ∀ id e, m.enclave? id = some e → e.log.Within config.logCapacity := by
    intro id e hlive
    rw [enclave?_start h] at hlive
    cases hlive
  unfold Monitor.start at h
  split at h <;> cases h
  exact ⟨rfl, rfl, hlogs⟩

end Founded

/-! ## Reports -/

/-- What a report is issued on. -/
theorem attest_eq_ok_iff : m.attest id data = .ok report ↔
    ∃ e digest history, m.enclave? id = some e ∧ e.state.isMeasured = true ∧
      e.digest = some digest ∧ e.history = some history ∧
      data.length ≤ m.config.attestDataMax ∧
      report = .issue m.identity.key digest history e.log.entries m.identity.platform data := by
  unfold attest
  constructor
  · intro h
    split at h
    · cases h
    rename_i e hlookup
    split at h
    · rename_i digest history hdigest hhistory
      split at h
      · cases h
      rename_i hmeasured
      split at h
      · cases h
      rename_i hlength
      cases h
      exact ⟨e, digest, history, lookup_eq_ok_iff.mp hlookup, by simpa using hmeasured, hdigest,
        hhistory, Nat.not_lt.mp hlength, rfl⟩
    · cases h
  · rintro ⟨e, digest, history, hlive, hmeasured, hdigest, hhistory, hlength, rfl⟩
    simp [lookup_eq_ok_iff.mpr hlive, hmeasured, hdigest, hhistory, Nat.not_lt.mpr hlength]

/-- A monitor is started with a configuration that is accepted, or not at all. -/
theorem valid_of_start {platform : Platform}
    (h : Monitor.start config platform identity = .ok m) : config.Valid := by
  unfold Monitor.start at h
  split at h
  · cases h
  · rename_i hvalidate
    exact Config.validate_eq_ok_iff.mp hvalidate

/-- The lengths in a report are bounded by the configuration, and that of the data by its field. -/
theorem Founded.lengths_of_attest (h : Founded config identity m) (hvalid : config.Valid)
    (hattest : m.attest id data = .ok report) :
    report.log.length ≤ config.logCapacity ∧ report.data.length < UInt32.size := by
  obtain ⟨e, digest, history, hlive, -, -, -, hlength, rfl⟩ := attest_eq_ok_iff.mp hattest
  rw [h.config_eq] at hlength
  exact ⟨(h.logs id e hlive).length_le, Nat.lt_of_le_of_lt hlength hvalid.data_lt⟩

/-- With room in the length fields for the log and the data that are configured, every report has a
wire form. -/
theorem Founded.sized_of_attest (h : Founded config identity m) (hvalid : config.Valid)
    (hcapacity : config.logCapacity < UInt32.size) (hattest : m.attest id data = .ok report) :
    report.Sized := by
  obtain ⟨hlog, hdata⟩ := h.lengths_of_attest hvalid hattest
  exact ⟨Nat.lt_of_le_of_lt hlog hcapacity, hdata⟩

end Monitor

end Enclaves

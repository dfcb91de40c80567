import Enclaves.Proofs.Handles

/-!
# Meetings

A meeting is a connection event that went through: two live enclaves, both fit for it, absorb it
together. `Partner` says what holds of one side before the event, in the words of both; the two
sides of a meeting are the same statement with the sides exchanged.

`prepare_eq_ok_iff` is what the checks amount to, and `commit_of_partners` that nothing can go wrong
after them. `connect_cases` and `disconnect_cases` list what the two calls do, `connect_of_partners`
and `disconnect_of_partners` what they do to partners. The one case that is not plain is a mapping
that is refused to the second side: the first side's mapping is made and taken out again, and
whether that leaves no trace is not decided here.
-/

namespace Enclaves

/-- The states in which an enclave may take part in an event. -/
def Event.admits : Event → EnclaveState → Bool
  | .connect, state => state.isConnectable
  | .disconnect, state => state.isMeasured

/-- The call that makes an event happen. -/
def Call.meeting : Event → EnclaveId → EnclaveId → Call
  | .connect, a, b => .connect a b
  | .disconnect, a, b => .disconnect a b

/-- An enclave that may take part in an event with a peer, and what it brings. -/
structure Enclave.Fit (e : Enclave) (event : Event) (peer : EnclaveId) (digest : Digest)
    (connector : Connector) (reference : Reference) : Prop where
  admitted : event.admits e.state = true
  connector_eq : e.connector = some connector
  reference_eq : e.reference = some reference
  linked_iff : (e.linkTo? peer).isSome = true ↔ event = .disconnect
  room : e.log.isFull = false
  digest_eq : e.digest = some digest

/-- An enclave after a meeting: the entry logged, the event absorbed. -/
def Enclave.meet (e : Enclave) (event : Event) (side peer : Side) : Enclave :=
  { e with log := { e.log with entries := e.log.entries ++ [side.entry] } }.absorb side.digest peer
    event

/-- The platform with one more mapping. -/
def Platform.extend (p : Platform) (into : EnclaveId) (region : Region) : Platform :=
  { p with mappings := Platform.set p.mappings into (p.mappings into ++ [region]) }

/-- The platform after a mapping was made and taken out again. -/
def Platform.retract (p : Platform) (into : EnclaveId) (region : Region) : Platform :=
  (p.extend into region).unmap into region

/-- The platform after a meeting: each connector mapped into the other side, or taken out. -/
def Platform.meet (p : Platform) (event : Event) (sideA sideB : Side) : Platform :=
  match event with
  | .connect => (p.extend sideA.id sideB.connector.region).extend sideB.id sideA.connector.region
  | .disconnect => (p.unmap sideA.id sideB.connector.region).unmap sideB.id sideA.connector.region

namespace Monitor

/-- One side of a meeting that is about to happen: a live enclave that is fit for it, and an entry
that names the peer. The reference is the one that the peer will log. -/
structure Partner (m : Monitor) (event : Event) (side : Side) (e : Enclave) (peer : Side) : Prop
    where
  live : m.enclave? side.id = some e
  fit : e.Fit event peer.id side.digest side.connector peer.entry.reference
  entry_peer : side.entry.peer = peer.id
  entry_event : side.entry.event = event

/-- The monitor after a meeting. -/
def meet (m : Monitor) (event : Event) (sideA sideB : Side) (eA eB : Enclave) : Monitor :=
  { (m.put sideA.id (eA.meet event sideA sideB)).put sideB.id (eB.meet event sideB sideA) with
    platform := m.platform.meet event sideA sideB }

variable {m : Monitor} {event : Event} {sideA sideB : Side} {eA eB : Enclave}

/-! ## The checks -/

/-- A side passes the checks if its enclave lives and is fit for the event. -/
theorem checkSide_eq_ok_iff {id peer : EnclaveId} {digest : Digest} {connector : Connector}
    {reference : Reference} :
    m.checkSide id peer event = .ok (digest, connector, reference) ↔
      ∃ e, m.enclave? id = some e ∧ e.Fit event peer digest connector reference := by
  constructor
  · intro h
    unfold checkSide at h
    split at h
    · cases h
    rename_i e hlookup
    refine ⟨e, lookup_eq_ok_iff.mp hlookup, ?_⟩
    dsimp only at h
    split at h
    · cases h
    split at h
    · cases h
    rename_i hconnect hdisconnect
    split at h
    · cases h
    · cases h
    rename_i hconnector hreference
    split at h
    · cases h
    split at h
    · cases h
    split at h
    · cases h
    rename_i hnew hold hfull
    split at h
    · cases h
    rename_i hdigest
    cases h
    refine ⟨?_, hconnector, hreference, ?_, by simpa using hfull, hdigest⟩
    · cases event
      · simpa [Event.admits] using hconnect
      · simpa [Event.admits] using hdisconnect
    · cases event
      · simpa using hnew
      · simpa [Option.isSome_iff_ne_none] using hold
  · rintro ⟨e, hlive, hfit⟩
    have hadmitted := hfit.admitted
    have hlinked := hfit.linked_iff
    unfold checkSide
    simp only [lookup_eq_ok_iff.mpr hlive, hfit.connector_eq, hfit.reference_eq, hfit.digest_eq,
      hfit.room]
    cases event <;> simp_all [Event.admits]

/-- What is prepared are two partners. -/
theorem prepare_eq_ok_iff {a b : EnclaveId} :
    m.prepare a b event = .ok (sideA, sideB) ↔ a = sideA.id ∧ b = sideB.id ∧ a ≠ b ∧
      (∃ eA, m.Partner event sideA eA sideB) ∧ ∃ eB, m.Partner event sideB eB sideA := by
  constructor
  · intro h
    unfold prepare at h
    split at h
    · split at h <;> cases h
    rename_i hne
    split at h
    · cases h
    rename_i hcheckA
    split at h
    · cases h
    rename_i hcheckB
    cases h
    obtain ⟨eA, hliveA, hfitA⟩ := checkSide_eq_ok_iff.mp hcheckA
    obtain ⟨eB, hliveB, hfitB⟩ := checkSide_eq_ok_iff.mp hcheckB
    exact ⟨rfl, rfl, hne, ⟨eA, hliveA, hfitA, rfl, rfl⟩, ⟨eB, hliveB, hfitB, rfl, rfl⟩⟩
  · rintro ⟨rfl, rfl, hne, ⟨eA, hA⟩, ⟨eB, hB⟩⟩
    unfold prepare
    rw [if_neg hne, checkSide_eq_ok_iff.mpr ⟨eA, hA.live, hA.fit⟩,
      checkSide_eq_ok_iff.mpr ⟨eB, hB.live, hB.fit⟩]
    obtain ⟨idA, digestA, connectorA, peerA, eventA, referenceA⟩ := sideA
    obtain ⟨idB, digestB, connectorB, peerB, eventB, referenceB⟩ := sideB
    obtain rfl : peerA = idB := hA.entry_peer
    obtain rfl : peerB = idA := hB.entry_peer
    obtain rfl : eventA = event := hA.entry_event
    obtain rfl : eventB = eventA := hB.entry_event
    rfl

/-! ## The two records together -/

/-- Two live enclaves are found together, in whatever order their slots are. -/
theorem lookupPair_of_live {a b : EnclaveId} (hne : a ≠ b) (ha : m.enclave? a = some eA)
    (hb : m.enclave? b = some eB) : m.lookupPair a b = .ok (eA, eB) := by
  have hindex : a.index ≠ b.index := fun h => hne (eq_of_index_eq ha hb h)
  have hltA := (List.getElem?_eq_some_iff.mp (enclave?_eq_some_iff.mp ha)).1
  have hltB := (List.getElem?_eq_some_iff.mp (enclave?_eq_some_iff.mp hb)).1
  unfold lookupPair
  rw [if_neg hindex]
  by_cases hlt : a.index < b.index
  · simp [hlt, Nat.not_le.mpr hltB, lookup_eq_ok_iff.mpr ha, lookup_eq_ok_iff.mpr hb]
  · simp [hlt, Nat.not_le.mpr hltA, lookup_eq_ok_iff.mpr ha, lookup_eq_ok_iff.mpr hb]

/-- With room in it a log takes an entry at its end. -/
theorem push_of_room {log : ConnectionLog} (h : log.isFull = false) (entry : PeerDescriptor) :
    log.push entry = .ok { log with entries := log.entries ++ [entry] } := by
  simp [ConnectionLog.push, h]

/-- Two live enclaves in different slots, with room in their logs, both absorb the event. -/
theorem commit_of_room (hindex : sideA.id.index ≠ sideB.id.index)
    (hA : m.enclave? sideA.id = some eA) (hB : m.enclave? sideB.id = some eB)
    (hroomA : eA.log.isFull = false) (hroomB : eB.log.isFull = false) :
    m.commit sideA sideB event =
      (.ok (), (m.put sideA.id (eA.meet event sideA sideB)).put sideB.id
        (eB.meet event sideB sideA)) := by
  unfold commit
  rw [lookupPair_of_live (fun h => hindex (congrArg EnclaveId.index h)) hA hB]
  simp only [push_of_room hroomA, push_of_room hroomB]
  rfl

/-- After the checks the event goes through. -/
theorem commit_of_partners (hne : sideA.id ≠ sideB.id) (hA : m.Partner event sideA eA sideB)
    (hB : m.Partner event sideB eB sideA) :
    m.commit sideA sideB event =
      (.ok (), (m.put sideA.id (eA.meet event sideA sideB)).put sideB.id
        (eB.meet event sideB sideA)) :=
  commit_of_room (fun h => hne (eq_of_index_eq hA.live hB.live h)) hA.live hB.live hA.fit.room
    hB.fit.room

/-- Who is reached by which handle after a meeting. -/
theorem enclave?_meet (hne : sideA.id ≠ sideB.id) (hA : m.Partner event sideA eA sideB)
    (hB : m.Partner event sideB eB sideA) (other : EnclaveId) :
    (m.meet event sideA sideB eA eB).enclave? other =
      if other = sideA.id then some (eA.meet event sideA sideB)
      else if other = sideB.id then some (eB.meet event sideB sideA)
      else m.enclave? other := by
  have hliveB : (m.put sideA.id (eA.meet event sideA sideB)).enclave? sideB.id = some eB := by
    rw [enclave?_put_of_ne hA.live _ hne.symm, hB.live]
  show ((m.put sideA.id _).put sideB.id _).enclave? other = _
  rw [enclave?_put hliveB, enclave?_put hA.live]
  by_cases hotherA : other = sideA.id
  · have hotherB : other ≠ sideB.id := hotherA ▸ hne
    rw [if_neg hotherB, if_pos hotherA, if_pos hotherA]
  · rw [if_neg hotherA, if_neg hotherA]

/-! ## The two calls -/

/-- Connecting two enclaves that are fit for it: only the platform can refuse. -/
theorem connect_of_partners (hne : sideA.id ≠ sideB.id)
    (hA : m.Partner .connect sideA eA sideB) (hB : m.Partner .connect sideB eB sideA) :
    m.connect sideA.id sideB.id =
      if m.platform.refusesMaps sideA.id then
        (.error (.lowLevelCall sideA.id (.map sideA.id)), m)
      else if m.platform.refusesMaps sideB.id then
        (.error (.lowLevelCall sideB.id (.map sideB.id)),
          { m with platform := m.platform.retract sideA.id sideB.connector.region })
      else (.ok (), m.meet .connect sideA sideB eA eB) := by
  have hprepare : m.prepare sideA.id sideB.id .connect = .ok (sideA, sideB) :=
    prepare_eq_ok_iff.mpr ⟨rfl, rfl, hne, ⟨eA, hA⟩, ⟨eB, hB⟩⟩
  have hA' : ({ m with platform := m.platform.meet .connect sideA sideB } : Monitor).Partner
      .connect sideA eA sideB := ⟨hA.live, hA.fit, hA.entry_peer, hA.entry_event⟩
  have hB' : ({ m with platform := m.platform.meet .connect sideA sideB } : Monitor).Partner
      .connect sideB eB sideA := ⟨hB.live, hB.fit, hB.entry_peer, hB.entry_event⟩
  have hcommit := commit_of_partners hne hA' hB'
  simp only [Platform.meet, Platform.extend] at hcommit
  unfold connect
  rw [hprepare]
  by_cases hrefuseA : m.platform.refusesMaps sideA.id = true
  · simp [map, Platform.map, hrefuseA]
  by_cases hrefuseB : m.platform.refusesMaps sideB.id = true
  · simp only [map, Platform.map, hrefuseA, hrefuseB, Bool.false_eq_true, ↓reduceIte]
    rfl
  · simp only [map, Platform.map, hrefuseA, hrefuseB, Bool.false_eq_true, ↓reduceIte, hcommit]
    rfl

/-- Connecting is refused before anything changes, or taken back when the second mapping is refused,
or a meeting. -/
theorem connect_cases (m : Monitor) (a b : EnclaveId) :
    (∃ error, m.connect a b = (.error error, m)) ∨
    ∃ sideA sideB eA eB, a = sideA.id ∧ b = sideB.id ∧ sideA.id ≠ sideB.id ∧
      m.Partner .connect sideA eA sideB ∧ m.Partner .connect sideB eB sideA ∧
      ((∃ error, m.connect a b = (.error error,
          { m with platform := m.platform.retract sideA.id sideB.connector.region })) ∨
        m.connect a b = (.ok (), m.meet .connect sideA sideB eA eB)) := by
  cases hprepare : m.prepare a b .connect with
  | error error => exact .inl ⟨error, by rw [connect, hprepare]⟩
  | ok sides =>
    obtain ⟨sideA, sideB⟩ := sides
    obtain ⟨rfl, rfl, hne, ⟨eA, hA⟩, ⟨eB, hB⟩⟩ := prepare_eq_ok_iff.mp hprepare
    rw [connect_of_partners hne hA hB]
    split
    · exact .inl ⟨_, rfl⟩
    refine .inr ⟨sideA, sideB, eA, eB, rfl, rfl, hne, hA, hB, ?_⟩
    split
    · exact .inl ⟨_, rfl⟩
    · exact .inr rfl

/-- Disconnecting two enclaves that are fit for it. -/
theorem disconnect_of_partners (hne : sideA.id ≠ sideB.id)
    (hA : m.Partner .disconnect sideA eA sideB) (hB : m.Partner .disconnect sideB eB sideA) :
    m.disconnect sideA.id sideB.id = (.ok (), m.meet .disconnect sideA sideB eA eB) := by
  have hprepare : m.prepare sideA.id sideB.id .disconnect = .ok (sideA, sideB) :=
    prepare_eq_ok_iff.mpr ⟨rfl, rfl, hne, ⟨eA, hA⟩, ⟨eB, hB⟩⟩
  unfold disconnect
  rw [hprepare]
  simp only [commit_of_partners hne hA hB]
  rfl

/-- Disconnecting is refused before anything changes, or a meeting. -/
theorem disconnect_cases (m : Monitor) (a b : EnclaveId) :
    (∃ error, m.disconnect a b = (.error error, m)) ∨
    ∃ sideA sideB eA eB, a = sideA.id ∧ b = sideB.id ∧ sideA.id ≠ sideB.id ∧
      m.Partner .disconnect sideA eA sideB ∧ m.Partner .disconnect sideB eB sideA ∧
      m.disconnect a b = (.ok (), m.meet .disconnect sideA sideB eA eB) := by
  cases hprepare : m.prepare a b .disconnect with
  | error error => exact .inl ⟨error, by rw [disconnect, hprepare]⟩
  | ok sides =>
    obtain ⟨sideA, sideB⟩ := sides
    obtain ⟨rfl, rfl, hne, ⟨eA, hA⟩, ⟨eB, hB⟩⟩ := prepare_eq_ok_iff.mp hprepare
    exact .inr ⟨sideA, sideB, eA, eB, rfl, rfl, hne, hA, hB, disconnect_of_partners hne hA hB⟩

end Monitor

end Enclaves

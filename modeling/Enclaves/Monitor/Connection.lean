import Enclaves.Monitor.State
/-!
# Connections

Connecting two enclaves maps the connector of each into the other, appends an entry to both logs and
extends both histories; disconnecting undoes the mappings and appends again. Both happen on the two
sides together or not at all: everything is checked on both sides before anything changes
(`prepare`), the platform's mappings come next and are taken back if the second one fails, and then
both records change (`commit`).

`commit` stands on its own: it looks again at the two handles and at the room in both logs, and
takes the first entry back if the second finds no room.
-/

namespace Enclaves

/-- What one side brings into a connection. -/
structure Side where
  id : EnclaveId
  digest : Digest
  connector : Connector
  /-- The entry for this side's own log; it names the other side. -/
  entry : PeerDescriptor

namespace Enclave

/-- An enclave after an event with a peer: the history extended by the peer's measurement, and the
link to it made or dropped. The digest stands in for a history that never began. -/
def absorb (e : Enclave) (digest : Digest) (peer : Side) (event : Event) : Enclave :=
  { e with
    history := some (extendHistory (e.history.getD digest) peer.digest event)
    links :=
      match event with
      | .connect => e.links ++ [⟨peer.id, peer.connector.region, peer.connector.mailbox⟩]
      | .disconnect => e.links.filter (·.peer ≠ peer.id) }

end Enclave

namespace Monitor

/-! ## Checks -/

/-- What an event needs of one side: the right state, a connector, a reference, a link or none, room
in the log, a measurement. Answers what the side brings, except for its log entry, and the reference
that its peer will log. -/
def checkSide (m : Monitor) (id peer : EnclaveId) (event : Event) :
    Except MonitorError (Digest × Connector × Reference) :=
  match m.lookup id with
  | .error error => .error error
  | .ok e =>
    let invalid (refusal : Refusal) : Except MonitorError (Digest × Connector × Reference) :=
      .error (.invalidState id e.state refusal)
    let linked := (e.linkTo? peer).isSome
    if event = .connect ∧ !e.state.isConnectable then invalid .connect
    else if event = .disconnect ∧ !e.state.isMeasured then invalid .disconnect
    else
      match e.connector, e.reference with
      | none, _ => invalid .noConnector
      | some _, none => invalid .noReference
      | some connector, some reference =>
        if event = .connect ∧ linked then invalid .alreadyConnected
        else if event = .disconnect ∧ !linked then invalid .notConnected
        else if e.log.isFull then .error (.logFull id e.log.capacity)
        else
          match e.digest with
          | none => invalid .notMeasured
          | some digest => .ok (digest, connector, reference)

/-- Check an event on both sides, the first side wholly before the second. -/
def prepare (m : Monitor) (a b : EnclaveId) (event : Event) :
    Except MonitorError (Side × Side) :=
  if a = b then
    match m.lookup a with
    | .error error => .error error
    | .ok e => .error (.invalidState a e.state .connectToItself)
  else
    match m.checkSide a b event with
    | .error error => .error error
    | .ok (digestA, connectorA, referenceA) =>
      match m.checkSide b a event with
      | .error error => .error error
      | .ok (digestB, connectorB, referenceB) =>
        .ok (⟨a, digestA, connectorA, ⟨b, event, referenceB⟩⟩,
          ⟨b, digestB, connectorB, ⟨a, event, referenceA⟩⟩)

/-! ## Both records together -/

/-- The enclaves of two handles, which must be in different slots. The handle of the higher slot is
checked against the end of the table first, then both in the order of their slots. -/
def lookupPair (m : Monitor) (a b : EnclaveId) : Except MonitorError (Enclave × Enclave) :=
  if a.index = b.index then .error (.invalidArgument (.sharedSlot a b))
  else
    let (low, high) := if a.index < b.index then (a, b) else (b, a)
    if m.slots.length ≤ high.index.toNat then .error (.invalidHandle high)
    else
      match m.lookup low, m.lookup high with
      | .error error, _ => .error error
      | .ok _, .error error => .error error
      | .ok first, .ok second =>
        .ok (if a.index < b.index then (first, second) else (second, first))

/-- Let both records absorb an event. -/
def commit (m : Monitor) (sideA sideB : Side) (event : Event) :
    Except MonitorError Unit × Monitor :=
  match m.lookupPair sideA.id sideB.id with
  | .error error => (.error error, m)
  | .ok (a, b) =>
    match a.log.push sideA.entry with
    | .error _ => (.error (.logFull sideA.id a.log.capacity), m)
    | .ok logA =>
      let a := { a with log := logA }
      match b.log.push sideB.entry with
      | .error _ =>
        (.error (.logFull sideB.id b.log.capacity),
          m.put sideA.id { a with log := a.log.dropLast })
      | .ok logB =>
        let b := { b with log := logB }
        (.ok (),
          (m.put sideA.id (a.absorb sideA.digest sideB event)).put sideB.id
            (b.absorb sideB.digest sideA event))

/-- Take the mapping of a region out of an enclave. -/
def unmap (m : Monitor) (from_ : EnclaveId) (region : Region) : Monitor :=
  { m with platform := m.platform.unmap from_ region }

/-- Map a region into an enclave. -/
def map (m : Monitor) (into : EnclaveId) (region : Region) :
    Except MonitorError Unit × Monitor :=
  match m.platform.map into region with
  | (.error fault, platform) => (.error (.lowLevelCall into fault), { m with platform })
  | (.ok (), platform) => (.ok (), { m with platform })

/-- Connect two enclaves. -/
def connect (m : Monitor) (a b : EnclaveId) : Except MonitorError Unit × Monitor :=
  match m.prepare a b .connect with
  | .error error => (.error error, m)
  | .ok (sideA, sideB) =>
    let intoA := sideB.connector.region
    let intoB := sideA.connector.region
    match m.map a intoA with
    | (.error error, m) => (.error error, m)
    | (.ok (), m) =>
      match m.map b intoB with
      | (.error error, m) => (.error error, m.unmap a intoA)
      | (.ok (), m) =>
        match m.commit sideA sideB .connect with
        | (.error error, m) => (.error error, (m.unmap a intoA).unmap b intoB)
        | (.ok (), m) => (.ok (), m)

/-- Disconnect two enclaves. -/
def disconnect (m : Monitor) (a b : EnclaveId) : Except MonitorError Unit × Monitor :=
  match m.prepare a b .disconnect with
  | .error error => (.error error, m)
  | .ok (sideA, sideB) =>
    match m.commit sideA sideB .disconnect with
    | (.error error, m) => (.error error, m)
    | (.ok (), m) =>
      (.ok (), (m.unmap a sideB.connector.region).unmap b sideA.connector.region)

end Monitor

end Enclaves

import Enclaves.Monitor.State
import Enclaves.Report
/-!
# Looking at enclaves

What the monitor tells about an enclave without changing it, reports among it, and the two kinds of
memory that the host and the enclaves exchange data through: the untrusted region and the mailboxes.
-/

namespace Enclaves

/-- What the host sees of an enclave. -/
structure EnclaveStatus where
  id : EnclaveId
  state : EnclaveState
  reference : Option Reference
  layout : Option Layout
  digest : Option Digest
  history : Option Digest
  logLength : Nat
  regions : List Region
  linkedPeers : List EnclaveId
  lastExit : Option Nat
  destroyOnRelease : Bool

namespace Monitor

/-- How far an enclave has come. A handle whose enclave is gone says so; one that was never given
out is refused. -/
def state (m : Monitor) (id : EnclaveId) : Except MonitorError EnclaveState :=
  match m.slots[id.index.toNat]? with
  | none => .error (.invalidHandle id)
  | some slot =>
    if slot.generation = id.generation then
      match slot.occupant with
      | some e => .ok e.state
      | none => .error (.invalidHandle id)
    else if EnclaveId.firstGeneration ≤ id.generation ∧ id.generation < slot.generation then
      .ok .destroyed
    else .error (.invalidHandle id)

def measurement (m : Monitor) (id : EnclaveId) : Except MonitorError Digest :=
  match m.lookup id with
  | .error error => .error error
  | .ok e =>
    match e.digest with
    | some digest => .ok digest
    | none => .error (.invalidState id e.state .readMeasurement)

def history (m : Monitor) (id : EnclaveId) : Except MonitorError Digest :=
  match m.lookup id with
  | .error error => .error error
  | .ok e =>
    match e.history with
    | some history => .ok history
    | none => .error (.invalidState id e.state .readHistory)

def connectionLog (m : Monitor) (id : EnclaveId) : Except MonitorError (List PeerDescriptor) :=
  (m.lookup id).map (·.log.entries)

def status (m : Monitor) (id : EnclaveId) : Except MonitorError EnclaveStatus :=
  (m.lookup id).map fun e =>
    { id
      state := e.state
      reference := e.reference
      layout := e.layout
      digest := e.digest
      history := e.history
      logLength := e.log.length
      regions := e.regions
      linkedPeers := e.links.map Link.peer
      lastExit := e.lastExit
      destroyOnRelease := e.destroyOnRelease }

/-- A signed report on a measured enclave that echoes some data. -/
def attest (m : Monitor) (id : EnclaveId) (data : Bytes) : Except MonitorError Report :=
  match m.lookup id with
  | .error error => .error error
  | .ok e =>
    match e.digest, e.history with
    | some digest, some history =>
      if !e.state.isMeasured then .error (.invalidState id e.state .attest)
      else if m.config.attestDataMax < data.length then
        .error (.invalidArgument (.dataTooLong data.length m.config.attestDataMax))
      else .ok (.issue m.identity.key digest history e.log.entries m.identity.platform data)
    | _, _ => .error (.invalidState id e.state .attest)

/-! ## The untrusted region -/

/-- The contents of the region that an enclave shares with the host. -/
def untrusted (m : Monitor) (id : EnclaveId) : Except MonitorError Memory :=
  match m.lookup id with
  | .error error => .error error
  | .ok e =>
    match e.untrusted with
    | some (_, memory) => .ok memory
    | none => .error (.invalidState id e.state .noUntrusted)

/-- Write to the region that an enclave shares with the host. -/
def writeUntrusted (m : Monitor) (id : EnclaveId) (offset : Nat) (bytes : Bytes) :
    Except MonitorError Unit × Monitor :=
  match m.lookup id with
  | .error error => (.error error, m)
  | .ok e =>
    match e.untrusted with
    | none => (.error (.invalidState id e.state .noUntrusted), m)
    | some (region, memory) =>
      (.ok (), m.put id { e with untrusted := some (region, memory.write offset bytes) })

/-! ## Mailboxes -/

/-- The receiving end of an enclave's own connector. -/
def inbox (m : Monitor) (id : EnclaveId) : Except MonitorError MailboxId :=
  match m.lookup id with
  | .error error => .error error
  | .ok e =>
    match e.connector with
    | some connector => .ok connector.mailbox
    | none => .error (.invalidState id e.state .noMailbox)

/-- The sending end of a peer's connector, as it is mapped into an enclave. -/
def outbox (m : Monitor) (id peer : EnclaveId) : Except MonitorError MailboxId :=
  match m.lookup id with
  | .error error => .error error
  | .ok e =>
    match e.linkTo? peer with
    | some link => .ok link.mailbox
    | none => .error (.invalidState id e.state .noPeerMailbox)

def mailbox? (m : Monitor) (id : MailboxId) : Option Mailbox := m.mailboxes[id]?

/-- Send through a handle, unless a message is waiting. -/
def send? (m : Monitor) (id : MailboxId) (message : Bytes) : Option (Sent × Monitor) :=
  match m.mailbox? id with
  | none => none
  | some mailbox =>
    match mailbox.send? message with
    | none => none
    | some (sent, mailbox) => some (sent, { m with mailboxes := m.mailboxes.set id mailbox })

/-- Receive through a handle, if a message is waiting. -/
def receive? (m : Monitor) (id : MailboxId) (room : Nat) : Option (Bytes × Monitor) :=
  match m.mailbox? id with
  | none => none
  | some mailbox =>
    match mailbox.receive? room with
    | none => none
    | some (message, mailbox) =>
      some (message, { m with mailboxes := m.mailboxes.set id mailbox })

end Monitor

end Enclaves

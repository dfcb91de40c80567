import Enclaves.Config
import Enclaves.ConnectionLog
import Enclaves.DeviceKey
import Enclaves.Mailbox
import Enclaves.Monitor.Error
import Enclaves.PageAllocator
/-!
# The monitor's state

A table of slots, each free or taken by an enclave, over one range of pages. A handle reaches an
enclave only while the slot's generation is the handle's own; the generation moves on when the slot
is cleared, and the slot goes on top of a stack from which the next enclave takes it.

Mailboxes live outside the slots: a connector's mailbox is shared by its owner, by the links of its
peers and by every handle that was opened on it, and a handle may outlive all the others.
-/

namespace Enclaves

/-- A mailbox among those that the monitor ever made. -/
abbrev MailboxId := Nat

/-- The region through which peers reach an enclave, with the mailbox on it. -/
structure Connector where
  region : Region
  mailbox : MailboxId
  deriving DecidableEq

/-- A peer, and its connector as it is mapped here. -/
structure Link where
  peer : EnclaveId
  region : Region
  mailbox : MailboxId
  deriving DecidableEq

/-- What the monitor knows of an enclave. -/
structure Enclave where
  state : EnclaveState
  exclusive : Region
  /-- The contents of the exclusive region. -/
  memory : Memory
  /-- The region shared with the host, with its contents. -/
  untrusted : Option (Region × Memory)
  connector : Option Connector
  /-- The peers it is connected to, in the order of connection. -/
  links : List Link
  reference : Option Reference
  layout : Option Layout
  digest : Option Digest
  history : Option Digest
  log : ConnectionLog
  /-- Whether closing the host's handle destroys it. -/
  destroyOnRelease : Bool
  /-- The value it last exited or yielded with. -/
  lastExit : Option Nat

namespace Enclave

/-- The regions that an enclave owns. -/
def regions (e : Enclave) : List Region :=
  e.exclusive :: ((e.untrusted.map Prod.fst).toList ++ (e.connector.map Connector.region).toList)

/-- The link to a peer. -/
def linkTo? (e : Enclave) (peer : EnclaveId) : Option Link := e.links.find? (·.peer = peer)

end Enclave

/-- A place in the table: the generation of its occupant, or of the next one. -/
structure Slot where
  generation : UInt32
  occupant : Option Enclave

/-- The monitor. -/
structure Monitor where
  config : Config
  platform : Platform
  identity : Identity
  slots : List Slot
  /-- The cleared slots, the one cleared last on top. -/
  freeSlots : List UInt32
  pages : PageAllocator
  /-- Every mailbox that was ever made; none is removed, so that handles stay usable. -/
  mailboxes : List Mailbox

namespace Monitor

/-- A monitor without enclaves, if its configuration is accepted. -/
def start (config : Config) (platform : Platform) (identity : Identity) :
    Except ConfigFault Monitor :=
  match config.validate with
  | .error fault => .error fault
  | .ok () =>
    .ok ⟨config, platform, identity, [], [], .ofRange config.dramBase config.totalPages, []⟩

/-! ## Handles -/

/-- The enclave that a handle reaches. -/
def enclave? (m : Monitor) (id : EnclaveId) : Option Enclave :=
  match m.slots[id.index.toNat]? with
  | some slot => if slot.generation = id.generation then slot.occupant else none
  | none => none

/-- The enclave that a handle reaches, or that it reaches none. -/
def lookup (m : Monitor) (id : EnclaveId) : Except MonitorError Enclave :=
  match m.enclave? id with
  | some e => .ok e
  | none => .error (.invalidHandle id)

/-- The enclave that a handle reaches, in a state that an operation needs. -/
def require (m : Monitor) (id : EnclaveId) (state : EnclaveState) (refusal : Refusal) :
    Except MonitorError Enclave :=
  match m.lookup id with
  | .error error => .error error
  | .ok e => if e.state = state then .ok e else .error (.invalidState id e.state refusal)

/-- Replace the enclave in the slot of a handle that reaches it. -/
def put (m : Monitor) (id : EnclaveId) (e : Enclave) : Monitor :=
  { m with slots := m.slots.set id.index.toNat ⟨id.generation, some e⟩ }

/-- The handles of some slots that are taken, the first of them in place `index`. -/
def idsFrom : (index : Nat) → List Slot → List EnclaveId
  | _, [] => []
  | index, slot :: rest =>
    match slot.occupant with
    | some _ => ⟨.ofNat index, slot.generation⟩ :: idsFrom (index + 1) rest
    | none => idsFrom (index + 1) rest

/-- The handles of the live enclaves, by slot. -/
def ids (m : Monitor) : List EnclaveId := idsFrom 0 m.slots

/-- How many enclaves are live. -/
def count (m : Monitor) : Nat := m.slots.countP fun slot => slot.occupant.isSome

/-- The pages handed out to enclaves. -/
def usedPages (m : Monitor) : Nat := m.pages.usedPages

end Monitor

end Enclaves

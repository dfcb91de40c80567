import Enclaves.Image
import Enclaves.Monitor.State
/-!
# The life of an enclave

Allocated, finalized, running or suspended, gone. Each operation answers a value or the cause of its
refusal, and the monitor afterwards. A refused operation leaves the monitor as it was; where
something had been reserved before the refusal, it is given back.

The exception is an entry that fails underneath: it destroys the enclave, since nobody can tell what
is left of it.
-/

namespace Enclaves

/-! ## Reserving pages -/

namespace PageAllocator

/-- A region of some pages, or why there is none. -/
def reserve (a : PageAllocator) (pages : Nat) (permission : Permission) (kind : RegionKind) :
    Except Shortage Region × PageAllocator :=
  match a.take? pages with
  | none => (.error (.pages pages kind a.usedPages), a)
  | some (base, taken) =>
    match Region.make base (pages * pageSize) permission kind with
    | .ok region => (.ok region, taken)
    | .error fault => (.error (.region fault), taken.give base pages)

/-- Give the pages of regions back, one region after the other. -/
def unreserve (a : PageAllocator) (regions : List Region) : PageAllocator :=
  regions.foldl (fun a r => a.give r.base r.pages) a

/-- A region unless no pages are configured for it. -/
def reserveOptional (a : PageAllocator) (pages : Nat) (permission : Permission)
    (kind : RegionKind) : Except Shortage (Option Region) × PageAllocator :=
  if pages = 0 then (.ok none, a)
  else
    match a.reserve pages permission kind with
    | (.ok region, a) => (.ok (some region), a)
    | (.error shortage, a) => (.error shortage, a)

/-- The three regions of an enclave: exclusive, untrusted, connector. If one cannot be had, those
before it are given back. -/
def reserveAll (a : PageAllocator) (exclusive untrusted connector : Nat) :
    Except Shortage (Region × Option Region × Option Region) × PageAllocator :=
  match a.reserve exclusive .readWriteExecute .exclusive with
  | (.error shortage, a) => (.error shortage, a)
  | (.ok exclusive, a) =>
    match a.reserveOptional untrusted .readWrite .untrusted with
    | (.error shortage, a) => (.error shortage, a.unreserve [exclusive])
    | (.ok untrusted, a) =>
      match a.reserveOptional connector .readWrite .connector with
      | (.error shortage, a) => (.error shortage, a.unreserve (exclusive :: untrusted.toList))
      | (.ok connector, a) => (.ok (exclusive, untrusted, connector), a)

end PageAllocator

namespace Monitor

/-! ## Coming into being -/

/-- A new enclave: zeroed memory, an empty log, nothing loaded. -/
def newEnclave (config : Config) (exclusive : Region) (untrusted : Option Region)
    (connector : Option Connector) : Enclave where
  state := .allocated
  exclusive := exclusive
  memory := .zeroed exclusive.size
  untrusted := untrusted.map fun r => (r, .zeroed r.size)
  connector := connector
  links := []
  reference := none
  layout := none
  digest := none
  history := none
  log := .empty config.logCapacity
  destroyOnRelease := true
  lastExit := none

/-- Take a slot for an enclave: the one cleared last, else a new one at the end of the table. -/
def settle (m : Monitor) (e : Enclave) : EnclaveId × Monitor :=
  match m.freeSlots with
  | index :: rest =>
    let generation :=
      match m.slots[index.toNat]? with
      | some slot => slot.generation
      | none => EnclaveId.firstGeneration
    let id : EnclaveId := ⟨index, generation⟩
    (id, { m.put id e with freeSlots := rest })
  | [] =>
    let id : EnclaveId := ⟨.ofNat m.slots.length, EnclaveId.firstGeneration⟩
    (id, { m with slots := m.slots ++ [⟨EnclaveId.firstGeneration, some e⟩] })

/-- Reserve the regions of an enclave, with at least some pages of its own. -/
def allocate (m : Monitor) (minPages : Nat) : Except MonitorError EnclaveId × Monitor :=
  if minPages = 0 then (.error (.invalidArgument .noPages), m)
  else if m.config.maxEnclaves ≤ m.count then
    (.error (.resourceExhausted (.table m.config.maxEnclaves)), m)
  else
    match m.pages.reserveAll minPages m.config.untrustedPages m.config.connectorPages with
    | (.error shortage, pages) => (.error (.resourceExhausted shortage), { m with pages })
    | (.ok (exclusive, untrusted, connector), pages) =>
      let connector := connector.map fun region => ⟨region, m.mailboxes.length⟩
      let mailboxes := connector.toList.map fun _ => Mailbox.empty m.config.mailboxCapacity
      let e := newEnclave m.config exclusive untrusted connector
      let (id, m) := { m with pages, mailboxes := m.mailboxes ++ mailboxes }.settle e
      (.ok id, m)

/-- Set the reference that peers will log for an enclave. -/
def setReference (m : Monitor) (id : EnclaveId) (text : String) :
    Except MonitorError Unit × Monitor :=
  match Reference.ofString text with
  | .error fault => (.error (.invalidArgument (.reference fault)), m)
  | .ok reference =>
    match m.require id .allocated .setReference with
    | .error error => (.error error, m)
    | .ok e => (.ok (), m.put id { e with reference := some reference })

/-- Load an image at the start of the exclusive region, everything behind it zeroed, and answer
where it lies. -/
def load (m : Monitor) (id : EnclaveId) (bundle : Bundle) :
    Except MonitorError Layout × Monitor :=
  match Reference.ofString bundle.reference with
  | .error fault => (.error (.invalidArgument (.reference fault)), m)
  | .ok reference =>
    if bundle.image.segments.any List.isEmpty then
      (.error (.layoutInvalid .emptySegment), m)
    else
      match m.require id .allocated .load with
      | .error error => (.error error, m)
      | .ok e =>
        if e.exclusive.pages < bundle.image.pages then
          (.error (.invalidArgument (.imageTooLarge bundle.image.pages e.exclusive.pages)), m)
        else
          let memory := bundle.image.loadInto e.exclusive.size
          (.ok (bundle.image.layoutAt e.exclusive.base),
            m.put id { e with memory, reference := some reference })

/-- Check the layout, measure the image and begin the history with its measurement. -/
def finalize (m : Monitor) (id : EnclaveId) (layout : Layout) :
    Except MonitorError Digest × Monitor :=
  match m.require id .allocated .finalize with
  | .error error => (.error error, m)
  | .ok e =>
    match layout.validate e.exclusive (e.regions.filter (·.kind ≠ .exclusive)) with
    | .error fault => (.error (.layoutInvalid (.layout fault)), m)
    | .ok () =>
      match layout.measure e.exclusive e.memory with
      | .error fault => (.error (.layoutInvalid (.layout fault)), m)
      | .ok digest =>
        (.ok digest,
          m.put id { e with
            layout := some layout, digest := some digest, history := some digest,
            state := .finalized })

/-! ## Going -/

/-- A slot in place `index` when an enclave goes: whoever was connected to it loses the link and the
mapping of its connector. -/
def unlinkSlot (gone : EnclaveId) (index : Nat) (slot : Slot) (platform : Platform) :
    Slot × Platform :=
  match slot.occupant with
  | none => (slot, platform)
  | some e =>
    match e.linkTo? gone with
    | none => (slot, platform)
    | some link =>
      ({ slot with occupant := some { e with links := e.links.eraseP (·.peer = gone) } },
        platform.unmap ⟨.ofNat index, slot.generation⟩ link.region)

/-- Some slots when an enclave goes, in order, the first of them in place `index`. -/
def unlinkFrom (gone : EnclaveId) :
    (index : Nat) → List Slot → Platform → List Slot × Platform
  | _, [], platform => ([], platform)
  | index, slot :: rest, platform =>
    let (slot, platform) := unlinkSlot gone index slot platform
    let (rest, platform) := unlinkFrom gone (index + 1) rest platform
    (slot :: rest, platform)

/-- Clear the slot of a handle and give back all that its enclave had. -/
def teardown (m : Monitor) (id : EnclaveId) : Monitor :=
  match m.enclave? id with
  | none => m
  | some e =>
    let cleared := m.slots.set id.index.toNat ⟨EnclaveId.nextGeneration id.generation, none⟩
    let (slots, platform) := unlinkFrom id 0 cleared m.platform
    { m with
      slots
      freeSlots := id.index :: m.freeSlots
      platform := platform.release id
      pages := m.pages.unreserve e.regions }

/-- What became of an enclave that was to go. -/
inductive DestroyOutcome where
  | destroyed
  | alreadyGone
  | retained
  deriving DecidableEq, Repr

def DestroyOutcome.name : DestroyOutcome → String
  | .destroyed => "Destroyed"
  | .alreadyGone => "AlreadyGone"
  | .retained => "Retained"

/-- Destroy an enclave, if the handle still reaches one. -/
def destroy (m : Monitor) (id : EnclaveId) : DestroyOutcome × Monitor :=
  match m.enclave? id with
  | none => (.alreadyGone, m)
  | some _ => (.destroyed, m.teardown id)

/-- Close the host's handle, which destroys the enclave unless it was told to stay. -/
def release (m : Monitor) (id : EnclaveId) : DestroyOutcome × Monitor :=
  match m.enclave? id with
  | some e => if e.destroyOnRelease then m.destroy id else (.retained, m)
  | none => m.destroy id

/-- Say whether closing the host's handle destroys an enclave. -/
def setDestroyOnRelease (m : Monitor) (id : EnclaveId) (flag : Bool) :
    Except MonitorError Unit × Monitor :=
  match m.lookup id with
  | .error error => (.error error, m)
  | .ok e => (.ok (), m.put id { e with destroyOnRelease := flag })

/-! ## Being entered -/

/-- Enter an enclave: it runs until it exits or yields. -/
def enter (m : Monitor) (id : EnclaveId) (e : Enclave) (entry : Entry) :
    Except MonitorError DomainExit × Monitor :=
  let running := { m.put id { e with state := .running } with
    platform := (m.platform.enter id entry).2 }
  match (m.platform.enter id entry).1 with
  | .error fault => (.error (.lowLevelCall id fault), running.teardown id)
  | .ok exit =>
    let state : EnclaveState :=
      match exit with
      | .exited _ => .running
      | .yielded _ => .suspended
    (.ok exit, running.put id { e with state, lastExit := some exit.value })

/-- Enter a finalized enclave for the first time. -/
def run (m : Monitor) (id : EnclaveId) : Except MonitorError DomainExit × Monitor :=
  match m.require id .finalized .run with
  | .error error => (.error error, m)
  | .ok e => m.enter id e .run

/-- Enter an enclave again after it yielded. -/
def resume (m : Monitor) (id : EnclaveId) : Except MonitorError DomainExit × Monitor :=
  match m.require id .suspended .resume with
  | .error error => (.error error, m)
  | .ok e => m.enter id e .resume

end Monitor

end Enclaves

import Enclaves.Proofs.Meeting
import Enclaves.Proofs.Teardown

/-!
# What an act does

`Effect m act m'` lists what an act can do to a monitor, one constructor for each kind of change,
with the conditions under which it happens. `effect_act` says that the list is complete. It is read
off the definitions and assumes nothing about the monitor, so that an invariant is proved by going
over the constructors: no invariant opens an operation again.

Two constructors stand for calls that are refused after something had been done, `short` and
`retract`. Whether the monitor is then as before is a matter of invariants.

Before it, for each operation, the cases it has: refused with the monitor as it was, or the change.
-/

namespace Enclaves

/-- A record after an act that concerns no other record. -/
inductive Enclave.Update (e : Enclave) : Enclave → Prop
  | setReference (reference : Reference) :
    e.state = .allocated → e.Update { e with reference := some reference }
  | load (image : Image) (reference : Reference) : e.state = .allocated →
    e.Update { e with
      memory := image.loadInto e.exclusive.size, reference := some reference }
  | finalize (layout : Layout) (digest : Digest) : e.state = .allocated →
    layout.measure e.exclusive e.memory = .ok digest →
    e.Update { e with
      layout := some layout, digest := some digest, history := some digest, state := .finalized }
  | exit (value : Nat) : e.state = .finalized ∨ e.state = .suspended →
    e.Update { e with state := .running, lastExit := some value }
  | yield (value : Nat) : e.state = .finalized ∨ e.state = .suspended →
    e.Update { e with state := .suspended, lastExit := some value }
  | setDestroyOnRelease (flag : Bool) : e.Update { e with destroyOnRelease := flag }
  | writeUntrusted (region : Region) (before after : Memory) :
    e.untrusted = some (region, before) →
    e.Update { e with untrusted := some (region, after) }

namespace Monitor

variable {m : Monitor} {id : EnclaveId} {e : Enclave}

/-! ## Coming into being -/

/-- A new enclave over regions that were reserved for it, its mailbox the next one. -/
def newcomer (m : Monitor) (exclusive : Region) (untrusted connector : Option Region) : Enclave :=
  newEnclave m.config exclusive untrusted
    (connector.map fun region => ⟨region, m.mailboxes.length⟩)

/-- The monitor with what a new enclave takes outside the table. -/
def supply (m : Monitor) (pages : PageAllocator) (e : Enclave) : Monitor :=
  { m with
    pages
    mailboxes := m.mailboxes ++
      e.connector.toList.map fun _ => Mailbox.empty m.config.mailboxCapacity }

/-- The monitor with one more enclave, and the handle for it. -/
def enroll (m : Monitor) (exclusive : Region) (untrusted connector : Option Region)
    (pages : PageAllocator) : EnclaveId × Monitor :=
  (m.supply pages (m.newcomer exclusive untrusted connector)).settle
    (m.newcomer exclusive untrusted connector)

/-- Mailboxes and pages say nothing of slots. -/
theorem StackSound.supply (h : m.StackSound) (pages : PageAllocator) (e : Enclave) :
    (m.supply pages e).StackSound :=
  ⟨h.nodup, h.vacant⟩

/-- One handle comes to reach the new enclave, all others reach what they reached before. -/
theorem enclave?_enroll (hstack : m.StackSound) (exclusive : Region)
    (untrusted connector : Option Region) (pages : PageAllocator) (id : EnclaveId) :
    (m.enroll exclusive untrusted connector pages).2.enclave? id = m.enclave? id ∨
      m.enclave? id = none ∧ (m.enroll exclusive untrusted connector pages).2.enclave? id =
        some (m.newcomer exclusive untrusted connector) :=
  enclave?_settle (hstack.supply pages _) (m.newcomer exclusive untrusted connector) id

/-- The pages asked for by an allocation, and what the allocator answers. -/
def reserveFor (m : Monitor) (minPages : Nat) :
    Except Shortage (Region × Option Region × Option Region) × PageAllocator :=
  m.pages.reserveAll minPages m.config.untrustedPages m.config.connectorPages

/-- An allocation is refused at once, or runs short of pages and keeps what is left, or goes
through. -/
theorem allocate_cases (m : Monitor) (minPages : Nat) :
    (∃ error, m.allocate minPages = (.error error, m)) ∨
    (∃ shortage pages, m.reserveFor minPages = (.error shortage, pages) ∧
      m.allocate minPages = (.error (.resourceExhausted shortage), { m with pages })) ∨
    ∃ exclusive untrusted connector pages,
      m.reserveFor minPages = (.ok (exclusive, untrusted, connector), pages) ∧
      m.allocate minPages = (.ok (m.enroll exclusive untrusted connector pages).1,
        (m.enroll exclusive untrusted connector pages).2) := by
  unfold allocate
  split
  · exact .inl ⟨_, rfl⟩
  split
  · exact .inl ⟨_, rfl⟩
  split
  · rename_i shortage pages hreserve
    exact .inr (.inl ⟨shortage, pages, hreserve, rfl⟩)
  · rename_i exclusive untrusted connector pages hreserve
    exact .inr (.inr ⟨exclusive, untrusted, connector, pages, hreserve, rfl⟩)

/-- A handle is answered for a new enclave. -/
theorem enroll_of_allocated {minPages : Nat}
    (h : (m.step (.allocate minPages)).1 = .ok (.allocated id)) :
    ∃ exclusive untrusted connector pages,
      id = (m.enroll exclusive untrusted connector pages).1 ∧
      (m.step (.allocate minPages)).2 = (m.enroll exclusive untrusted connector pages).2 := by
  have hstep : m.step (.allocate minPages) = answer .allocated (m.allocate minPages) := rfl
  rw [hstep] at h ⊢
  rcases allocate_cases m minPages with ⟨_, hcall⟩ | ⟨_, _, -, hcall⟩ |
    ⟨exclusive, untrusted, connector, pages, -, hcall⟩
  · rw [hcall] at h
    cases h
  · rw [hcall] at h
    cases h
  · rw [hcall] at h ⊢
    cases h
    exact ⟨exclusive, untrusted, connector, pages, rfl, rfl⟩

/-- A reference is given to an enclave that is allocated, or nothing is changed. -/
theorem setReference_cases (m : Monitor) (id : EnclaveId) (text : String) :
    (∃ error, m.setReference id text = (.error error, m)) ∨
    ∃ e reference, m.enclave? id = some e ∧ e.state = .allocated ∧
      Reference.ofString text = .ok reference ∧
      m.setReference id text = (.ok (), m.put id { e with reference := some reference }) := by
  unfold setReference
  split
  · exact .inl ⟨_, rfl⟩
  rename_i reference htext
  split
  · exact .inl ⟨_, rfl⟩
  rename_i e hrequire
  obtain ⟨hlive, hstate⟩ := require_eq_ok_iff.mp hrequire
  exact .inr ⟨e, reference, hlive, hstate, htext, rfl⟩

/-- An image that is loaded has pages enough in the exclusive region. -/
theorem load_cases (m : Monitor) (id : EnclaveId) (bundle : Bundle) :
    (∃ error, m.load id bundle = (.error error, m)) ∨
    ∃ e reference, m.enclave? id = some e ∧ e.state = .allocated ∧
      Reference.ofString bundle.reference = .ok reference ∧
      bundle.image.pages ≤ e.exclusive.pages ∧
      m.load id bundle = (.ok (bundle.image.layoutAt e.exclusive.base),
        m.put id { e with
          memory := bundle.image.loadInto e.exclusive.size, reference := some reference }) := by
  unfold load
  split
  · exact .inl ⟨_, rfl⟩
  rename_i reference htext
  split
  · exact .inl ⟨_, rfl⟩
  split
  · exact .inl ⟨_, rfl⟩
  rename_i e hrequire
  obtain ⟨hlive, hstate⟩ := require_eq_ok_iff.mp hrequire
  split
  · exact .inl ⟨_, rfl⟩
  · rename_i hroom
    exact .inr ⟨e, reference, hlive, hstate, htext, Nat.not_lt.mp hroom, rfl⟩

/-- A measurement is written into an enclave that is allocated, or nothing is changed. -/
theorem finalize_cases (m : Monitor) (id : EnclaveId) (layout : Layout) :
    (∃ error, m.finalize id layout = (.error error, m)) ∨
    ∃ e digest, m.enclave? id = some e ∧ e.state = .allocated ∧
      layout.measure e.exclusive e.memory = .ok digest ∧
      m.finalize id layout = (.ok digest,
        m.put id { e with
          layout := some layout, digest := some digest, history := some digest,
          state := .finalized }) := by
  unfold finalize
  split
  · exact .inl ⟨_, rfl⟩
  rename_i e hrequire
  obtain ⟨hlive, hstate⟩ := require_eq_ok_iff.mp hrequire
  split
  · exact .inl ⟨_, rfl⟩
  split
  · exact .inl ⟨_, rfl⟩
  · rename_i digest hmeasure
    exact .inr ⟨e, digest, hlive, hstate, hmeasure, rfl⟩

/-! ## Going -/

/-- The monitor with an entry on the platform's record. -/
def noteEntry (m : Monitor) (id : EnclaveId) (entry : Entry) : Monitor :=
  { m with platform := { m.platform with entries := m.platform.entries ++ [(id, entry)] } }

/-- Whoever lives is taken down, and nobody else is touched. -/
theorem destroy_cases (m : Monitor) (id : EnclaveId) :
    (m.enclave? id = none ∧ m.destroy id = (.alreadyGone, m)) ∨
    ∃ e, m.enclave? id = some e ∧ m.destroy id = (.destroyed, m.teardown id) := by
  unfold destroy
  cases h : m.enclave? id with
  | none => exact .inl ⟨rfl, rfl⟩
  | some e => exact .inr ⟨e, rfl, rfl⟩

/-- A release finds nobody, or keeps the enclave as it is, or takes it down. -/
theorem release_cases (m : Monitor) (id : EnclaveId) :
    (m.enclave? id = none ∧ m.release id = (.alreadyGone, m)) ∨
    m.release id = (.retained, m) ∨
    ∃ e, m.enclave? id = some e ∧ m.release id = (.destroyed, m.teardown id) := by
  unfold release destroy
  cases h : m.enclave? id with
  | none => exact .inl ⟨rfl, rfl⟩
  | some e =>
    cases hflag : e.destroyOnRelease with
    | false => exact .inr (.inl (by simp [hflag]))
    | true => exact .inr (.inr ⟨e, rfl, by simp [hflag]⟩)

/-- What is to become of an enclave on its release is noted, or there is no enclave. -/
theorem setDestroyOnRelease_cases (m : Monitor) (id : EnclaveId) (flag : Bool) :
    (∃ error, m.setDestroyOnRelease id flag = (.error error, m)) ∨
    ∃ e, m.enclave? id = some e ∧
      m.setDestroyOnRelease id flag = (.ok (), m.put id { e with destroyOnRelease := flag }) := by
  unfold setDestroyOnRelease
  split
  · exact .inl ⟨_, rfl⟩
  · rename_i e hlookup
    exact .inr ⟨e, lookup_eq_ok_iff.mp hlookup, rfl⟩

/-! ## Being entered -/

/-- The monitor once an enclave was entered, with the record that this left. -/
def entered (m : Monitor) (id : EnclaveId) (f : Enclave) (entry : Entry) : Monitor :=
  { m.put id f with platform := (m.platform.enter id entry).2 }

/-- Entering maps nothing. -/
theorem mappings_enter (p : Platform) (id : EnclaveId) (entry : Entry) :
    (p.enter id entry).2.mappings = p.mappings := by
  simp only [Platform.enter]
  split <;> rfl

/-- A failed entry: whatever the entry did to the record and the script goes with the enclave. -/
theorem teardown_entered (h : m.enclave? id = some e) (entry : Entry) (f : Enclave)
    (hregions : f.regions = e.regions) :
    (m.entered id f entry).teardown id = (m.teardown id).noteEntry id entry := by
  have hf : (m.entered id f entry).enclave? id = some f := enclave?_put_self h f
  have hcleared : (m.entered id f entry).cleared id = m.cleared id := by
    simp only [cleared, entered, put, List.set_set]
  have hkept : (m.entered id f entry).platform.mappings = m.platform.mappings :=
    mappings_enter _ _ _
  have hmappings : (m.entered id f entry).mappingsWithout id = m.mappingsWithout id := by
    simp only [mappingsWithout, hcleared, hkept]
  rw [teardown_eq hf, teardown_eq h, noteEntry, slotsWithout, slotsWithout, hcleared, hmappings,
    hregions]
  simp only [entered, put, Monitor.mk.injEq, Platform.mk.injEq, true_and, and_true]
  simp only [Platform.enter]
  split
  · exact ⟨rfl, rfl, rfl, rfl⟩
  · refine ⟨?_, rfl, rfl, rfl⟩
    -- the script is the only part that differs, and the teardown empties it
    funext other
    by_cases hother : other = id <;> simp [Platform.set, hother]

/-- What comes of an entry is up to the platform. -/
theorem enter_eq (h : m.enclave? id = some e) (entry : Entry) :
    m.enter id e entry =
      match (m.platform.enter id entry).1 with
      | .error fault => (.error (.lowLevelCall id fault), (m.teardown id).noteEntry id entry)
      | .ok (.exited value) => (.ok (.exited value),
          m.entered id { e with state := .running, lastExit := some value } entry)
      | .ok (.yielded value) => (.ok (.yielded value),
          m.entered id { e with state := .suspended, lastExit := some value } entry) := by
  have hagain (f : Enclave) :
      (m.entered id { e with state := .running } entry).put id f = m.entered id f entry := by
    simp [entered, put, List.set_set]
  unfold enter
  cases hexit : (m.platform.enter id entry).1 with
  | error fault => exact congrArg _ (teardown_entered h entry { e with state := .running } rfl)
  | ok exit =>
    cases exit with
    | exited value => exact congrArg _ (hagain _)
    | yielded value => exact congrArg _ (hagain _)

/-- Entering an enclave: it leaves with the failure, or it exits or yields. -/
theorem enter_cases (h : m.enclave? id = some e) (entry : Entry) :
    (∃ fault, m.enter id e entry =
      (.error (.lowLevelCall id fault), (m.teardown id).noteEntry id entry)) ∨
    (∃ value, m.enter id e entry = (.ok (.exited value),
      m.entered id { e with state := .running, lastExit := some value } entry)) ∨
    ∃ value, m.enter id e entry = (.ok (.yielded value),
      m.entered id { e with state := .suspended, lastExit := some value } entry) := by
  rw [enter_eq h]
  split
  · rename_i fault _
    exact .inl ⟨fault, rfl⟩
  · rename_i value _
    exact .inr (.inl ⟨value, rfl⟩)
  · rename_i value _
    exact .inr (.inr ⟨value, rfl⟩)

/-- Entering an enclave that is in a certain state. -/
def enterFrom (m : Monitor) (id : EnclaveId) (state : EnclaveState) (refusal : Refusal)
    (entry : Entry) : Except MonitorError DomainExit × Monitor :=
  match m.require id state refusal with
  | .error error => (.error error, m)
  | .ok e => m.enter id e entry

/-- To run is to enter for the first time. -/
theorem run_eq (m : Monitor) (id : EnclaveId) : m.run id = m.enterFrom id .finalized .run .run :=
  rfl

/-- To resume is to enter once more. -/
theorem resume_eq (m : Monitor) (id : EnclaveId) :
    m.resume id = m.enterFrom id .suspended .resume .resume :=
  rfl

/-- Only the platform says that a call failed underneath. -/
theorem require_error_ne_lowLevelCall {state : EnclaveState} {refusal : Refusal}
    {error : MonitorError} (h : m.require id state refusal = .error error) (into : EnclaveId)
    (fault : PlatformFault) : error ≠ .lowLevelCall into fault := by
  rintro rfl
  unfold require lookup at h
  split at h
  · rename_i hlookup
    split at hlookup <;> cases hlookup
    cases h
  · split at h <;> cases h

/-- An entry is refused before the platform is asked, or made into an enclave in the right state. -/
theorem enterFrom_cases (m : Monitor) (id : EnclaveId) (state : EnclaveState) (refusal : Refusal)
    (entry : Entry) :
    (∃ error, (∀ into fault, error ≠ .lowLevelCall into fault) ∧
      m.enterFrom id state refusal entry = (.error error, m)) ∨
    ∃ e, m.enclave? id = some e ∧ e.state = state ∧
      m.enterFrom id state refusal entry = m.enter id e entry := by
  unfold enterFrom
  split
  · rename_i error hrequire
    exact .inl ⟨error, require_error_ne_lowLevelCall hrequire, rfl⟩
  · rename_i e hrequire
    obtain ⟨hlive, hstate⟩ := require_eq_ok_iff.mp hrequire
    exact .inr ⟨e, hlive, hstate, rfl⟩

/-! ## Around the calls -/

/-- What happens around the calls reaches the table in one way only, by a write of the host. -/
theorem undergo_cases (m : Monitor) (happening : Happening) :
    (∃ platform mailboxes, platform.mappings = m.platform.mappings ∧
      m.undergo happening = { m with platform, mailboxes }) ∨
    ∃ id offset bytes e region memory, happening = .writeUntrusted id offset bytes ∧
      m.enclave? id = some e ∧ e.untrusted = some (region, memory) ∧
      m.undergo happening =
        m.put id { e with untrusted := some (region, memory.write offset bytes) } := by
  cases happening with
  | scriptEntry id result =>
    exact .inl ⟨m.platform.scriptEntry id result, m.mailboxes, rfl, rfl⟩
  | refuseMaps id refuse => exact .inl ⟨m.platform.refuseMaps id refuse, m.mailboxes, rfl, rfl⟩
  | failReleases fail => exact .inl ⟨m.platform.failReleases fail, m.mailboxes, rfl, rfl⟩
  | writeUntrusted id offset bytes =>
    simp only [undergo, writeUntrusted]
    split
    · exact .inl ⟨_, _, rfl, rfl⟩
    rename_i e hlookup
    split
    · exact .inl ⟨_, _, rfl, rfl⟩
    · rename_i region memory huntrusted
      exact .inr ⟨id, offset, bytes, e, region, memory, rfl, lookup_eq_ok_iff.mp hlookup,
        huntrusted, rfl⟩
  | send mailbox message =>
    simp only [undergo, send?]
    split
    · rename_i hsend
      split at hsend
      · cases hsend
      split at hsend
      · cases hsend
      cases hsend
      exact .inl ⟨_, _, rfl, rfl⟩
    · exact .inl ⟨_, _, rfl, rfl⟩
  | receive mailbox room =>
    simp only [undergo, receive?]
    split
    · rename_i hreceive
      split at hreceive
      · cases hreceive
      split at hreceive
      · cases hreceive
      cases hreceive
      exact .inl ⟨_, _, rfl, rfl⟩
    · exact .inl ⟨_, _, rfl, rfl⟩

/-! ## The list of effects -/

/-- What an act does to a monitor. -/
inductive Effect (m : Monitor) : Act → Monitor → Prop
  /-- Nothing. -/
  | idle {act : Act} : m.Effect act m
  /-- Something around the calls, which maps nothing and reaches no record. -/
  | around {happening : Happening} {platform : Platform} {mailboxes : List Mailbox} :
    platform.mappings = m.platform.mappings →
    m.Effect (.happening happening) { m with platform, mailboxes }
  /-- An allocation for which the pages do not suffice. -/
  | short {minPages : Nat} {shortage : Shortage} {pages : PageAllocator} :
    m.reserveFor minPages = (.error shortage, pages) →
    m.Effect (.call (.allocate minPages)) { m with pages }
  /-- A new enclave. -/
  | enroll {minPages : Nat} {exclusive : Region} {untrusted connector : Option Region}
    {pages : PageAllocator} :
    m.reserveFor minPages = (.ok (exclusive, untrusted, connector), pages) →
    m.Effect (.call (.allocate minPages)) (m.enroll exclusive untrusted connector pages).2
  /-- One record changes, with no say in who is connected to whom. -/
  | update {act : Act} {id : EnclaveId} {e e' : Enclave} {platform : Platform} :
    m.enclave? id = some e → e.Update e' → platform.mappings = m.platform.mappings →
    m.Effect act { m.put id e' with platform }
  /-- An enclave is gone. -/
  | remove {act : Act} {id : EnclaveId} {e : Enclave} {entries : List (EnclaveId × Entry)} :
    m.enclave? id = some e →
    m.Effect act { m.teardown id with
      platform := { (m.teardown id).platform with entries } }
  /-- A connection whose second mapping is refused. -/
  | retract {sideA sideB : Side} {eA eB : Enclave} : sideA.id ≠ sideB.id →
    m.Partner .connect sideA eA sideB → m.Partner .connect sideB eB sideA →
    m.Effect (.call (.connect sideA.id sideB.id))
      { m with platform := m.platform.retract sideA.id sideB.connector.region }
  /-- A connection event that went through. -/
  | meet {event : Event} {sideA sideB : Side} {eA eB : Enclave} : sideA.id ≠ sideB.id →
    m.Partner event sideA eA sideB → m.Partner event sideB eB sideA →
    (m.step (.meeting event sideA.id sideB.id)).1 = .ok .done →
    m.Effect (.call (.meeting event sideA.id sideB.id)) (m.meet event sideA sideB eA eB)

/-- An entry that is refused has no effect, and one that is made has that of an entry. -/
theorem effect_enterFrom {call : Call} (state : EnclaveState) (refusal : Refusal) (entry : Entry)
    (hstate : state = .finalized ∨ state = .suspended) :
    m.Effect (.call call) (m.enterFrom id state refusal entry).2 := by
  rcases enterFrom_cases m id state refusal entry with ⟨_, -, hcall⟩ | ⟨e, hlive, hin, hcall⟩
  · rw [hcall]
    exact .idle
  · rw [← hin] at hstate
    rcases enter_cases hlive entry with ⟨_, henter⟩ | ⟨value, henter⟩ | ⟨value, henter⟩
    · rw [hcall, henter]
      exact .remove hlive
    · rw [hcall, henter]
      exact .update hlive (.exit value hstate) (mappings_enter _ _ _)
    · rw [hcall, henter]
      exact .update hlive (.yield value hstate) (mappings_enter _ _ _)

/-- Every call is on the list. -/
theorem effect_call (m : Monitor) (call : Call) : m.Effect (.call call) (m.step call).2 := by
  cases call with
  | allocate minPages =>
    show m.Effect _ (m.allocate minPages).2
    rcases allocate_cases m minPages with ⟨_, hcall⟩ | ⟨_, pages, hreserve, hcall⟩ |
      ⟨exclusive, untrusted, connector, pages, hreserve, hcall⟩
    · rw [hcall]
      exact .idle
    · rw [hcall]
      exact .short hreserve
    · rw [hcall]
      exact .enroll hreserve
  | setReference id text =>
    show m.Effect _ (m.setReference id text).2
    rcases setReference_cases m id text with ⟨_, hcall⟩ | ⟨e, reference, hlive, hstate, -, hcall⟩
    · rw [hcall]
      exact .idle
    · rw [hcall]
      exact .update hlive (.setReference reference hstate) rfl
  | load id bundle =>
    show m.Effect _ (m.load id bundle).2
    rcases load_cases m id bundle with ⟨_, hcall⟩ | ⟨e, reference, hlive, hstate, -, -, hcall⟩
    · rw [hcall]
      exact .idle
    · rw [hcall]
      exact .update hlive (.load bundle.image reference hstate) rfl
  | finalize id layout =>
    show m.Effect _ (m.finalize id layout).2
    rcases finalize_cases m id layout with ⟨_, hcall⟩ | ⟨e, digest, hlive, hstate, hmeasure, hcall⟩
    · rw [hcall]
      exact .idle
    · rw [hcall]
      exact .update hlive (.finalize layout digest hstate hmeasure) rfl
  | run id =>
    show m.Effect _ (m.run id).2
    rw [run_eq]
    exact effect_enterFrom _ _ _ (.inl rfl)
  | resume id =>
    show m.Effect _ (m.resume id).2
    rw [resume_eq]
    exact effect_enterFrom _ _ _ (.inr rfl)
  | destroy id =>
    show m.Effect _ (m.destroy id).2
    rcases destroy_cases m id with ⟨-, hcall⟩ | ⟨e, hlive, hcall⟩
    · rw [hcall]
      exact .idle
    · rw [hcall]
      exact .remove hlive
  | release id =>
    show m.Effect _ (m.release id).2
    rcases release_cases m id with ⟨-, hcall⟩ | hcall | ⟨e, hlive, hcall⟩
    · rw [hcall]
      exact .idle
    · rw [hcall]
      exact .idle
    · rw [hcall]
      exact .remove hlive
  | setDestroyOnRelease id flag =>
    show m.Effect _ (m.setDestroyOnRelease id flag).2
    rcases setDestroyOnRelease_cases m id flag with ⟨_, hcall⟩ | ⟨e, hlive, hcall⟩
    · rw [hcall]
      exact .idle
    · rw [hcall]
      exact .update hlive (.setDestroyOnRelease flag) rfl
  | connect a b =>
    show m.Effect _ (m.connect a b).2
    rcases connect_cases m a b with
      ⟨_, hcall⟩ | ⟨sideA, sideB, eA, eB, rfl, rfl, hne, hA, hB, ⟨_, hcall⟩ | hcall⟩
    · rw [hcall]
      exact .idle
    · rw [hcall]
      exact .retract hne hA hB
    · rw [hcall]
      exact @Effect.meet m .connect _ _ _ _ hne hA hB (by
        simp [Call.meeting, step, answer, hcall, Except.map])
  | disconnect a b =>
    show m.Effect _ (m.disconnect a b).2
    rcases disconnect_cases m a b with
      ⟨_, hcall⟩ | ⟨sideA, sideB, eA, eB, rfl, rfl, hne, hA, hB, hcall⟩
    · rw [hcall]
      exact .idle
    · rw [hcall]
      exact @Effect.meet m .disconnect _ _ _ _ hne hA hB (by
        simp [Call.meeting, step, answer, hcall, Except.map])
  | attest id data => exact .idle

/-- Everything that happens around the calls is on the list. -/
theorem effect_happening (m : Monitor) (happening : Happening) :
    m.Effect (.happening happening) (m.undergo happening) := by
  rcases undergo_cases m happening with
    ⟨platform, mailboxes, hmappings, hafter⟩ |
    ⟨id, _, _, e, region, memory, -, hlive, huntrusted, hafter⟩
  · rw [hafter]
    exact .around hmappings
  · rw [hafter]
    exact .update hlive (.writeUntrusted region memory _ huntrusted) rfl

/-- Every act has one of the listed effects. -/
theorem effect_act (m : Monitor) (act : Act) : m.Effect act (m.act act) := by
  cases act with
  | call call => exact effect_call m call
  | happening happening => exact effect_happening m happening

/-- What every effect keeps holds after every run. -/
theorem perform_induction {P : Monitor → Prop}
    (hstep : ∀ {m m' : Monitor} {act : Act}, P m → m.Effect act m' → P m') (h : P m)
    (acts : List Act) : P (m.perform acts) := by
  induction acts generalizing m with
  | nil => exact h
  | cons act rest ih => exact ih (hstep h (effect_act m act))

end Monitor

end Enclaves

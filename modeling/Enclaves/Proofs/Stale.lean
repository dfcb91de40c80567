import Enclaves.Proofs.Generations
import Enclaves.Proofs.Refusal

/-!
# Stale handles

A handle is stale once its enclave is gone. It then reaches nothing for the rest of the run, however
often its slot is taken again, and no handle is given out twice (`stale_handles_stay_stale`).
`Stale` says what the monitor answers to a stale handle: every call about it is refused for the
handle and changes nothing, but for the calls that look at their other arguments first, and for
those that name it second: a meeting looks at the other enclave first, and a mailbox is asked for at
the enclave that sends. No link leads to an enclave that is gone (`LinksPaired.linkTo?_of_gone`), so
that one answers that it is not connected.

All this holds of runs that stay inside the two words of a handle (`Bounded`), which is so of every
run with fewer acts than a word counts (`bounded_of_length`). Beyond them it does not hold: a slot
that was cleared often enough has its first generation again, and in a table that is long enough two
slots have the same index (`handles_return`).
-/

namespace Enclaves

/-- The enclave that a call is about; of two that are to meet, the one that is looked at first. The
calls that end an enclave are not among these, nor is the one that makes one. -/
def Call.subject? : Call → Option EnclaveId
  | .allocate _ | .destroy _ | .release _ => none
  | .setReference id _ | .load id _ | .finalize id _ | .run id | .resume id
  | .setDestroyOnRelease id _ | .attest id _ => some id
  | .connect a _ | .disconnect a _ => some a

/-- What is wrong with the other arguments of a call, as far as it is found before the enclave is
looked at. -/
def Call.fault? : Call → Option MonitorError
  | .setReference _ text =>
    match Reference.ofString text with
    | .error fault => some (.invalidArgument (.reference fault))
    | .ok _ => none
  | .load _ bundle =>
    match Reference.ofString bundle.reference with
    | .error fault => some (.invalidArgument (.reference fault))
    | .ok _ =>
      if bundle.image.segments.any List.isEmpty then some (.layoutInvalid .emptySegment) else none
  | _ => none

namespace Monitor

variable {m m' : Monitor} {id other : EnclaveId} {e : Enclave}

/-- What a monitor answers to a stale handle. -/
structure Stale (m : Monitor) (id : EnclaveId) : Prop where
  lookup : m.lookup id = .error (.invalidHandle id)
  state : m.state id = .ok .destroyed
  destroy : m.step (.destroy id) = (.ok (.gone .alreadyGone), m)
  release : m.step (.release id) = (.ok (.gone .alreadyGone), m)
  call : ∀ call, call.subject? = some id →
    m.step call = (.error (call.fault?.getD (.invalidHandle id)), m)
  /-- Named second, it is refused once the other enclave has nothing against the event. -/
  meeting : ∀ event other, other ≠ id → ∃ error,
    m.step (.meeting event other id) = (.error error, m) ∧
      (error = .invalidHandle id ∨ m.checkSide other id event = .error error)
  measurement : m.measurement id = .error (.invalidHandle id)
  history : m.history id = .error (.invalidHandle id)
  connectionLog : m.connectionLog id = .error (.invalidHandle id)
  status : m.status id = .error (.invalidHandle id)
  untrusted : m.untrusted id = .error (.invalidHandle id)
  writeUntrusted : ∀ offset bytes,
    m.writeUntrusted id offset bytes = (.error (.invalidHandle id), m)
  inbox : m.inbox id = .error (.invalidHandle id)
  outbox : ∀ peer, m.outbox id peer = .error (.invalidHandle id)
  /-- Named as the peer, it is one that the enclave which is asked has no link to. -/
  outboxTo : ∀ other, m.outbox other id = .error ((m.enclave? other).elim (.invalidHandle other)
    fun e => .invalidState other e.state .noPeerMailbox)

/-! ## Handles that reach nothing -/

section Gone

variable (h : m.enclave? id = none)
include h

/-- No requirement is met by an enclave that is gone. -/
theorem require_of_gone (state : EnclaveState) (refusal : Refusal) :
    m.require id state refusal = .error (.invalidHandle id) := by
  rw [require, lookup_of_gone h]

/-- Nor does it pass as a side of a meeting. -/
theorem checkSide_of_gone (peer : EnclaveId) (event : Event) :
    m.checkSide id peer event = .error (.invalidHandle id) := by
  rw [checkSide, lookup_of_gone h]

/-- So a meeting with it in the first place is refused for it. -/
theorem prepare_of_gone (peer : EnclaveId) (event : Event) :
    m.prepare id peer event = .error (.invalidHandle id) := by
  rw [prepare]
  split
  · rw [lookup_of_gone h]
  · rw [checkSide_of_gone h]

/-- In the second place it is refused for the other side, if that has anything against the event. -/
theorem prepare_of_peer_gone (hne : other ≠ id) (event : Event) :
    ∃ error, m.prepare other id event = .error error ∧
      (error = .invalidHandle id ∨ m.checkSide other id event = .error error) := by
  rw [prepare, if_neg hne]
  cases hcheck : m.checkSide other id event with
  | error error => exact ⟨error, rfl, .inr rfl⟩
  | ok found => exact ⟨.invalidHandle id, by simp [checkSide_of_gone h], .inl rfl⟩

/-- Every call about it is refused, for it or for an argument that is looked at first. -/
theorem step_of_gone (call : Call) (hsubject : call.subject? = some id) :
    m.step call = (.error (call.fault?.getD (.invalidHandle id)), m) := by
  cases call with
  | allocate minPages => cases hsubject
  | destroy id => cases hsubject
  | release id => cases hsubject
  | setReference id text =>
    cases hsubject
    simp only [step, setReference, Call.fault?, require_of_gone h]
    cases Reference.ofString text <;> rfl
  | load id bundle =>
    cases hsubject
    simp only [step, load, Call.fault?, require_of_gone h]
    cases Reference.ofString bundle.reference with
    | error fault => rfl
    | ok reference =>
      dsimp only
      split <;> rfl
  | finalize id layout =>
    cases hsubject
    rw [step, finalize, require_of_gone h]
    rfl
  | run id =>
    cases hsubject
    rw [step, run, require_of_gone h]
    rfl
  | resume id =>
    cases hsubject
    rw [step, resume, require_of_gone h]
    rfl
  | setDestroyOnRelease id flag =>
    cases hsubject
    rw [step, setDestroyOnRelease, lookup_of_gone h]
    rfl
  | connect id peer =>
    cases hsubject
    rw [step, connect, prepare_of_gone h]
    rfl
  | disconnect id peer =>
    cases hsubject
    rw [step, disconnect, prepare_of_gone h]
    rfl
  | attest id data =>
    cases hsubject
    rw [step, attest, lookup_of_gone h]
    rfl

/-- A meeting with it in the second place is refused, and changes nothing. -/
theorem step_meeting_of_peer_gone (hne : other ≠ id) (event : Event) :
    ∃ error, m.step (.meeting event other id) = (.error error, m) ∧
      (error = .invalidHandle id ∨ m.checkSide other id event = .error error) := by
  obtain ⟨error, hprepare, hcause⟩ := prepare_of_peer_gone h hne event
  exact ⟨error, step_meeting_of_refused hprepare, hcause⟩

/-- A mailbox of an enclave that is gone is refused by whoever is asked for it. -/
theorem outbox_of_peer_gone (hpaired : LinksPaired m) (other : EnclaveId) :
    m.outbox other id = .error ((m.enclave? other).elim (.invalidHandle other)
      fun e => .invalidState other e.state .noPeerMailbox) := by
  cases hother : m.enclave? other with
  | none =>
    rw [outbox, lookup_of_gone hother]
    rfl
  | some e =>
    rw [outbox, lookup_eq_ok_iff.mpr hother]
    dsimp only
    rw [hpaired.linkTo?_of_gone hother h]
    rfl

end Gone

/-- A handle that is known and reaches nothing has been left behind by its slot. -/
theorem Known.state_of_gone (hknown : m.Known id)
    (hfirst : EnclaveId.firstGeneration ≤ id.generation) (h : m.enclave? id = none) :
    m.state id = .ok .destroyed := by
  obtain ⟨generation, taken, hget, hlt | ⟨rfl, rfl⟩⟩ := hknown
  · obtain ⟨occupant, hslot, -⟩ := register_eq_some_iff.mp hget
    have hlt : id.generation < generation := UInt32.lt_iff_toNat_lt.mpr hlt
    have hne : generation ≠ id.generation := fun heq => by
      rw [heq] at hlt
      exact absurd hlt (UInt32.lt_irrefl _)
    simp only [state, hslot, if_neg hne, if_pos (And.intro hfirst hlt)]
  · have hlive := isSome_enclave?_iff.mpr hget
    rw [h] at hlive
    cases hlive

/-- A handle that is known and reaches nothing is stale. -/
theorem Known.stale (hknown : m.Known id) (hfirst : EnclaveId.firstGeneration ≤ id.generation)
    (hpaired : LinksPaired m) (h : m.enclave? id = none) : m.Stale id where
  lookup := lookup_of_gone h
  state := hknown.state_of_gone hfirst h
  destroy := by rw [Monitor.step, destroy_of_gone h]
  release := by rw [Monitor.step, release_of_gone h]
  call := step_of_gone h
  meeting event other hne := step_meeting_of_peer_gone h hne event
  measurement := by rw [measurement, lookup_of_gone h]
  history := by rw [history, lookup_of_gone h]
  connectionLog := by
    rw [connectionLog, lookup_of_gone h]
    rfl
  status := by
    rw [status, lookup_of_gone h]
    rfl
  untrusted := by rw [untrusted, lookup_of_gone h]
  writeUntrusted offset bytes := by rw [writeUntrusted, lookup_of_gone h]
  inbox := by rw [inbox, lookup_of_gone h]
  outbox peer := by rw [outbox, lookup_of_gone h]
  outboxTo := outbox_of_peer_gone h hpaired

/-! ## Handles through a run -/

/-- The handle that is given out at some moment of a run. -/
def Issues (m : Monitor) (acts : List Act) (moment : Nat) (id : EnclaveId) : Prop :=
  ∃ minPages, acts[moment]? = some (.call (.allocate minPages)) ∧
    ((m.upTo acts moment).step (.allocate minPages)).1 = .ok (.allocated id)

section Run

variable {config : Config} {platform : Platform} {identity : Identity} {acts : List Act}
  {moment : Nat}

/-- A handle is issued by the act that takes its slot. -/
theorem Issues.takes (hstart : Monitor.start config platform identity = .ok m)
    (h : m.Issues acts moment id) : (m.upTo acts moment).Takes (m.upTo acts (moment + 1)) id := by
  obtain ⟨minPages, hact, hanswer⟩ := h
  rw [upTo_succ hact]
  exact takes_of_allocated (stackSound_upTo hstart acts moment) hanswer

/-- A handle that is given out reaches the new enclave. -/
theorem Issues.live (hstart : Monitor.start config platform identity = .ok m)
    (hbounded : m.Bounded acts) (h : m.Issues acts moment id) :
    ((m.upTo acts (moment + 1)).enclave? id).isSome = true :=
  (h.takes hstart).live (numbered_upTo hstart hbounded _)

/-- A handle is not given out again. -/
theorem Issues.le_of_issues (hstart : Monitor.start config platform identity = .ok m)
    (hbounded : m.Bounded acts) {later : Nat} (h : m.Issues acts moment id)
    (hlater : m.Issues acts later id) : later ≤ moment := by
  by_contra hlt
  have hknown := known_of_live (h.live hstart hbounded)
  exact (hlater.takes hstart).not_known (numbered_upTo hstart hbounded _)
    (known_upTo hstart hbounded hknown (Nat.not_le.mp hlt))

/-- No handle with a generation before the first reaches an enclave. -/
theorem first_le_of_live (hstart : Monitor.start config platform identity = .ok m)
    (hbounded : m.Bounded acts) (h : ((m.upTo acts moment).enclave? id).isSome = true) :
    EnclaveId.firstGeneration ≤ id.generation := by
  have hgeneration := (numbered_upTo hstart hbounded moment).generation_eq
    (isSome_enclave?_iff.mp h)
  rw [UInt32.le_iff_toNat_le, hgeneration]
  exact Nat.le_add_left _ _

end Run

/-- With a configuration that is accepted, in every run that stays inside the two words of a handle:
an allocation answers a handle that reaches the new enclave and that no other allocation answers;
and from the moment when the enclave behind a handle is gone, the handle reaches nothing and is
stale. -/
theorem stale_handles_stay_stale {config : Config} (hconfig : config.validate = .ok ())
    (platform : Platform) (identity : Identity) :
    ∃ m, Monitor.start config platform identity = .ok m ∧ ∀ acts, m.Bounded acts →
      (∀ moment id, m.Issues acts moment id →
        ((m.upTo acts (moment + 1)).enclave? id).isSome = true ∧
        ∀ other, m.Issues acts other id → other = moment) ∧
      ∀ id earlier gone later, ((m.upTo acts earlier).enclave? id).isSome = true →
        earlier ≤ gone → (m.upTo acts gone).enclave? id = none → gone ≤ later →
        (m.upTo acts later).enclave? id = none ∧ (m.upTo acts later).Stale id := by
  have hstart : Monitor.start config platform identity = .ok
      ⟨config, platform, identity, [], [], .ofRange config.dramBase config.totalPages, []⟩ := by
    rw [Monitor.start, hconfig]
  refine ⟨_, hstart, ?_⟩
  intro acts hbounded
  constructor
  · intro moment id hissues
    refine ⟨hissues.live hstart hbounded, ?_⟩
    intro other hother
    exact Nat.le_antisymm (hissues.le_of_issues hstart hbounded hother)
      (hother.le_of_issues hstart hbounded hissues)
  · intro id earlier gone later hlive hearlier hgone hlater
    have hknown := known_upTo hstart hbounded (known_of_live hlive) hearlier
    have hafter := gone_upTo hstart hbounded hknown hgone hlater
    have hpaired := linksPaired_perform hstart (acts.take later)
    exact ⟨hafter, (known_upTo hstart hbounded hknown hlater).stale
      (first_le_of_live hstart hbounded hlive) hpaired hafter⟩

/-- A slot is cleared and taken again. -/
theorem stale_handles_stay_stale_default : ({} : Config).validate = .ok () ∧
    ∃ m, Monitor.start {} .initial ⟨⟨⟨List.replicate 32 7, rfl⟩⟩, ⟨⟨List.replicate 64 9, rfl⟩⟩⟩ =
        .ok m ∧
      m.Bounded [.call (.allocate 1), .call (.destroy ⟨0, 1⟩), .call (.allocate 1)] ∧
      m.Issues [.call (.allocate 1), .call (.destroy ⟨0, 1⟩), .call (.allocate 1)] 0 ⟨0, 1⟩ ∧
      m.Issues [.call (.allocate 1), .call (.destroy ⟨0, 1⟩), .call (.allocate 1)] 2 ⟨0, 2⟩ ∧
      (m.upTo [.call (.allocate 1), .call (.destroy ⟨0, 1⟩), .call (.allocate 1)] 3).enclave?
        ⟨0, 1⟩ = none ∧
      (m.upTo [.call (.allocate 1), .call (.destroy ⟨0, 1⟩), .call (.allocate 1)] 3).Stale
        ⟨0, 1⟩ := by
  refine ⟨rfl, ?_⟩
  obtain ⟨m, hstart, hall⟩ := stale_handles_stay_stale (rfl : ({} : Config).validate = .ok ())
    .initial ⟨⟨⟨List.replicate 32 7, rfl⟩⟩, ⟨⟨List.replicate 64 9, rfl⟩⟩⟩
  have hbounded : m.Bounded [.call (.allocate 1), .call (.destroy ⟨0, 1⟩), .call (.allocate 1)] :=
    bounded_of_length hstart (by decide)
  refine ⟨m, hstart, hbounded, ?_, ?_,
    (hall _ hbounded).2 ⟨0, 1⟩ 1 2 3 ?_ (by decide) ?_ (by decide)⟩
  · cases hstart
    exact ⟨1, rfl, rfl⟩
  · cases hstart
    exact ⟨1, rfl, rfl⟩
  · cases hstart
    decide
  · cases hstart
    rfl

/-! ## Beyond the words of a handle -/

/-- With room in the table and the pages reserved, an allocation goes through. -/
theorem allocate_eq_enroll {minPages : Nat} {exclusive : Region}
    {untrusted connector : Option Region} {pages : PageAllocator} (hpos : minPages ≠ 0)
    (hroom : m.count < m.config.maxEnclaves)
    (hreserve : m.reserveFor minPages = (.ok (exclusive, untrusted, connector), pages)) :
    m.step (.allocate minPages) =
      (.ok (.allocated (m.enroll exclusive untrusted connector pages).1),
        (m.enroll exclusive untrusted connector pages).2) := by
  rw [reserveFor] at hreserve
  rw [step, allocate, if_neg hpos, if_neg (Nat.not_le.mpr hroom), hreserve]
  rfl

/-- One page taken from the front of a run of free pages. -/
theorem reserveFor_one {base pages : Nat} {rest : List Extent}
    (huntrusted : m.config.untrustedPages = 0) (hconnector : m.config.connectorPages = 0)
    (hfree : m.pages.free = ⟨base, pages⟩ :: rest) (hpages : 1 < pages)
    (haligned : base % pageSize = 0) (hstop : base + pageSize < addressLimit) :
    m.reserveFor 1 = (.ok (⟨base, pageSize, .readWriteExecute, .exclusive⟩, none, none),
      { m.pages with free := ⟨base + pageSize, pages - 1⟩ :: rest }) := by
  have hcut : Extent.cutFirst 1 m.pages.free =
      some (base, ⟨base + pageSize, pages - 1⟩ :: rest) := by
    rw [hfree, Extent.cutFirst, if_pos (Nat.le_of_lt hpages), if_neg (Nat.ne_of_lt hpages),
      Nat.one_mul]
  have hmake : Region.make base (1 * pageSize) .readWriteExecute .exclusive =
      .ok ⟨base, pageSize, .readWriteExecute, .exclusive⟩ := by
    rw [Nat.one_mul]
    exact Region.make_eq_ok_iff.mpr
      ⟨rfl, (by decide : 0 < pageSize), haligned, Nat.mod_self _, hstop⟩
  have hreserve : m.pages.reserve 1 .readWriteExecute .exclusive =
      (.ok ⟨base, pageSize, .readWriteExecute, .exclusive⟩,
        { m.pages with free := ⟨base + pageSize, pages - 1⟩ :: rest }) := by
    rw [PageAllocator.reserve, PageAllocator.take?, if_neg Nat.one_ne_zero, hcut]
    dsimp only
    rw [hmake]
  rw [reserveFor, PageAllocator.reserveAll, hreserve, huntrusted, hconnector]
  rfl

/-- A configuration with room for more enclaves than there are indices, one page each. -/
def spacious : Config where
  totalPages := UInt32.size + 2
  maxEnclaves := UInt32.size + 1
  untrustedPages := 0
  connectorPages := 0

/-- Its pages when some were taken from the front. -/
def pagesAfter (taken : Nat) : PageAllocator :=
  ⟨[⟨spacious.dramBase + taken * pageSize, spacious.totalPages - taken⟩], spacious.totalPages⟩

/-- The region of an enclave for which the next page was taken. -/
def pageRegion (taken : Nat) : Region :=
  ⟨spacious.dramBase + taken * pageSize, pageSize, .readWriteExecute, .exclusive⟩

/-- The spacious monitor has a page and a place for every index there is, and for one enclave
more. -/
theorem allocate_spacious {taken : Nat} (hconfig : m.config = spacious)
    (hpages : m.pages = pagesAfter taken) (htaken : taken ≤ UInt32.size)
    (hcount : m.count ≤ UInt32.size) :
    m.step (.allocate 1) =
      (.ok (.allocated (m.enroll (pageRegion taken) none none (pagesAfter (taken + 1))).1),
        (m.enroll (pageRegion taken) none none (pagesAfter (taken + 1))).2) := by
  have htotal : spacious.totalPages = UInt32.size + 2 := rfl
  have hroom : m.count < m.config.maxEnclaves := by
    rw [hconfig]
    exact Nat.lt_succ_of_le hcount
  have hstop : spacious.dramBase + taken * pageSize + pageSize < addressLimit := by
    have hbase : spacious.dramBase = 0x80000000 := rfl
    simp only [hbase, pageSize, addressLimit, UInt32.size, UInt64.size] at htaken ⊢
    omega
  have haligned : (spacious.dramBase + taken * pageSize) % pageSize = 0 := by
    rw [Nat.add_mul_mod_self_right]
    rfl
  have hafter : { m.pages with free :=
      [⟨spacious.dramBase + taken * pageSize + pageSize, spacious.totalPages - taken - 1⟩] } =
      pagesAfter (taken + 1) := by
    rw [hpages, pagesAfter, pagesAfter, Nat.add_mul, Nat.one_mul, Nat.add_assoc, Nat.sub_sub]
  have hreserve := reserveFor_one (m := m) (by rw [hconfig]; rfl) (by rw [hconfig]; rfl)
    (by rw [hpages]; rfl) (by omega) haligned hstop
  rw [hafter] at hreserve
  exact allocate_eq_enroll Nat.one_ne_zero hroom hreserve

/-- The last page that was taken is given back. -/
theorem unreserve_pageRegion {taken : Nat} (h : taken < spacious.totalPages) :
    (pagesAfter (taken + 1)).unreserve [pageRegion taken] = pagesAfter taken := by
  have hpages : (pageRegion taken).pages = 1 := Nat.div_self (by decide : 0 < pageSize)
  have hnext : spacious.dramBase + taken * pageSize + 1 * pageSize =
      spacious.dramBase + (taken + 1) * pageSize := by
    rw [Nat.add_mul, Nat.add_assoc]
  have hbehind : ¬ spacious.dramBase + (taken + 1) * pageSize <
      spacious.dramBase + taken * pageSize := by
    rw [← hnext]
    exact Nat.not_lt.mpr (Nat.le_add_right _ _)
  have hcount : 1 + (spacious.totalPages - (taken + 1)) = spacious.totalPages - taken := by omega
  rw [PageAllocator.unreserve, List.foldl_cons, List.foldl_nil, hpages, PageAllocator.give,
    pagesAfter, pageRegion, Extent.insert, if_neg hbehind, Extent.join, Extent.stop, if_pos hnext,
    hcount, pagesAfter]

/-- A monitor without enclaves whose next handle is for the first slot. -/
structure Resting (generation : UInt32) (m : Monitor) : Prop where
  config_eq : m.config = spacious
  pages_eq : m.pages = pagesAfter 0
  stack : m.StackSound
  next : m.register = [] ∧ m.freeSlots = [] ∧ generation = EnclaveId.firstGeneration ∨
    m.register = [(generation, false)] ∧ m.freeSlots = [0]

namespace Resting

variable {generation : UInt32}

/-- The spacious monitor starts with its first slot at rest. -/
theorem start {platform : Platform} {identity : Identity}
    (h : Monitor.start spacious platform identity = .ok m) :
    m.Resting EnclaveId.firstGeneration := by
  cases h
  exact ⟨rfl, rfl, ⟨.nil, by simp⟩, .inl ⟨rfl, rfl, rfl⟩⟩

/-- Its next enclave has that handle. -/
theorem takes (h : m.Resting generation) (htakes : m.Takes m' id) :
    id = ⟨0, generation⟩ ∧ m'.register = [(generation, true)] ∧ m'.freeSlots = [] := by
  obtain ⟨index, sign⟩ := id
  obtain ⟨hregister, hfree, rfl⟩ | ⟨hregister, hfree⟩ := h.next
  · cases htakes with
    | again rest hstack _ _ _ =>
      rw [hfree] at hstack
      cases hstack
    | first _ hid hafter hrest =>
      rw [hregister] at hid hafter
      cases hid
      exact ⟨rfl, hafter, hrest⟩
  · cases htakes with
    | again rest hstack hvacant hafter hrest =>
      rw [hfree] at hstack
      cases hstack
      rw [hregister] at hvacant hafter
      cases hvacant
      exact ⟨rfl, hafter, hrest⟩
    | first hstack _ _ _ =>
      rw [hfree] at hstack
      cases hstack

/-- An enclave comes, with that handle, and goes. -/
theorem cycle (h : m.Resting generation) :
    (m.step (.allocate 1)).1 = .ok (.allocated ⟨0, generation⟩) ∧
      ((m.act (.call (.allocate 1))).act (.call (.destroy ⟨0, generation⟩))).Resting
        (EnclaveId.nextGeneration generation) := by
  have hcount : m.count ≤ UInt32.size := by
    rw [count_eq_register]
    obtain ⟨hregister, -, -⟩ | ⟨hregister, -⟩ := h.next
    · rw [hregister]
      exact Nat.zero_le _
    · rw [hregister]
      exact Nat.zero_le _
  have hallocate := allocate_spacious h.config_eq h.pages_eq (Nat.zero_le _) hcount
  obtain ⟨hid, hregister, hfree⟩ :=
    h.takes (takes_enroll h.stack (pageRegion 0) none none (pagesAfter 1))
  have hstack := (h.stack.supply (pagesAfter 1) (m.newcomer (pageRegion 0) none none)).settle
    (m.newcomer (pageRegion 0) none none)
  have hlive : (m.enroll (pageRegion 0) none none (pagesAfter 1)).2.enclave? ⟨0, generation⟩ =
      some (m.newcomer (pageRegion 0) none none) := by
    have hreach : ((m.enroll (pageRegion 0) none none (pagesAfter 1)).2.enclave?
        ⟨0, generation⟩).isSome = true := by
      rw [isSome_enclave?_iff, hregister]
      rfl
    rcases enclave?_enroll h.stack (pageRegion 0) none none (pagesAfter 1) ⟨0, generation⟩ with
      hsame | ⟨-, hnew⟩
    · rw [hsame, isSome_enclave?_iff] at hreach
      obtain ⟨hempty, -⟩ | ⟨hvacant, -⟩ := h.next
      · rw [hempty] at hreach
        cases hreach
      · rw [hvacant] at hreach
        cases hreach
    · exact hnew
  have hact : (m.act (.call (.allocate 1))).act (.call (.destroy ⟨0, generation⟩)) =
      (m.enroll (pageRegion 0) none none (pagesAfter 1)).2.teardown ⟨0, generation⟩ := by
    show ((m.step (.allocate 1)).2.destroy ⟨0, generation⟩).2 = _
    rw [hallocate, destroy, hlive]
  refine ⟨by rw [hallocate, hid], ?_⟩
  rw [hact]
  refine ⟨?_, ?_, hstack.teardown hlive, .inr ⟨?_, ?_⟩⟩
  · rw [teardown_eq hlive]
    exact (config_settle _ _).trans h.config_eq
  · rw [teardown_eq hlive]
    show (m.enroll _ _ _ _).2.pages.unreserve _ = _
    rw [enroll, pages_settle (h.stack.supply _ _), regions_newcomer]
    exact unreserve_pageRegion (by decide)
  · rw [register_teardown hlive, hregister]
    rfl
  · rw [teardown_eq hlive]
    exact congrArg _ hfree

end Resting

/-- Enclaves that come and go in the first slot, one after the other. -/
def churn (generation : UInt32) : Nat → List Act
  | 0 => []
  | n + 1 => .call (.allocate 1) :: .call (.destroy ⟨0, generation⟩) ::
      churn (EnclaveId.nextGeneration generation) n

/-- Taken and cleared `n` times, the slot is at rest again, `n` generations on. -/
theorem Resting.churn {generation : UInt32} (h : m.Resting generation) (n : Nat) :
    (m.perform (churn generation n)).Resting (EnclaveId.nextGeneration^[n] generation) := by
  induction n generalizing m generation with
  | zero => exact h
  | succ n ih => exact ih h.cycle.2

/-- Once the generations of a slot are used up, its first handle is given out again. -/
theorem Resting.issues {generation : UInt32} (h : m.Resting generation) {n : Nat} (hpos : n ≠ 0)
    (hround : EnclaveId.nextGeneration^[n] generation = generation) :
    0 < (Monitor.churn generation n).length ∧
      m.Issues (Monitor.churn generation n ++ [.call (.allocate 1)]) 0 ⟨0, generation⟩ ∧
      m.Issues (Monitor.churn generation n ++ [.call (.allocate 1)])
        (Monitor.churn generation n).length ⟨0, generation⟩ := by
  have hagain := (h.churn n).cycle.1
  rw [hround] at hagain
  refine ⟨?_, ⟨1, ?_, h.cycle.1⟩, 1, ?_, ?_⟩
  · obtain ⟨n, rfl⟩ := Nat.exists_eq_succ_of_ne_zero hpos
    exact Nat.succ_pos _
  · obtain ⟨n, rfl⟩ := Nat.exists_eq_succ_of_ne_zero hpos
    rfl
  · rw [List.getElem?_concat_length]
  · rw [upTo_last]
    exact hagain

/-- A monitor in which some enclaves came into being, one page each, and none has gone. -/
structure Crowded (n : Nat) (m : Monitor) : Prop where
  config_eq : m.config = spacious
  pages_eq : m.pages = pagesAfter n
  stack : m.StackSound
  free_eq : m.freeSlots = []
  length_eq : m.register.length = n

namespace Crowded

variable {n : Nat}

/-- The spacious monitor starts with nobody in it. -/
theorem start {platform : Platform} {identity : Identity}
    (h : Monitor.start spacious platform identity = .ok m) : m.Crowded 0 := by
  cases h
  exact ⟨rfl, rfl, ⟨.nil, by simp⟩, rfl, rfl⟩

/-- One more enclave comes to the end of the table, with the index of its place as far as that
fits. -/
theorem allocate (h : m.Crowded n) (hle : n ≤ UInt32.size) :
    (m.step (.allocate 1)).1 = .ok (.allocated ⟨.ofNat n, EnclaveId.firstGeneration⟩) ∧
      (m.act (.call (.allocate 1))).Crowded (n + 1) := by
  have hcount : m.count ≤ UInt32.size := by
    rw [count_eq_register]
    exact Nat.le_trans List.countP_le_length (h.length_eq ▸ hle)
  have hallocate := allocate_spacious h.config_eq h.pages_eq hle hcount
  have hact : m.act (.call (.allocate 1)) =
      (m.enroll (pageRegion n) none none (pagesAfter (n + 1))).2 := congrArg Prod.snd hallocate
  have hsupply := h.stack.supply (pagesAfter (n + 1)) (m.newcomer (pageRegion n) none none)
  rw [hallocate, hact]
  cases takes_enroll h.stack (pageRegion n) none none (pagesAfter (n + 1)) with
  | again rest hstack _ _ _ =>
    rw [h.free_eq] at hstack
    cases hstack
  | first _ hid hregister hrest =>
    refine ⟨by rw [hid, h.length_eq], ?_, ?_, hsupply.settle _, hrest, ?_⟩
    · exact (config_settle _ _).trans h.config_eq
    · rw [enroll, pages_settle hsupply]
      rfl
    · rw [hregister, List.length_append, h.length_eq]
      rfl

/-- So enclaves come one after the other, as long as there is an index or one more. -/
theorem perform (h : m.Crowded n) (more : Nat) (hle : n + more ≤ UInt32.size + 1) :
    (m.perform (List.replicate more (.call (.allocate 1)))).Crowded (n + more) := by
  induction more generalizing m n with
  | zero => exact h
  | succ more ih =>
    have hrest := ih (h.allocate (by omega)).2 (by omega)
    rwa [Nat.add_right_comm, Nat.add_assoc] at hrest

end Crowded

/-- Once there is a slot for every index, the first handle is given out again. -/
theorem Crowded.issues (h : m.Crowded 0) :
    m.Issues (List.replicate (UInt32.size + 1) (.call (.allocate 1))) 0 ⟨0, 1⟩ ∧
      m.Issues (List.replicate (UInt32.size + 1) (.call (.allocate 1))) UInt32.size ⟨0, 1⟩ := by
  have hact {moment : Nat} (hle : moment ≤ UInt32.size) :
      (List.replicate (UInt32.size + 1) (Act.call (.allocate 1)))[moment]? =
        some (.call (.allocate 1)) := by
    rw [List.getElem?_replicate, if_pos (Nat.lt_succ_of_le hle)]
  have hfull : m.upTo (List.replicate (UInt32.size + 1) (.call (.allocate 1))) UInt32.size =
      m.perform (List.replicate UInt32.size (.call (.allocate 1))) := by
    rw [upTo, List.take_replicate, Nat.min_eq_left (Nat.le_succ _)]
  have hagain := (h.perform UInt32.size (by omega)).allocate (by omega)
  have hwrap : UInt32.ofNat (0 + UInt32.size) = 0 := rfl
  rw [hwrap, ← hfull] at hagain
  exact ⟨⟨1, hact (Nat.zero_le _), (h.allocate (Nat.zero_le _)).1⟩,
    1, hact (Nat.le_refl _), hagain.1⟩

/-- Handles come back. In a slot that is cleared as often as there are generations, and in a table
with more slots than there are indices, the first handle is given out a second time. And not every
call about a stale handle is refused for the handle: not if another argument is looked at first, and
not if it is named second. -/
theorem handles_return :
    ∃ m, Monitor.start spacious .initial
        ⟨⟨⟨List.replicate 32 7, rfl⟩⟩, ⟨⟨List.replicate 64 9, rfl⟩⟩⟩ = .ok m ∧
      (∃ acts later, 0 < later ∧ acts = churn 1 (UInt32.size - 1) ++ [.call (.allocate 1)] ∧
        m.Issues acts 0 ⟨0, 1⟩ ∧ m.Issues acts later ⟨0, 1⟩) ∧
      (∃ acts later, 0 < later ∧ acts = List.replicate (UInt32.size + 1) (.call (.allocate 1)) ∧
        m.Issues acts 0 ⟨0, 1⟩ ∧ m.Issues acts later ⟨0, 1⟩) ∧
      ∃ acts, acts = [.call (.allocate 1), .call (.allocate 1), .call (.destroy ⟨0, 1⟩)] ∧
        m.Issues acts 0 ⟨0, 1⟩ ∧ (m.perform acts).enclave? ⟨0, 1⟩ = none ∧
        ((m.perform acts).step (.load ⟨0, 1⟩ ⟨"", ⟨[], [], []⟩⟩)).1 =
          .error (.layoutInvalid .emptySegment) ∧
        ((m.perform acts).step (.connect ⟨1, 1⟩ ⟨0, 1⟩)).1 =
          .error (.invalidState ⟨1, 1⟩ .allocated .connect) ∧
        (m.perform acts).outbox ⟨1, 1⟩ ⟨0, 1⟩ =
          .error (.invalidState ⟨1, 1⟩ .allocated .noPeerMailbox) := by
  obtain ⟨m, hstart⟩ : ∃ m, Monitor.start spacious .initial
      ⟨⟨⟨List.replicate 32 7, rfl⟩⟩, ⟨⟨List.replicate 64 9, rfl⟩⟩⟩ = .ok m := ⟨_, rfl⟩
  refine ⟨m, hstart, ?_, ?_, ?_⟩
  · obtain ⟨hlater, hfirst, hagain⟩ :=
      (Resting.start hstart).issues (by decide) EnclaveId.iterate_round
    exact ⟨_, _, hlater, rfl, hfirst, hagain⟩
  · obtain ⟨hfirst, hagain⟩ := (Crowded.start hstart).issues
    exact ⟨_, _, by decide, rfl, hfirst, hagain⟩
  · cases hstart
    exact ⟨_, rfl, ⟨1, rfl, rfl⟩, rfl, rfl, rfl, rfl⟩

end Monitor

end Enclaves

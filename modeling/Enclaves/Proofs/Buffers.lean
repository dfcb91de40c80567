import Enclaves.Proofs.Arithmetic
import Enclaves.Proofs.Attestation

/-!
# Buffers that no collection can hold

A new enclave comes with buffers: its exclusive and its untrusted memory, the payload of its
mailbox, and room in its log for as many entries as are configured. A collection holds up to
2⁶³ - 1 bytes, and asking for more ends the program. The buffers are asked for when the pages are
reserved already, so what is left behind then is a monitor whose pages are gone and no enclave that
has them.

`allocateWithin` is the allocation with such an end. How many bytes a log entry takes in memory is a
parameter. In every state that is reached the allocation panics exactly if it gets past the
reservations and one of its buffers is too long, and it is the monitor's own allocation otherwise
(`Buffered`). Whether a configuration can lead to a panic at all can be read off it: the first
enclave may ask for all pages at once (`Config.Holds`).

The check of a configuration does not look at this. It bounds the mailbox by its connector, but the
log by nothing, and the memory by what can be addressed, which is twice what a collection holds.
-/

namespace Enclaves

/-! ## Asking for buffers -/

/-- Zeroed memory, if it can be held. -/
def Memory.zeroed? (size : Nat) : Option Memory :=
  if size ≤ longestBytes then some (.zeroed size) else none

/-- A mailbox, if its payload can be held. -/
def Mailbox.empty? (capacity : Nat) : Option Mailbox :=
  if capacity ≤ longestBytes then some (.empty capacity) else none

/-- A log with room for entries of some size, if the room can be held. -/
def ConnectionLog.empty? (entrySize capacity : Nat) : Option ConnectionLog :=
  if capacity * entrySize ≤ longestBytes then some (.empty capacity) else none

/-- The buffers of an enclave with some pages of its own can be held. -/
structure Config.Holds (c : Config) (entrySize minPages : Nat) : Prop where
  exclusive : minPages * pageSize ≤ longestBytes
  untrusted : c.untrustedPages * pageSize ≤ longestBytes
  mailbox : c.connectorPages ≠ 0 → c.mailboxCapacity ≤ longestBytes
  log : c.logCapacity * entrySize ≤ longestBytes

namespace Monitor

/-- How an allocation ends: with an answer, or in the middle. -/
inductive Ending where
  | returned (outcome : Except MonitorError EnclaveId) (m : Monitor)
  | panicked (left : Monitor)

/-- The memory over an untrusted region, if there is one. -/
def sharedMemory? : Option Region → Option (Option (Region × Memory))
  | none => some none
  | some r => (Memory.zeroed? r.size).map fun memory => some (r, memory)

/-- The connector with its mailbox, if there is one. -/
def connectorOver? (m : Monitor) : Option Region → Option (Option Connector)
  | none => some none
  | some region =>
    (Mailbox.empty? m.config.mailboxCapacity).map fun _ => some ⟨region, m.mailboxes.length⟩

/-- A new enclave over regions that were reserved for it, buffer by buffer. -/
def newcomer? (m : Monitor) (entrySize : Nat) (exclusive : Region)
    (untrusted connector : Option Region) : Option Enclave := do
  let memory ← Memory.zeroed? exclusive.size
  let untrusted ← sharedMemory? untrusted
  let connector ← m.connectorOver? connector
  let log ← ConnectionLog.empty? entrySize m.config.logCapacity
  return { newEnclave m.config exclusive none connector with memory, untrusted, log }

/-- Reserve the regions of an enclave, then ask for its buffers. -/
def allocateWithin (m : Monitor) (entrySize minPages : Nat) : Ending :=
  if minPages = 0 then .returned (.error (.invalidArgument .noPages)) m
  else if m.config.maxEnclaves ≤ m.count then
    .returned (.error (.resourceExhausted (.table m.config.maxEnclaves))) m
  else
    match m.reserveFor minPages with
    | (.error shortage, pages) =>
      .returned (.error (.resourceExhausted shortage)) { m with pages }
    | (.ok (exclusive, untrusted, connector), pages) =>
      match m.newcomer? entrySize exclusive untrusted connector with
      | none => .panicked { m with pages }
      | some e =>
        let (id, m) := (m.supply pages e).settle e
        .returned (.ok id) m

/-- An allocation that gets past the reservations. -/
structure Passes (m : Monitor) (minPages : Nat) : Prop where
  asks : 0 < minPages
  room : m.count < m.config.maxEnclaves
  reserved : ∃ regions, (m.reserveFor minPages).1 = .ok regions

/-- What is known of allocations in a state. -/
structure Buffered (m : Monitor) (entrySize : Nat) : Prop where
  panics_iff : ∀ minPages left, m.allocateWithin entrySize minPages = .panicked left ↔
    m.Passes minPages ∧ ¬ m.config.Holds entrySize minPages ∧
      left = { m with pages := (m.reserveFor minPages).2 }
  returns : ∀ minPages, (m.Passes minPages → m.config.Holds entrySize minPages) →
    m.allocateWithin entrySize minPages =
      .returned (m.allocate minPages).1 (m.allocate minPages).2
  /-- The pages are gone, -/
  taken : ∀ minPages left, m.allocateWithin entrySize minPages = .panicked left →
    left.usedPages = m.usedPages + minPages + m.config.untrustedPages + m.config.connectorPages
  /-- and no enclave has them. -/
  unowned : ∀ minPages left, m.allocateWithin entrySize minPages = .panicked left →
    left.slots = m.slots

variable {config : Config} {m : Monitor} {entrySize minPages : Nat} {exclusive : Region}
  {untrusted connector : Option Region} {pages : PageAllocator}

/-! ## One allocation -/

/-- The buffers over these regions can be held. -/
structure Held (m : Monitor) (entrySize : Nat) (exclusive : Region)
    (untrusted connector : Option Region) : Prop where
  exclusive : exclusive.size ≤ longestBytes
  untrusted : ∀ r ∈ untrusted, r.size ≤ longestBytes
  mailbox : connector.isSome = true → m.config.mailboxCapacity ≤ longestBytes
  log : m.config.logCapacity * entrySize ≤ longestBytes

/-- Where its buffers can be held, the new enclave is the monitor's own. -/
theorem newcomer?_of_held (h : m.Held entrySize exclusive untrusted connector) :
    m.newcomer? entrySize exclusive untrusted connector =
      some (m.newcomer exclusive untrusted connector) := by
  have hmemory : Memory.zeroed? exclusive.size = some (.zeroed exclusive.size) :=
    if_pos h.exclusive
  have hshared : sharedMemory? untrusted = some (untrusted.map fun r => (r, .zeroed r.size)) := by
    cases untrusted with
    | none => rfl
    | some r => rw [sharedMemory?, Memory.zeroed?, if_pos (h.untrusted r rfl)]; rfl
  have hmailbox : m.connectorOver? connector =
      some (connector.map fun region => ⟨region, m.mailboxes.length⟩) := by
    cases connector with
    | none => rfl
    | some r => rw [connectorOver?, Mailbox.empty?, if_pos (h.mailbox rfl)]; rfl
  have hlog : ConnectionLog.empty? entrySize m.config.logCapacity =
      some (.empty m.config.logCapacity) := if_pos h.log
  rw [newcomer?, hmemory, hshared, hmailbox, hlog]
  rfl

/-- An enclave that came to be has buffers that can be held. -/
theorem held_of_newcomer? {e : Enclave}
    (h : m.newcomer? entrySize exclusive untrusted connector = some e) :
    m.Held entrySize exclusive untrusted connector := by
  obtain ⟨memory, hmemory, h⟩ := Option.bind_eq_some_iff.mp h
  obtain ⟨shared, hshared, h⟩ := Option.bind_eq_some_iff.mp h
  obtain ⟨mailbox, hmailbox, h⟩ := Option.bind_eq_some_iff.mp h
  obtain ⟨log, hlog, -⟩ := Option.bind_eq_some_iff.mp h
  refine ⟨(Option.ite_none_right_eq_some.mp hmemory).1, ?_, ?_,
    (Option.ite_none_right_eq_some.mp hlog).1⟩
  · rintro r rfl
    obtain ⟨memory, hmemory, -⟩ := Option.map_eq_some_iff.mp hshared
    exact (Option.ite_none_right_eq_some.mp hmemory).1
  · intro hsome
    obtain ⟨r, rfl⟩ := Option.isSome_iff_exists.mp hsome
    obtain ⟨slot, hslot, -⟩ := Option.map_eq_some_iff.mp hmailbox
    exact (Option.ite_none_right_eq_some.mp hslot).1

/-! ## What is reserved -/

/-- Regions are as long as was asked for, so whether their buffers can be held is seen
beforehand. -/
theorem held_iff_holds (h : Extent.Canonical m.pages.free)
    (hreserve : m.reserveFor minPages = (.ok (exclusive, untrusted, connector), pages)) :
    m.Held entrySize exclusive untrusted connector ↔ m.config.Holds entrySize minPages := by
  obtain ⟨hexclusive, huntrusted, -, -⟩ := PageAllocator.lends_of_reserveAll h hreserve
  obtain ⟨hshared, hconnected⟩ := PageAllocator.isSome_of_reserveAll hreserve
  constructor
  · intro hheld
    refine ⟨hexclusive.size_eq ▸ hheld.exclusive, ?_, ?_, hheld.log⟩
    · by_cases hpages : m.config.untrustedPages = 0
      · rw [hpages, Nat.zero_mul]
        exact Nat.zero_le _
      · obtain ⟨r, rfl⟩ := Option.isSome_iff_exists.mp (hshared.mpr (Nat.pos_of_ne_zero hpages))
        exact (huntrusted r rfl).size_eq ▸ hheld.untrusted r rfl
    · intro hpages
      exact hheld.mailbox (hconnected.mpr (Nat.pos_of_ne_zero hpages))
  · intro hholds
    refine ⟨hexclusive.size_eq ▸ hholds.exclusive, ?_, ?_, hholds.log⟩
    · intro r hr
      exact (huntrusted r hr).size_eq ▸ hholds.untrusted
    · intro hsome
      exact hholds.mailbox (Nat.ne_of_gt (hconnected.mp hsome))

/-- The pages that were free are free still or reserved. -/
theorem pageCount_reserved (h : Extent.Canonical m.pages.free)
    (hreserve : m.reserveFor minPages = (.ok (exclusive, untrusted, connector), pages)) :
    Extent.pageCount m.pages.free = Extent.pageCount pages.free +
      (minPages + m.config.untrustedPages + m.config.connectorPages) := by
  obtain ⟨hexclusive, huntrusted, hconnector, hlends⟩ :=
    PageAllocator.lends_of_reserveAll h hreserve
  obtain ⟨hshared, hconnected⟩ := PageAllocator.isSome_of_reserveAll hreserve
  have hcount {r : Option Region} {n : Nat} {permission : Permission} {kind : RegionKind}
      (hsome : r.isSome = true ↔ 0 < n) (hserves : ∀ s ∈ r, s.Serves n permission kind) :
      Extent.pageCount (r.toList.map Region.extent) = n := by
    cases r with
    | none =>
      have hzero : ¬ 0 < n := fun hpos => by simpa using hsome.mpr hpos
      exact (Nat.eq_zero_of_not_pos hzero).symm
    | some s =>
      rw [Option.toList_some, List.map_singleton, Extent.pageCount_cons, Extent.pageCount_nil,
        Nat.add_zero]
      exact (hserves s rfl).pages_eq
  have hfirst : exclusive.extent.pages = minPages := hexclusive.pages_eq
  rw [hlends.counts, List.map_cons, Extent.pageCount_cons, List.map_append,
    Extent.pageCount_append, hcount hshared huntrusted, hcount hconnected hconnector, hfirst]
  omega

/-- The buffers can be held if the allocation gets as far as asking for them, or it panics. -/
theorem allocateWithin_cases (h : Extent.Canonical m.pages.free) (entrySize minPages : Nat) :
    ((m.Passes minPages → m.config.Holds entrySize minPages) ∧
      m.allocateWithin entrySize minPages =
        .returned (m.allocate minPages).1 (m.allocate minPages).2) ∨
    (m.Passes minPages ∧ ¬ m.config.Holds entrySize minPages ∧
      m.allocateWithin entrySize minPages =
        .panicked { m with pages := (m.reserveFor minPages).2 }) := by
  by_cases hzero : minPages = 0
  · refine .inl ⟨fun hpasses => absurd hzero (Nat.ne_of_gt hpasses.asks), ?_⟩
    rw [allocateWithin, allocate, if_pos hzero, if_pos hzero]
  by_cases hfull : m.config.maxEnclaves ≤ m.count
  · refine .inl ⟨fun hpasses => absurd hfull (Nat.not_le.mpr hpasses.room), ?_⟩
    rw [allocateWithin, allocate, if_neg hzero, if_neg hzero, if_pos hfull, if_pos hfull]
  have hreserve : m.pages.reserveAll minPages m.config.untrustedPages m.config.connectorPages =
      m.reserveFor minPages := rfl
  rw [allocateWithin, allocate, if_neg hzero, if_neg hzero, if_neg hfull, if_neg hfull, hreserve]
  cases hanswer : m.reserveFor minPages with
  | mk answer pages =>
  cases answer with
  | error shortage =>
    refine .inl ⟨fun hpasses => ?_, rfl⟩
    obtain ⟨regions, hregions⟩ := hpasses.reserved
    rw [hanswer] at hregions
    cases hregions
  | ok regions =>
    obtain ⟨exclusive, untrusted, connector⟩ := regions
    have hpasses : m.Passes minPages :=
      ⟨Nat.pos_of_ne_zero hzero, Nat.not_le.mp hfull, _, congrArg Prod.fst hanswer⟩
    have hiff : m.Held entrySize exclusive untrusted connector ↔
        m.config.Holds entrySize minPages := held_iff_holds h hanswer
    by_cases hholds : m.config.Holds entrySize minPages
    · refine .inl ⟨fun _ => hholds, ?_⟩
      dsimp only
      rw [newcomer?_of_held (hiff.mpr hholds)]
      rfl
    · refine .inr ⟨hpasses, hholds, ?_⟩
      dsimp only
      cases hnewcomer : m.newcomer? entrySize exclusive untrusted connector with
      | none => rfl
      | some e => exact absurd (hiff.mp (held_of_newcomer? hnewcomer)) hholds

/-- An allocation panics exactly if it gets past the reservations and a buffer is too long. -/
theorem allocateWithin_eq_panicked_iff (h : Extent.Canonical m.pages.free) {left : Monitor} :
    m.allocateWithin entrySize minPages = .panicked left ↔
      m.Passes minPages ∧ ¬ m.config.Holds entrySize minPages ∧
        left = { m with pages := (m.reserveFor minPages).2 } := by
  rcases allocateWithin_cases h entrySize minPages with
    ⟨hsafe, hends⟩ | ⟨hpasses, hnot, hends⟩
  · rw [hends]
    exact ⟨fun hpanics => (by cases hpanics), fun hpanics =>
      absurd (hsafe hpanics.1) hpanics.2.1⟩
  · rw [hends]
    constructor
    · intro hpanics
      cases hpanics
      exact ⟨hpasses, hnot, rfl⟩
    · rintro ⟨-, -, rfl⟩
      rfl

/-- No more pages are free than there are. -/
theorem MemorySound.pageCount_free_le (h : MemorySound config m) :
    Extent.pageCount m.pages.free ≤ config.totalPages := by
  have hcounts := h.lends.counts
  have hall : Extent.pageCount (PageAllocator.ofRange config.dramBase config.totalPages).free =
      config.totalPages := by simp [PageAllocator.ofRange]
  omega

/-- What was reserved by an allocation that got that far. -/
theorem Passes.exists_reserved (h : m.Passes minPages) :
    ∃ exclusive untrusted connector, m.reserveFor minPages =
      (.ok (exclusive, untrusted, connector), (m.reserveFor minPages).2) := by
  obtain ⟨⟨exclusive, untrusted, connector⟩, hregions⟩ := h.reserved
  exact ⟨exclusive, untrusted, connector, Prod.ext hregions rfl⟩

/-- All that was reserved counts as used. -/
theorem MemorySound.usedPages_reserved (h : MemorySound config m) (hpasses : m.Passes minPages) :
    (m.reserveFor minPages).2.usedPages =
      m.usedPages + minPages + m.config.untrustedPages + m.config.connectorPages := by
  obtain ⟨exclusive, untrusted, connector, hreserve⟩ := hpasses.exists_reserved
  have hcount := pageCount_reserved h.lends.after hreserve
  have htotal := (PageAllocator.lends_of_reserveAll h.lends.after hreserve).2.2.2.total
  have hbefore : m.pages.total = config.totalPages := h.lends.total
  have hfree := h.pageCount_free_le
  simp only [usedPages, PageAllocator.usedPages, PageAllocator.freePages]
  omega

/-- How every allocation ends, where the memory is divided. -/
theorem MemorySound.buffered (h : MemorySound config m) (entrySize : Nat) :
    m.Buffered entrySize where
  panics_iff _ _ := allocateWithin_eq_panicked_iff h.lends.after
  returns minPages hsafe := by
    rcases allocateWithin_cases h.lends.after entrySize minPages with
      ⟨-, hends⟩ | ⟨hpasses, hnot, -⟩
    · exact hends
    · exact absurd (hsafe hpasses) hnot
  taken minPages left hpanics := by
    obtain ⟨hpasses, -, rfl⟩ := (allocateWithin_eq_panicked_iff h.lends.after).mp hpanics
    exact h.usedPages_reserved hpasses
  unowned minPages left hpanics := by
    obtain ⟨-, -, rfl⟩ := (allocateWithin_eq_panicked_iff h.lends.after).mp hpanics
    rfl

end Monitor

/-! ## All pages at once -/

namespace PageAllocator

/-- One run of free pages, or none. -/
def oneRun (base pages : Nat) : List Extent := if pages = 0 then [] else [⟨base, pages⟩]

variable {a : PageAllocator} {base free pages : Nat} (permission : Permission) (kind : RegionKind)

/-- From the front of one run, one run is left. -/
theorem cutFirst_oneRun (hpos : 0 < pages) (hle : pages ≤ free) :
    Extent.cutFirst pages (oneRun base free) =
      some (base, oneRun (base + pages * pageSize) (free - pages)) := by
  rw [oneRun, if_neg (by omega), Extent.cutFirst, if_pos hle, oneRun]
  by_cases hall : pages = free
  · rw [if_pos hall, if_pos (by omega)]
  · rw [if_neg hall, if_neg (by omega)]

/-- A region is had from the front of one run that is long enough. -/
theorem exists_reserve_oneRun (hfree : a.free = oneRun base free) (hpos : 0 < pages)
    (hle : pages ≤ free) (haligned : base % pageSize = 0)
    (hstop : base + free * pageSize < addressLimit) :
    ∃ r b, a.reserve pages permission kind = (.ok r, b) ∧
      b.free = oneRun (base + pages * pageSize) (free - pages) := by
  have hsize : pages * pageSize ≤ free * pageSize := Nat.mul_le_mul_right _ hle
  have hmake : Region.make base (pages * pageSize) permission kind =
      .ok ⟨base, pages * pageSize, permission, kind⟩ := by
    refine Region.make_eq_ok_iff.mpr ⟨rfl, Nat.mul_pos hpos (by decide), haligned,
      Nat.mul_mod_left _ _, ?_⟩
    show base + pages * pageSize < addressLimit
    omega
  rw [reserve, take?, if_neg (Nat.ne_of_gt hpos), hfree, cutFirst_oneRun hpos hle]
  dsimp only
  rw [hmake]
  exact ⟨_, _, rfl, rfl⟩

/-- A region that need not be is had there as well, or nothing is taken. -/
theorem exists_reserveOptional_oneRun (hfree : a.free = oneRun base free) (hle : pages ≤ free)
    (haligned : base % pageSize = 0) (hstop : base + free * pageSize < addressLimit) :
    ∃ r b, a.reserveOptional pages permission kind = (.ok r, b) ∧
      b.free = oneRun (base + pages * pageSize) (free - pages) := by
  rw [reserveOptional]
  by_cases hzero : pages = 0
  · subst hzero
    refine ⟨none, a, if_pos rfl, ?_⟩
    rw [hfree, Nat.zero_mul, Nat.add_zero, Nat.sub_zero]
  · obtain ⟨r, b, hreserve, hafter⟩ := exists_reserve_oneRun permission kind hfree
      (Nat.pos_of_ne_zero hzero) hle haligned hstop
    rw [if_neg hzero, hreserve]
    exact ⟨_, _, rfl, hafter⟩

/-- From one run all three regions can be had if there are pages for them. -/
theorem exists_reserveAll_oneRun {exclusive untrusted connector : Nat}
    (hfree : a.free = oneRun base free) (hpos : 0 < exclusive)
    (hle : exclusive + untrusted + connector ≤ free) (haligned : base % pageSize = 0)
    (hstop : base + free * pageSize < addressLimit) :
    ∃ regions b, a.reserveAll exclusive untrusted connector = (.ok regions, b) := by
  have hrest {base free pages : Nat} (hle : pages ≤ free)
      (hstop : base + free * pageSize < addressLimit) :
      base + pages * pageSize + (free - pages) * pageSize < addressLimit := by
    rw [Nat.add_assoc, ← Nat.add_mul, Nat.add_sub_cancel' hle]
    exact hstop
  have hnext {base pages : Nat} (haligned : base % pageSize = 0) :
      (base + pages * pageSize) % pageSize = 0 := by
    rw [Nat.add_mul_mod_self_right, haligned]
  have hle₁ : exclusive ≤ free := by omega
  have hle₂ : untrusted ≤ free - exclusive := by omega
  have hle₃ : connector ≤ free - exclusive - untrusted := by omega
  obtain ⟨r₁, b₁, hreserve₁, hfree₁⟩ := exists_reserve_oneRun .readWriteExecute .exclusive hfree
    hpos hle₁ haligned hstop
  obtain ⟨r₂, b₂, hreserve₂, hfree₂⟩ := exists_reserveOptional_oneRun .readWrite .untrusted hfree₁
    hle₂ (hnext haligned) (hrest hle₁ hstop)
  obtain ⟨r₃, b₃, hreserve₃, -⟩ := exists_reserveOptional_oneRun .readWrite .connector hfree₂
    hle₃ (hnext (hnext haligned)) (hrest hle₂ (hrest hle₁ hstop))
  refine ⟨(r₁, r₂, r₃), b₃, ?_⟩
  rw [reserveAll, hreserve₁]
  dsimp only
  rw [hreserve₂]
  dsimp only
  rw [hreserve₃]

end PageAllocator

/-! ## Configurations -/

namespace Config

variable {c : Config} {entrySize : Nat}

/-- The pages that are left to the first enclave for its own use. -/
def mostPages (c : Config) : Nat := c.totalPages - c.untrustedPages - c.connectorPages

/-- There are too few pages for any enclave. -/
def Cramped (c : Config) : Prop := c.totalPages < 1 + c.untrustedPages + c.connectorPages

/-- Buffers for more pages can be held only if those for fewer can. -/
theorem Holds.mono {minPages n : Nat} (h : c.Holds entrySize n) (hle : minPages ≤ n) :
    c.Holds entrySize minPages :=
  ⟨Nat.le_trans (Nat.mul_le_mul_right _ hle) h.exclusive, h.untrusted, h.mailbox, h.log⟩

/-- Memory and logs that can be held are enough: a mailbox is shorter than its connector. -/
theorem Valid.holds (h : c.Valid) (hroomy : ¬ c.Cramped)
    (hmemory : c.totalPages * pageSize ≤ longestBytes)
    (hlog : c.logCapacity * entrySize ≤ longestBytes) : c.Holds entrySize c.mostPages := by
  rw [Cramped, Nat.not_lt] at hroomy
  have hwithin {n : Nat} (hle : n ≤ c.totalPages) : n * pageSize ≤ longestBytes :=
    Nat.le_trans (Nat.mul_le_mul_right _ hle) hmemory
  refine ⟨hwithin (by rw [mostPages]; omega), hwithin (by omega), fun hconnector => ?_, hlog⟩
  have hfits := h.mailbox_fits hconnector
  simp only [mailboxFits, Bool.and_eq_true, decide_eq_true_eq] at hfits
  have hconnectors : c.connectorPages * pageSize ≤ longestBytes := hwithin (by omega)
  omega

end Config

namespace Monitor

variable {config : Config} {m : Monitor} {entrySize minPages : Nat}

/-- There is room for the pages of an enclave that gets past the reservations. -/
theorem MemorySound.le_mostPages (h : MemorySound config m) (hconfig : m.config = config)
    (hpasses : m.Passes minPages) : ¬ config.Cramped ∧ minPages ≤ config.mostPages := by
  obtain ⟨exclusive, untrusted, connector, hreserve⟩ := hpasses.exists_reserved
  have hcount := pageCount_reserved h.lends.after hreserve
  have hfree := h.pageCount_free_le
  have hasks := hpasses.asks
  rw [hconfig] at hcount
  rw [Config.Cramped, Config.mostPages]
  omega

/-- The first enclave gets all pages that are left to it. -/
theorem passes_mostPages {platform : Platform} {identity : Identity}
    (hstart : Monitor.start config platform identity = .ok m) (hroomy : ¬ config.Cramped) :
    m.Passes config.mostPages := by
  have hvalid := valid_of_start hstart
  rw [Config.Cramped, Nat.not_lt] at hroomy
  have hmost : 0 < config.mostPages := by
    rw [Config.mostPages]
    omega
  rw [Monitor.start, Config.validate_eq_ok_iff.mpr hvalid] at hstart
  cases hstart
  refine ⟨hmost, hvalid.enclaves_pos, ?_⟩
  have hfree : (PageAllocator.ofRange config.dramBase config.totalPages).free =
      PageAllocator.oneRun config.dramBase config.totalPages :=
    (if_neg (Nat.ne_of_gt hvalid.pages_pos)).symm
  obtain ⟨regions, after, hreserve⟩ := PageAllocator.exists_reserveAll_oneRun hfree hmost
    (by rw [Config.mostPages]; omega : config.mostPages + config.untrustedPages +
      config.connectorPages ≤ config.totalPages) hvalid.dram_aligned hvalid.stop_lt
  exact ⟨regions, congrArg Prod.fst hreserve⟩

/-- No allocation panics, whatever happened before it. -/
def NeverPanics (m : Monitor) (entrySize : Nat) : Prop :=
  ∀ acts minPages left, (m.perform acts).allocateWithin entrySize minPages ≠ .panicked left

/-- The first enclave decides, as none after it can have more pages. -/
theorem neverPanics_iff {platform : Platform} {identity : Identity}
    (hstart : Monitor.start config platform identity = .ok m) :
    m.NeverPanics entrySize ↔ config.Cramped ∨ config.Holds entrySize config.mostPages := by
  have hconfig (acts : List Act) : (m.perform acts).config = config :=
    (Founded.of_start hstart acts).config_eq
  have hmemory (acts : List Act) := (MemorySound.start hstart).perform acts
  constructor
  · intro hnever
    by_contra hnot
    obtain ⟨hroomy, hlong⟩ := not_or.mp hnot
    have hends := ((hmemory []).buffered entrySize).panics_iff config.mostPages
      { m with pages := (m.reserveFor config.mostPages).2 }
    refine hnever [] _ _ (hends.mpr ⟨passes_mostPages hstart hroomy, ?_, rfl⟩)
    rw [hconfig []]
    exact hlong
  · rintro hsafe acts minPages left hends
    obtain ⟨hpasses, hlong, -⟩ := (((hmemory acts).buffered entrySize).panics_iff _ _).mp hends
    obtain ⟨hroomy, hle⟩ := (hmemory acts).le_mostPages (hconfig acts) hpasses
    rw [hconfig acts] at hlong
    rcases hsafe with hcramped | hholds
    · exact hroomy hcramped
    · exact hlong (hholds.mono hle)

/-- When an allocation panics. With a configuration that is accepted, in every state that is
reached, it does so exactly when it gets past the reservations and a buffer cannot be held, and then
pages are gone that no enclave has; otherwise it answers what the monitor answers. It never does if
memory and logs can be held, and in general exactly if the buffers of a first enclave with all pages
can. -/
theorem long_buffers_panic (hconfig : config.validate = .ok ()) (platform : Platform)
    (identity : Identity) (entrySize : Nat) :
    ∃ m, Monitor.start config platform identity = .ok m ∧
      (∀ acts, (m.perform acts).Buffered entrySize) ∧
      (m.NeverPanics entrySize ↔
        config.Cramped ∨ config.Holds entrySize config.mostPages) ∧
      (config.totalPages * pageSize ≤ longestBytes →
        config.logCapacity * entrySize ≤ longestBytes → m.NeverPanics entrySize) := by
  have hstart : Monitor.start config platform identity = .ok
      ⟨config, platform, identity, [], [], .ofRange config.dramBase config.totalPages, []⟩ := by
    rw [Monitor.start, hconfig]
  refine ⟨_, hstart, fun acts => ((MemorySound.start hstart).perform acts).buffered entrySize,
    neverPanics_iff hstart, fun hmemory hlog => ?_⟩
  refine (neverPanics_iff hstart).mpr (or_iff_not_imp_left.mpr fun hroomy => ?_)
  exact (Config.validate_eq_ok_iff.mp hconfig).holds hroomy hmemory hlog

/-- A monitor with the default configuration, and entries of 40 bytes. -/
theorem long_buffers_panic_default : ({} : Config).validate = .ok () ∧
    ∃ m, Monitor.start {} .initial ⟨⟨⟨List.replicate 32 7, rfl⟩⟩, ⟨⟨List.replicate 64 9, rfl⟩⟩⟩ =
        .ok m ∧ m.NeverPanics 40 ∧
      ∃ left, m.allocateWithin 40 3 = .returned (.ok ⟨0, 1⟩) left ∧ left.count = 1 := by
  refine ⟨rfl, ?_⟩
  obtain ⟨m, hstart, -, -, hnever⟩ := long_buffers_panic (rfl : ({} : Config).validate = .ok ())
    .initial ⟨⟨⟨List.replicate 32 7, rfl⟩⟩, ⟨⟨List.replicate 64 9, rfl⟩⟩⟩ 40
  refine ⟨m, hstart, hnever (by decide) (by decide), ?_⟩
  cases hstart
  exact ⟨_, rfl, rfl⟩

/-- Two configurations that are accepted, and lead to a panic over entries of a single byte: a log
with room for 2⁶⁴ - 1 of them, and memory for an enclave of 2⁶³ bytes. Both times the pages are gone
and there is no enclave. -/
theorem accepted_configurations_panic :
    (({ logCapacity := 18446744073709551615 } : Config).validate = .ok () ∧
      ∃ m left, Monitor.start { logCapacity := 18446744073709551615 } .initial
          ⟨⟨⟨List.replicate 32 7, rfl⟩⟩, ⟨⟨List.replicate 64 9, rfl⟩⟩⟩ = .ok m ∧
        m.allocateWithin 1 1 = .panicked left ∧ left.usedPages = 67 ∧ left.count = 0) ∧
    ({ dramBase := 0, totalPages := 2251799813685314 } : Config).validate = .ok () ∧
      ∃ m left, Monitor.start { dramBase := 0, totalPages := 2251799813685314 } .initial
          ⟨⟨⟨List.replicate 32 7, rfl⟩⟩, ⟨⟨List.replicate 64 9, rfl⟩⟩⟩ = .ok m ∧
        m.allocateWithin 1 2251799813685248 = .panicked left ∧
        left.usedPages = 2251799813685314 ∧ left.count = 0 := by
  refine ⟨⟨by decide, ?_⟩, by decide, ?_⟩
  · exact ⟨_, _, rfl, rfl, by decide, rfl⟩
  · exact ⟨_, _, rfl, rfl, by decide, rfl⟩

end Monitor

end Enclaves

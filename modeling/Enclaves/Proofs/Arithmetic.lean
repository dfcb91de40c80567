import Enclaves.Proofs.Finalization
import Enclaves.Proofs.PageArithmetic

/-!
# Nothing overflows

The monitor counts with numbers that have no end. A program counts with 64 bits, and nothing tells
it when a sum was too large. Here the rest of what counts is written with partial steps, as the
allocator was: the checks of a configuration and of a layout, measuring, loading, and every call
that takes pages or gives them back.

One rule of the configuration carries all of it: the memory that is handed out ends below 2⁶⁴
(`MemorySound.fits`). So every region ends there too, a layout is subtracted from only after the
checks that it has to pass first, and an image that is loaded lies inside its region. In every state
that is reached, each call comes to what the monitor answers (`InRange`). Nothing is asked of the
arguments, except that a byte string is short enough to lie in memory.
-/

namespace Enclaves

/-! ## Steps -/

namespace Region

/-- One past the last address, as 64 bits have it. -/
def stop? (r : Region) : Option Nat := checkedAdd r.base r.size

def overlaps? (r other : Region) : Option Bool := do
  let stop ← other.stop?
  if r.base < stop then
    let stop ← r.stop?
    return other.base < stop
  else return false

end Region

namespace Config

/-- The room for a mailbox on a connector; none if the connector has no size. -/
def mailboxRoom? (c : Config) : Option (Option Nat) :=
  match checkedMul c.connectorPages pageSize with
  | none => some none
  | some bytes => do
    let room ← checkedSub bytes mailboxHeader
    return some room

def checkMailbox (c : Config) : Ranged ConfigFault Unit :=
  if 0 < c.connectorPages then do
    let room ← c.mailboxRoom?
    if c.mailboxCapacity = 0 ∨ room.all (· < c.mailboxCapacity) then
      throw (.mailboxSize c.mailboxCapacity c.connectorPages)
    else return ()
  else return ()

/-- The rules of a configuration; it breaks one if its memory has an end that 64 bits do not
have. -/
def validateAt (c : Config) : Ranged ConfigFault Unit :=
  if c.dramBase % pageSize ≠ 0 then throw (.misaligned c.dramBase)
  else if c.totalPages = 0 ∨ c.maxEnclaves = 0 then throw .nothingToManage
  else if ((checkedMul c.totalPages pageSize).bind (checkedAdd c.dramBase)).isNone then
    throw .rangeOverflow
  else if c.logCapacity = 0 then throw .noLog
  else do
    c.checkMailbox
    if UInt32.size ≤ c.attestDataMax then throw .dataTooLong
    else return ()

end Config

namespace Layout

def validateAt (l : Layout) (exclusive : Region) (others : List Region) :
    Ranged LayoutFault Unit :=
  match l.boundaries.find? fun b => b.2 % pageSize ≠ 0 with
  | some (boundary, address) => throw (.misaligned boundary address)
  | none =>
    match firstDisorder l.boundaries with
    | some fault => throw fault
    | none =>
      if l.loader ≠ exclusive.base then throw (.startsElsewhere l.loader exclusive.base)
      else do
        let stop ← exclusive.stop?
        if stop < l.free then throw (.endsBeyond l.free stop)
        else
          let size ← checkedSub l.free l.loader
          match Region.make l.loader size exclusive.permission .exclusive with
          | .error fault => throw (.noRegion fault)
          | .ok image =>
            let other ← (others.findM? (·.overlaps? image) : Option (Option Region))
            match other with
            | some other => throw (.overlaps image other)
            | none => return ()

/-- The segments are cut out of memory by address and hashed piece by piece. -/
def measureAt (l : Layout) (region : Region) (memory : Memory) : Ranged LayoutFault Digest := do
  l.validateAt region []
  if memory.size ≠ region.size then throw (.memorySize memory.size region.size)
  else
    let segments ← l.segments? region.base memory.toBytes
    let sizes ← l.sizes?
    return .ofFeed (sizes.map (Bytes.littleEndian 8) ++ segments.flatMap Bytes.chunks)

end Layout

/-- Bytes copied to between two offsets, if memory has both. -/
def Memory.copy? (m : Memory) (start stop : Nat) (bytes : Bytes) : Option Memory :=
  if start ≤ stop ∧ stop ≤ m.size ∧ bytes.length = stop - start then some (m.write start bytes)
  else none

namespace Image

def pages? (image : Image) : Option Nat :=
  image.segments.foldlM (fun count s => checkedAdd count (pagesFor s.length)) 0

/-- A segment copied to where the cursor is: its address, the cursor moved on to the next page, and
memory. -/
def placeSegmentAt (base cursor : Nat) (segment : Bytes) (memory : Memory) :
    Option (Nat × Nat × Memory) := do
  let address ← checkedAdd base cursor
  let stop ← checkedAdd cursor segment.length
  let memory ← memory.copy? cursor stop segment
  let size ← checkedMul (pagesFor segment.length) pageSize
  let cursor ← checkedAdd cursor size
  return (address, cursor, memory)

def placeAt (image : Image) (base : Nat) (memory : Memory) : Option (Layout × Memory) := do
  let memory := Memory.zeroed memory.size
  let (loader, cursor, memory) ← placeSegmentAt base 0 image.loader memory
  let (runtime, cursor, memory) ← placeSegmentAt base cursor image.runtime memory
  let (app, cursor, memory) ← placeSegmentAt base cursor image.app memory
  let free ← checkedAdd base cursor
  return (⟨loader, runtime, app, free⟩, memory)

end Image

namespace Monitor

def allocateAt (m : Monitor) (minPages : Nat) : Option (Except MonitorError EnclaveId × Monitor) :=
  if minPages = 0 then some (.error (.invalidArgument .noPages), m)
  else if m.config.maxEnclaves ≤ m.count then
    some (.error (.resourceExhausted (.table m.config.maxEnclaves)), m)
  else do
    match ← m.pages.reserveAllAt minPages m.config.untrustedPages m.config.connectorPages with
    | (.error shortage, pages) => return (.error (.resourceExhausted shortage), { m with pages })
    | (.ok (exclusive, untrusted, connector), pages) =>
      let (id, m) := m.enroll exclusive untrusted connector pages
      return (.ok id, m)

def loadAt (m : Monitor) (id : EnclaveId) (bundle : Bundle) :
    Option (Except MonitorError Layout × Monitor) :=
  match Reference.ofString bundle.reference with
  | .error fault => some (.error (.invalidArgument (.reference fault)), m)
  | .ok reference =>
    if bundle.image.segments.any List.isEmpty then
      some (.error (.layoutInvalid .emptySegment), m)
    else
      match m.require id .allocated .load with
      | .error error => some (.error error, m)
      | .ok e => do
        let pages ← bundle.image.pages?
        if e.exclusive.pages < pages then
          return (.error (.invalidArgument (.imageTooLarge pages e.exclusive.pages)), m)
        else
          let (layout, memory) ← bundle.image.placeAt e.exclusive.base e.memory
          return (.ok layout, m.put id { e with memory, reference := some reference })

def finalizeAt (m : Monitor) (id : EnclaveId) (layout : Layout) :
    Option (Except MonitorError Digest × Monitor) :=
  match m.require id .allocated .finalize with
  | .error error => some (.error error, m)
  | .ok e => do
    match ← (layout.validateAt e.exclusive (e.regions.filter (·.kind ≠ .exclusive))).run with
    | .error fault => return (.error (.layoutInvalid (.layout fault)), m)
    | .ok () =>
      match ← (layout.measureAt e.exclusive e.memory).run with
      | .error fault => return (.error (.layoutInvalid (.layout fault)), m)
      | .ok digest =>
        return (.ok digest,
          m.put id { e with
            layout := some layout, digest := some digest, history := some digest,
            state := .finalized })

/-- All that a teardown counts is the pages that it gives back. -/
def teardownAt (m : Monitor) (id : EnclaveId) : Option Monitor :=
  match m.enclave? id with
  | none => some m
  | some e => do
    let pages ← m.pages.unreserveAt e.regions
    return { m.teardown id with pages }

def destroyAt (m : Monitor) (id : EnclaveId) : Option (DestroyOutcome × Monitor) :=
  match m.enclave? id with
  | none => some (.alreadyGone, m)
  | some _ => do
    let m ← m.teardownAt id
    return (.destroyed, m)

def releaseAt (m : Monitor) (id : EnclaveId) : Option (DestroyOutcome × Monitor) :=
  match m.enclave? id with
  | some e => if e.destroyOnRelease then m.destroyAt id else some (.retained, m)
  | none => m.destroyAt id

def enterFromAt (m : Monitor) (id : EnclaveId) (state : EnclaveState) (refusal : Refusal)
    (entry : Entry) : Option (Except MonitorError DomainExit × Monitor) :=
  match m.require id state refusal with
  | .error error => some (.error error, m)
  | .ok e =>
    match (m.platform.enter id entry).1 with
    | .ok _ => some (m.enter id e entry)
    | .error fault => do
      let m ← (m.entered id { e with state := .running } entry).teardownAt id
      return (.error (.lowLevelCall id fault), m)

/-- One call; the calls that do not count are the monitor's own. -/
def stepAt (m : Monitor) : Call → Option (Except MonitorError Reply × Monitor)
  | .allocate minPages => answer .allocated <$> m.allocateAt minPages
  | .load id bundle => answer .loaded <$> m.loadAt id bundle
  | .finalize id layout => answer .finalized <$> m.finalizeAt id layout
  | .run id => answer .entered <$> m.enterFromAt id .finalized .run .run
  | .resume id => answer .entered <$> m.enterFromAt id .suspended .resume .resume
  | .destroy id => (fun (outcome, m) => (.ok (.gone outcome), m)) <$> m.destroyAt id
  | .release id => (fun (outcome, m) => (.ok (.gone outcome), m)) <$> m.releaseAt id
  | call => some (m.step call)

end Monitor

/-! ## Checks in front of steps -/

section

variable {α ε : Type} {p : Prop} [Decidable p]

/-- Where the same check comes first, there is only to see what comes after it. -/
theorem check_eq_some {refusal : α} {x : Option α} {y : α} (h : ¬p → x = some y) :
    (if p then some refusal else x) = some (if p then refusal else y) := by
  by_cases hp : p
  · rw [if_pos hp, if_pos hp]
  · rw [if_neg hp, if_neg hp, h hp]

/-- A check in front of steps goes through as the plain one does, if the steps behind it do. -/
theorem Ranged.check_run {fault : ε} {x : Ranged ε α} {y : Except ε α} (h : ¬p → x.run = some y) :
    (if p then throw fault else x : Ranged ε α).run = some (if p then .error fault else y) :=
  check_eq_some h

end

/-! ## Configurations -/

namespace Config

/-- A connector with pages has more than the header. -/
theorem mailboxRoom?_eq {c : Config} (h : c.connectorPages ≠ 0) :
    c.mailboxRoom? = some (if c.connectorPages * pageSize < addressLimit then
      some (c.connectorPages * pageSize - mailboxHeader) else none) := by
  have hheader : mailboxHeader ≤ c.connectorPages * pageSize := by
    simp only [mailboxHeader, pageSize]
    omega
  rw [mailboxRoom?, checkedMul, addressLimit]
  by_cases hbytes : c.connectorPages * pageSize < UInt64.size
  · rw [if_pos hbytes, if_pos hbytes]
    dsimp only
    rw [checkedSub_of_le hheader]
    rfl
  · rw [if_neg hbytes, if_neg hbytes]

/-- The room of a connector is worked out only where there is one, and in range. -/
theorem checkMailbox_eq (c : Config) : c.checkMailbox =
    if c.connectorPages ≠ 0 ∧ !c.mailboxFits then
      throw (.mailboxSize c.mailboxCapacity c.connectorPages)
    else pure () := by
  rw [checkMailbox]
  by_cases hconnector : c.connectorPages = 0
  · rw [if_neg (Nat.not_lt.mpr (Nat.le_of_eq hconnector)), if_neg fun h => h.1 hconnector]
  · have hfits : (c.connectorPages ≠ 0 ∧ !c.mailboxFits) ↔ c.mailboxCapacity = 0 ∨
        (if c.connectorPages * pageSize < addressLimit then
          some (c.connectorPages * pageSize - mailboxHeader) else none).all
            (· < c.mailboxCapacity) := by
      rw [mailboxFits]
      by_cases hbytes : c.connectorPages * pageSize < addressLimit
      · simp [hconnector, hbytes]
      · simp [hconnector, hbytes]
    rw [if_pos (Nat.pos_of_ne_zero hconnector), mailboxRoom?_eq hconnector, Ranged.some_bind]
    simp only [hfits]

/-- The end of the memory is found out of range as the rule has it. -/
theorem isNone_stop_iff (c : Config) :
    ((checkedMul c.totalPages pageSize).bind (checkedAdd c.dramBase)).isNone ↔
      addressLimit ≤ c.dramBase + c.totalPages * pageSize := by
  rw [checkedMul, addressLimit]
  split
  · rw [Option.bind_some, checkedAdd]
    split
    · simpa using by omega
    · simpa using by omega
  · simpa using by omega

/-- No configuration leads its own check out of range. -/
theorem validateAt_eq (c : Config) : c.validateAt.run = some c.validate := by
  rw [validateAt, validate]
  simp only [isNone_stop_iff, checkMailbox_eq]
  refine Ranged.check_run fun _ => Ranged.check_run fun _ => Ranged.check_run fun _ =>
    Ranged.check_run fun _ => ?_
  by_cases hmailbox : c.connectorPages ≠ 0 ∧ !c.mailboxFits
  · rw [if_pos hmailbox, if_pos hmailbox]
    rfl
  · rw [if_neg hmailbox, if_neg hmailbox, pure_bind]
    exact Ranged.check_run fun _ => rfl

/-- The memory of a configuration that is accepted. -/
theorem Valid.fits {c : Config} (h : c.Valid) :
    (PageAllocator.ofRange c.dramBase c.totalPages).Fits :=
  .of_range h.pages_pos h.dram_aligned h.stop_lt

end Config

/-! ## Layouts -/

namespace Region

variable {r other : Region}

/-- Where a region ends below the limit, its end is found. -/
theorem stop?_eq (h : r.stop < addressLimit) : r.stop? = some r.stop := checkedAdd_of_lt h

/-- Two such regions are compared in range. -/
theorem overlaps?_eq (h : r.stop < addressLimit) (hother : other.stop < addressLimit) :
    r.overlaps? other = some (r.overlaps other) := by
  rw [overlaps?, overlaps, stop?_eq h, stop?_eq hother]
  simp only [Option.bind_eq_bind, Option.bind_some, Option.pure_def]
  split
  · rename_i hlt
    simp [hlt]
  · rename_i hle
    simp [hle]

/-- So is one with each of many. -/
theorem findM?_overlaps?_eq {others : List Region} (hothers : ∀ r ∈ others, r.stop < addressLimit)
    (h : other.stop < addressLimit) :
    others.findM? (·.overlaps? other) = some (others.find? (·.overlaps other)) := by
  induction others with
  | nil => rfl
  | cons r rest ih =>
    obtain ⟨hfirst, hrest⟩ := List.forall_mem_cons.mp hothers
    rw [List.findM?, overlaps?_eq hfirst h, List.find?_cons]
    cases r.overlaps other with
    | true => rfl
    | false => exact ih hrest

end Region

namespace Layout

variable {l : Layout} {exclusive : Region} {others : List Region}

/-- A layout is checked in range, against a region that ends below the limit. -/
theorem validateAt_eq (hstop : exclusive.stop < addressLimit)
    (hothers : ∀ r ∈ others, r.stop < addressLimit) :
    (l.validateAt exclusive others).run = some (l.validate exclusive others) := by
  rw [validateAt, validate]
  cases l.boundaries.find? fun b => b.2 % pageSize ≠ 0 with
  | some boundary => rfl
  | none =>
  cases horder : firstDisorder l.boundaries with
  | some fault => rfl
  | none =>
  obtain ⟨hloader, hruntime, happ⟩ := firstDisorder_boundaries_eq_none_iff.mp horder
  dsimp only
  refine Ranged.check_run fun _ => ?_
  rw [Region.stop?_eq hstop, Ranged.some_bind]
  refine Ranged.check_run fun _ => ?_
  rw [checkedSub_of_le (by omega : l.loader ≤ l.free), Ranged.some_bind]
  cases hmake : Region.make l.loader (l.free - l.loader) exclusive.permission .exclusive with
  | error fault => rfl
  | ok image =>
  have himage := (Region.make_eq_ok_iff.mp hmake).2.stop_lt
  dsimp only
  rw [Region.findM?_overlaps?_eq hothers himage, Ranged.some_bind]
  cases others.find? (·.overlaps image) with
  | none => rfl
  | some other => rfl

/-- Measuring, with its check, comes to the measurement or to the same refusal. -/
theorem measureAt_eq (hstop : exclusive.stop < addressLimit) (memory : Memory) :
    (l.measureAt exclusive memory).run = some (l.measure exclusive memory) := by
  have hcheck : l.validateAt exclusive [] = .mk (some (l.validate exclusive [])) :=
    l.validateAt_eq hstop (by simp)
  rw [← feedAt_eq, feedAt, measureAt, hcheck, Memory.length_toBytes]
  cases hvalidate : l.validate exclusive [] with
  | error fault => rfl
  | ok =>
    by_cases hsize : memory.size ≠ exclusive.size
    · rw [if_pos hsize]
      dsimp only
      rw [if_pos hsize]
      rfl
    · have hplaced := wellPlaced_of_validate hvalidate
      have hlength : memory.toBytes.length = exclusive.size := by
        rw [Memory.length_toBytes]
        exact Decidable.not_not.mp hsize
      rw [if_neg hsize]
      dsimp only
      rw [if_neg hsize, hplaced.segments?_eq hlength, hplaced.sizes?_eq]
      rfl

end Layout

/-! ## Images -/

/-- No byte string in memory is longer than this: 2⁶³ - 1 bytes. -/
def longestBytes : Nat := 0x7fffffffffffffff

namespace Image

variable {image : Image} {region : Region} {memory : Memory}

/-- Images that can be held are counted in range. -/
theorem pages?_eq (h : ∀ segment ∈ image.segments, segment.length ≤ longestBytes) :
    image.pages? = some image.pages := by
  have hpages {segment : Bytes} (hmem : segment ∈ image.segments) :
      pagesFor segment.length < UInt64.size / 4 := by
    have hlength := h segment hmem
    simp only [pagesFor, pageSize, longestBytes, UInt64.size] at hlength ⊢
    omega
  have hloader : pagesFor image.loader.length < UInt64.size / 4 := hpages (by simp [segments])
  have hruntime : pagesFor image.runtime.length < UInt64.size / 4 := hpages (by simp [segments])
  have happ : pagesFor image.app.length < UInt64.size / 4 := hpages (by simp [segments])
  simp only [pages?, pages, segments, List.foldlM_cons, List.foldlM_nil, List.foldl_cons,
    List.foldl_nil]
  rw [checkedAdd_of_lt (by omega), Option.bind_eq_bind, Option.bind_some,
    checkedAdd_of_lt (by omega), Option.bind_some, checkedAdd_of_lt (by omega)]
  rfl

/-- A segment is copied to where there is room for it. -/
theorem placeSegmentAt_eq {base cursor : Nat} {segment : Bytes} (hsize : memory.size = region.size)
    (hroom : cursor + pageRoundUp segment.length ≤ region.size)
    (hstop : base + region.size < addressLimit) :
    placeSegmentAt base cursor segment memory =
      some (base + cursor, cursor + pageRoundUp segment.length, memory.write cursor segment) := by
  have hstop : base + region.size < UInt64.size := hstop
  have hle := le_pageRoundUp segment.length
  have hcopy : memory.copy? cursor (cursor + segment.length) segment =
      some (memory.write cursor segment) :=
    if_pos ⟨Nat.le_add_right _ _, by omega, (Nat.add_sub_cancel_left _ _).symm⟩
  have hpages : pagesFor segment.length * pageSize = pageRoundUp segment.length := rfl
  simp only [placeSegmentAt, checkedAdd_of_lt (by omega : base + cursor < UInt64.size),
    checkedAdd_of_lt (by omega : cursor + segment.length < UInt64.size), hcopy,
    checkedMul_of_lt (by omega : pagesFor segment.length * pageSize < UInt64.size), hpages,
    checkedAdd_of_lt (by omega : cursor + pageRoundUp segment.length < UInt64.size),
    Option.bind_eq_bind, Option.bind_some, Option.pure_def]

/-- An image is loaded where there is room for it, whatever was in memory before. -/
theorem placeAt_eq (hvalid : region.Valid) (hroom : image.pages ≤ region.pages)
    (hsize : memory.size = region.size) :
    image.placeAt region.base memory =
      some (image.layoutAt region.base, image.loadInto region.size) := by
  have hpages := image.pages_le_size hroom
  rw [pages_mul_pageSize] at hpages
  have hstop : region.base + region.size < addressLimit := hvalid.stop_lt
  have hend : region.base + (0 + pageRoundUp image.loader.length +
      pageRoundUp image.runtime.length + pageRoundUp image.app.length) < UInt64.size := by
    rw [addressLimit] at hstop
    omega
  have hloader := placeSegmentAt_eq (rfl : (Memory.zeroed region.size).size = region.size)
    (by omega : 0 + pageRoundUp image.loader.length ≤ region.size) hstop
  have hruntime := placeSegmentAt_eq
    (rfl : ((Memory.zeroed region.size).write 0 image.loader).size = region.size)
    (by omega : 0 + pageRoundUp image.loader.length + pageRoundUp image.runtime.length ≤
      region.size) hstop
  have happ := placeSegmentAt_eq
    (rfl : (((Memory.zeroed region.size).write 0 image.loader).write
      (0 + pageRoundUp image.loader.length) image.runtime).size = region.size)
    (by omega : 0 + pageRoundUp image.loader.length + pageRoundUp image.runtime.length +
      pageRoundUp image.app.length ≤ region.size) hstop
  simp only [placeAt, hsize, hloader, Option.bind_eq_bind, Option.bind_some, hruntime, happ,
    checkedAdd_of_lt hend, Option.pure_def, Option.some.injEq, Prod.mk.injEq]
  refine ⟨?_, rfl⟩
  simp only [layoutAt, Nat.zero_add, Nat.add_zero, Nat.add_assoc]

end Image

/-! ## Calls -/

/-- A call whose byte strings lie in memory. -/
def Call.Holdable : Call → Prop
  | .load _ bundle => ∀ segment ∈ bundle.image.segments, segment.length ≤ longestBytes
  | _ => True

namespace Monitor

variable {config : Config} {m : Monitor} {id : EnclaveId} {e : Enclave}

namespace MemorySound

/-- The check of the configuration is enough for the allocator, in whatever state it is. -/
theorem fits (h : MemorySound config m) (hconfig : config.Valid) : m.pages.Fits :=
  h.lends.fits hconfig.fits

/-- An allocation is made in range, with every configuration that is accepted. -/
theorem allocateAt_eq (h : MemorySound config m) (hconfig : config.Valid) (minPages : Nat) :
    m.allocateAt minPages = some (m.allocate minPages) := by
  rw [allocateAt, allocate, (h.fits hconfig).reserveAllAt_eq]
  refine check_eq_some fun _ => check_eq_some fun _ => ?_
  rcases m.pages.reserveAll minPages m.config.untrustedPages m.config.connectorPages with
    ⟨shortage | regions, pages⟩
  · rfl
  · rfl

/-- An image that can be held is loaded in range. -/
theorem loadAt_eq (h : MemorySound config m) (hhoused : ∀ id e, m.enclave? id = some e → e.Housed)
    {bundle : Bundle} (hsize : ∀ segment ∈ bundle.image.segments, segment.length ≤ longestBytes) :
    m.loadAt id bundle = some (m.load id bundle) := by
  rw [loadAt, load]
  cases Reference.ofString bundle.reference with
  | error fault => rfl
  | ok reference =>
  dsimp only
  refine check_eq_some fun _ => ?_
  cases hrequire : m.require id .allocated .load with
  | error error => rfl
  | ok e =>
  have hlive := (require_eq_ok_iff.mp hrequire).1
  dsimp only
  rw [Image.pages?_eq hsize, Option.bind_eq_bind, Option.bind_some]
  refine check_eq_some fun hroom => ?_
  rw [Image.placeAt_eq (h.exclusive_valid hlive) (Nat.not_lt.mp hroom)
    (hhoused id e hlive).size_eq]
  rfl

/-- An enclave is measured in range. -/
theorem finalizeAt_eq (h : MemorySound config m) (layout : Layout) :
    m.finalizeAt id layout = some (m.finalize id layout) := by
  rw [finalizeAt, finalize]
  cases hrequire : m.require id .allocated .finalize with
  | error error => rfl
  | ok e =>
  have hlive := (require_eq_ok_iff.mp hrequire).1
  have hstop := (h.exclusive_valid hlive).stop_lt
  have hothers : ∀ r ∈ e.regions.filter (·.kind ≠ .exclusive), r.stop < addressLimit := by
    intro r hr
    have hmem := (regions_perm hlive).mem_iff.mpr (List.mem_append_left _ (List.mem_filter.mp hr).1)
    exact (h.valid r hmem).stop_lt
  dsimp only
  rw [Layout.validateAt_eq hstop hothers, Option.bind_eq_bind, Option.bind_some,
    Layout.measureAt_eq hstop]
  cases layout.validate e.exclusive (e.regions.filter (·.kind ≠ .exclusive)) with
  | error fault => rfl
  | ok =>
  cases layout.measure e.exclusive e.memory with
  | error fault => rfl
  | ok digest => rfl

/-- An enclave is taken down in range, whoever it was. -/
theorem teardownAt_eq (h : MemorySound config m) (hconfig : config.Valid) (id : EnclaveId) :
    m.teardownAt id = some (m.teardown id) := by
  rw [teardownAt]
  cases hlive : m.enclave? id with
  | none =>
    rw [teardown, hlive]
  | some e =>
    have hlends := h.lends.perm ((regions_teardown hlive).map Region.extent)
    rw [List.map_append] at hlends
    dsimp only
    rw [hlends.unreserveAt_eq hconfig.fits, teardown_eq hlive]
    rfl

/-- An enclave is destroyed in range. -/
theorem destroyAt_eq (h : MemorySound config m) (hconfig : config.Valid) (id : EnclaveId) :
    m.destroyAt id = some (m.destroy id) := by
  rw [destroyAt, destroy, h.teardownAt_eq hconfig]
  cases m.enclave? id with
  | none => rfl
  | some e => rfl

/-- An enclave is released in range, whether that destroys it or not. -/
theorem releaseAt_eq (h : MemorySound config m) (hconfig : config.Valid) (id : EnclaveId) :
    m.releaseAt id = some (m.release id) := by
  rw [releaseAt, release, h.destroyAt_eq hconfig]
  cases m.enclave? id with
  | none => rfl
  | some e =>
    dsimp only
    split
    · rfl
    · rfl

/-- An enclave is entered in range, also where a failed entry ends it. -/
theorem enterFromAt_eq (h : MemorySound config m) (hconfig : config.Valid) (id : EnclaveId)
    (state : EnclaveState) (refusal : Refusal) (entry : Entry) :
    m.enterFromAt id state refusal entry = some (m.enterFrom id state refusal entry) := by
  rw [enterFromAt, enterFrom]
  cases hrequire : m.require id state refusal with
  | error error => rfl
  | ok e =>
  have hlive := (require_eq_ok_iff.mp hrequire).1
  have hput : MemorySound config (m.put id { e with state := .running }) := h.put hlive rfl
  have hentered : MemorySound config (m.entered id { e with state := .running } entry) :=
    hput.congr rfl rfl rfl
  dsimp only
  cases hexit : (m.platform.enter id entry).1 with
  | ok exit => rfl
  | error fault =>
    dsimp only
    rw [hentered.teardownAt_eq hconfig, enter, hexit]
    rfl

/-- No call leaves the range. -/
theorem stepAt_eq (h : MemorySound config m) (hconfig : config.Valid)
    (hhoused : ∀ id e, m.enclave? id = some e → e.Housed) {call : Call} (hhold : call.Holdable) :
    m.stepAt call = some (m.step call) := by
  cases call with
  | allocate minPages =>
    rw [stepAt, h.allocateAt_eq hconfig]
    rfl
  | load id bundle =>
    rw [stepAt, h.loadAt_eq hhoused hhold]
    rfl
  | finalize id layout =>
    rw [stepAt, h.finalizeAt_eq]
    rfl
  | run id =>
    rw [stepAt, h.enterFromAt_eq hconfig]
    rfl
  | resume id =>
    rw [stepAt, h.enterFromAt_eq hconfig]
    rfl
  | destroy id =>
    rw [stepAt, h.destroyAt_eq hconfig]
    rfl
  | release id =>
    rw [stepAt, h.releaseAt_eq hconfig]
    rfl
  | _ => rfl

/-- An allocation is never refused for a region that could not be made. -/
theorem allocate_ne_region (h : MemorySound config m) (hconfig : config.Valid) (minPages : Nat)
    (fault : RegionFault) :
    (m.allocate minPages).1 ≠ .error (.resourceExhausted (.region fault)) := by
  rw [allocate]
  split
  · intro heq
    cases heq
  split
  · intro heq
    cases heq
  rcases hreserve : m.pages.reserveAll minPages m.config.untrustedPages m.config.connectorPages
    with ⟨shortage | regions, pages⟩
  · intro heq
    cases heq
    exact (h.fits hconfig).reserveAll_ne_region _ _ _ fault (congrArg Prod.fst hreserve)
  · intro heq
    cases heq

end MemorySound

/-! ## Runs -/

/-- No step of what a monitor counts is out of range, whatever it is asked. -/
structure InRange (m : Monitor) : Prop where
  /-- Every call comes to what the monitor answers. -/
  step : ∀ call : Call, call.Holdable → m.stepAt call = some (m.step call)
  /-- So does every reservation by itself, of however many pages. -/
  reserve : ∀ pages permission kind,
    m.pages.reserveAt pages permission kind = some (m.pages.reserve pages permission kind)
  /-- The checked way to build a region refuses none that is reserved. -/
  accepts : ∀ pages permission kind fault,
    (m.pages.reserve pages permission kind).1 ≠ .error (.region fault)
  allocates : ∀ minPages fault,
    (m.allocate minPages).1 ≠ .error (.resourceExhausted (.region fault))
  used : m.pages.usedPages? = some m.usedPages
  stop : ∀ r ∈ m.regions, r.stop? = some r.stop

/-- The steps of every call, where the memory is divided and the buffers fit their regions. -/
theorem MemorySound.inRange (h : MemorySound config m) (hconfig : config.Valid)
    (hhoused : ∀ id e, m.enclave? id = some e → e.Housed) : m.InRange where
  step _ hhold := h.stepAt_eq hconfig hhoused hhold
  reserve _ _ _ := (h.fits hconfig).reserveAt_eq
  accepts _ _ _ := (h.fits hconfig).reserve_ne_region
  allocates := h.allocate_ne_region hconfig
  used := (h.fits hconfig).usedPages?_eq
  stop r hr := Region.stop?_eq (h.valid r hr).stop_lt

/-- No arithmetic fault. The check of a configuration is never out of range itself. With one that it
accepts, in every state that is reached, neither the allocator nor a call that uses it, the check of
a layout, measuring or loading leads out of range, and no region is refused that was reserved. -/
theorem arithmetic_in_range (hconfig : config.validate = .ok ()) (platform : Platform)
    (identity : Identity) :
    (∀ c : Config, c.validateAt.run = some c.validate) ∧
      ∃ m, Monitor.start config platform identity = .ok m ∧
        ∀ acts, (m.perform acts).InRange := by
  have hstart : Monitor.start config platform identity = .ok
      ⟨config, platform, identity, [], [], .ofRange config.dramBase config.totalPages, []⟩ := by
    rw [Monitor.start, hconfig]
  refine ⟨Config.validateAt_eq, _, hstart, fun acts => ?_⟩
  have hmemory := (MemorySound.start hstart).perform acts
  exact hmemory.inRange (Config.validate_eq_ok_iff.mp hconfig) (housed_of_start hstart acts)

/-- The last three pages but one that 64 bits can address are handed out and given back. -/
theorem arithmetic_in_range_topmost :
    let config : Config := { dramBase := 0xffffffffffffc000, totalPages := 3
                             untrustedPages := 1, connectorPages := 1 }
    config.validate = .ok () ∧
    ∃ m, Monitor.start config .initial ⟨⟨⟨List.replicate 32 7, rfl⟩⟩,
        ⟨⟨List.replicate 64 9, rfl⟩⟩⟩ = .ok m ∧
      (m.perform [.call (.allocate 1)]).pages.usedPages? = some 3 ∧
      (m.perform [.call (.allocate 1)]).InRange ∧
      (m.perform [.call (.allocate 1), .call (.destroy ⟨0, 1⟩)]).InRange := by
  intro config
  have hconfig : config.validate = .ok () := by decide
  refine ⟨hconfig, ?_⟩
  obtain ⟨-, m, hstart, hall⟩ := arithmetic_in_range hconfig .initial
    ⟨⟨⟨List.replicate 32 7, rfl⟩⟩, ⟨⟨List.replicate 64 9, rfl⟩⟩⟩
  refine ⟨m, hstart, ?_, hall _, hall _⟩
  rw [Monitor.start, hconfig] at hstart
  cases hstart
  decide

end Monitor

end Enclaves

import Enclaves.Proofs.Effect

/-!
# Who has the memory

Every address of the configured memory belongs to exactly one region of one live enclave, or it is
free. `Partitioned` is the statement; `MemorySound` is the invariant behind it, which says it in the
words of the allocator: what the live enclaves have is what was lent (`PageAllocator.Lends`), and
the stack of cleared slots holds cleared slots only. The second clause is there because a new
enclave would otherwise take a slot, and with it the regions, from a live one.

Nothing is asked of the platform that a monitor starts on. It takes no part in who has the memory.
-/

namespace Enclaves

open Extent (Canonical coverage)

/-- Regions are apart from one another. -/
theorem Region.Apart.symm {r s : Region} (h : r.Apart s) : s.Apart r := Or.symm h

/-- A record keeps its regions. -/
theorem Enclave.Update.regions_eq {e e' : Enclave} (h : e.Update e') : e'.regions = e.regions := by
  cases h with
  | writeUntrusted region before after huntrusted => simp [Enclave.regions, huntrusted]
  | _ => rfl

/-- An event moves no memory. -/
@[simp] theorem Enclave.regions_meet (e : Enclave) (event : Event) (side peer : Side) :
    (e.meet event side peer).regions = e.regions := rfl

/-- The memory that is handed out, as one run. -/
def Config.memory (config : Config) : Extent := ⟨config.dramBase, config.totalPages⟩

namespace Monitor

variable {config : Config} {m m' : Monitor} {id other : EnclaveId} {e f : Enclave}

/-- A new enclave has the regions that were reserved for it. -/
theorem regions_newcomer (m : Monitor) (exclusive : Region) (untrusted connector : Option Region) :
    (m.newcomer exclusive untrusted connector).regions =
      exclusive :: (untrusted.toList ++ connector.toList) := by
  cases untrusted <;> cases connector <;> rfl

/-! ## The invariant -/

/-- What the live enclaves have is what was lent, and every region is one. -/
structure MemorySound (config : Config) (m : Monitor) : Prop where
  stack : m.StackSound
  lends : (PageAllocator.ofRange config.dramBase config.totalPages).Lends
    (m.regions.map Region.extent) m.pages
  valid : ∀ r ∈ m.regions, r.Valid

namespace MemorySound

/-- At the start all memory is free. -/
theorem start {platform : Platform} {identity : Identity}
    (h : Monitor.start config platform identity = .ok m) : MemorySound config m := by
  unfold Monitor.start at h
  split at h
  · cases h
  rename_i hconfig
  cases h
  have hvalid := Config.validate_eq_ok_iff.mp hconfig
  refine ⟨⟨.nil, by simp⟩, ?_, by simp [regions, enclaves]⟩
  exact .refl (Extent.Canonical.cons_iff.mpr
    ⟨⟨hvalid.pages_pos, hvalid.dram_aligned, by simp⟩, .nil⟩)

/-- Nothing else matters to how memory is divided. -/
theorem congr (h : MemorySound config m) (hslots : m'.slots = m.slots)
    (hfree : m'.freeSlots = m.freeSlots) (hpages : m'.pages = m.pages) :
    MemorySound config m' := by
  have hregions : m'.regions = m.regions := by simp only [regions, enclaves, hslots]
  refine ⟨⟨hfree ▸ h.stack.nodup, ?_⟩, ?_, ?_⟩
  · rw [hfree, hslots]
    exact h.stack.vacant
  · rw [hregions, hpages]
    exact h.lends
  · rw [hregions]
    exact h.valid

/-- Writing a record back with its memory keeps the memory divided. -/
theorem put (h : MemorySound config m) (hlive : m.enclave? id = some e)
    (hregions : f.regions = e.regions) : MemorySound config (m.put id f) := by
  have hperm : m.regions.Perm (m.put id f).regions := by
    refine (regions_perm hlive).trans ?_
    rw [← hregions]
    exact (regions_put hlive f).symm
  refine ⟨h.stack.put hlive f, ?_, fun r hr => h.valid r (hperm.mem_iff.mpr hr)⟩
  exact h.lends.perm (hperm.map _)

/-- A new enclave has memory that was free. -/
theorem enroll (h : MemorySound config m) {minPages : Nat} {exclusive : Region}
    {untrusted connector : Option Region} {pages : PageAllocator}
    (hreserve : m.reserveFor minPages = (.ok (exclusive, untrusted, connector), pages)) :
    MemorySound config (m.enroll exclusive untrusted connector pages).2 := by
  obtain ⟨hexclusive, huntrusted, hconnector, hlends⟩ :=
    PageAllocator.lends_of_reserveAll h.lends.after hreserve
  have hstack : (m.supply pages (m.newcomer exclusive untrusted connector)).StackSound :=
    ⟨h.stack.nodup, h.stack.vacant⟩
  have hperm := regions_settle hstack (m.newcomer exclusive untrusted connector)
  refine ⟨hstack.settle _, ?_, ?_⟩
  · rw [Monitor.enroll, pages_settle hstack]
    refine (h.lends.trans hlends).perm ?_
    rw [← regions_newcomer m, ← List.map_append]
    exact (hperm.map _).symm
  · intro r hr
    rcases List.mem_append.mp (hperm.mem_iff.mp hr) with hnew | hold
    · rw [regions_newcomer, List.mem_cons, List.mem_append, Option.mem_toList,
        Option.mem_toList] at hnew
      rcases hnew with rfl | hmem | hmem
      · exact hexclusive.valid
      · exact (huntrusted r hmem).valid
      · exact (hconnector r hmem).valid
    · exact h.valid r hold

/-- The memory of an enclave that goes is free again. -/
theorem remove (h : MemorySound config m) (hlive : m.enclave? id = some e) :
    MemorySound config (m.teardown id) := by
  have hperm := regions_teardown hlive
  refine ⟨h.stack.teardown hlive, ?_, ?_⟩
  · have hlends := h.lends.perm (hperm.map Region.extent)
    rw [List.map_append] at hlends
    rw [teardown_eq hlive] at hlends ⊢
    exact hlends.unreserve
  · intro r hr
    exact h.valid r (hperm.mem_iff.mpr (List.mem_append_right _ hr))

/-- An event divides no memory. -/
theorem meet (h : MemorySound config m) {event : Event} {sideA sideB : Side} {eA eB : Enclave}
    (hne : sideA.id ≠ sideB.id) (hA : m.Partner event sideA eA sideB)
    (hB : m.Partner event sideB eB sideA) :
    MemorySound config (m.meet event sideA sideB eA eB) := by
  have hfirst := h.put hA.live (eA.regions_meet event sideA sideB)
  have hliveB := (enclave?_put_of_ne hA.live (eA.meet event sideA sideB) hne.symm).trans hB.live
  exact (hfirst.put hliveB (eB.regions_meet event sideB sideA)).congr rfl rfl rfl

/-- No act changes that. -/
theorem step (h : MemorySound config m) {act : Act} (heffect : m.Effect act m') :
    MemorySound config m' := by
  cases heffect with
  | idle => exact h
  | around => exact h.congr rfl rfl rfl
  | short hreserve =>
    exact h.congr rfl rfl (PageAllocator.eq_of_reserveAll_error h.lends.after hreserve)
  | enroll hreserve => exact h.enroll hreserve
  | update hlive hupdate => exact (h.put hlive hupdate.regions_eq).congr rfl rfl rfl
  | remove hlive => exact (h.remove hlive).congr rfl rfl rfl
  | retract => exact h.congr rfl rfl rfl
  | meet hne hA hB => exact h.meet hne hA hB

/-- The regions of the live enclaves are apart. -/
theorem apart (h : MemorySound config m) : m.regions.Pairwise Region.Apart := by
  have hextents : (m.regions.map Region.extent).Pairwise Extent.Apart :=
    Extent.pairwise_apart_of_coverage h.lends.lent_pos h.lends.coverage_le_one
  refine (List.pairwise_map.mp hextents).imp_of_mem fun hr hs hapart => ?_
  rw [Extent.Apart, (h.valid _ hr).extent_stop, (h.valid _ hs).extent_stop] at hapart
  exact hapart

/-- Two live enclaves share no memory. -/
theorem apart_of_ne (h : MemorySound config m) (hlive : m.enclave? id = some e)
    (hother : m.enclave? other = some f) (hne : other ≠ id) {r s : Region} (hr : r ∈ e.regions)
    (hs : s ∈ f.regions) : r.Apart s := by
  have hpair := h.apart.perm (regions_perm hlive) Region.Apart.symm
  refine (List.pairwise_append.mp hpair).2.2 r hr s ?_
  exact List.mem_flatMap.mpr ⟨f, mem_enclavesBut hlive hother hne, hs⟩

end MemorySound

/-! ## The partition -/

/-- The memory of a configuration, divided among the live enclaves and what is free. -/
structure Partitioned (config : Config) (m : Monitor) : Prop where
  /-- Regions are not empty, aligned to pages at both ends, and below 2⁶⁴. -/
  valid : ∀ r ∈ m.regions, r.Valid
  inside : ∀ r ∈ m.regions, config.dramBase ≤ r.base ∧ r.stop ≤ config.memory.stop
  apart : m.regions.Pairwise Region.Apart
  free_pos : ∀ e ∈ m.pages.free, 0 < e.pages
  free_aligned : ∀ e ∈ m.pages.free, e.base % pageSize = 0
  free_inside : ∀ e ∈ m.pages.free, config.dramBase ≤ e.base ∧ e.stop ≤ config.memory.stop
  /-- The free runs are in order of address with a gap between any two. -/
  free_apart : m.pages.free.Pairwise fun e f => e.stop < f.base
  /-- No address is lost, and none comes from elsewhere. -/
  whole : ∀ x, config.memory.contains x ↔
    (∃ r ∈ m.regions, r.contains x) ∨ ∃ e ∈ m.pages.free, e.contains x
  /-- No address is both owned and free. -/
  apart_free : ∀ r ∈ m.regions, ∀ e ∈ m.pages.free, r.stop ≤ e.base ∨ e.stop ≤ r.base
  used : m.usedPages = Extent.pageCount (m.regions.map Region.extent)

namespace MemorySound

variable {x : Nat}

/-- An address is configured if it is owned or free. -/
theorem contains_iff (h : MemorySound config m) (x : Nat) : config.memory.contains x ↔
    (∃ r ∈ m.regions, r.contains x) ∨ ∃ e ∈ m.pages.free, e.contains x := by
  have hcovers := h.lends.covers x
  have howned : 0 < coverage (m.regions.map Region.extent) x ↔ ∃ r ∈ m.regions, r.contains x := by
    rw [Extent.coverage_pos_iff]
    constructor
    · rintro ⟨_, hmem, hx⟩
      obtain ⟨r, hr, rfl⟩ := List.mem_map.mp hmem
      exact ⟨r, hr, by rwa [← (h.valid r hr).contains_extent]⟩
    · rintro ⟨r, hr, hx⟩
      exact ⟨r.extent, List.mem_map_of_mem hr, by rwa [(h.valid r hr).contains_extent]⟩
  have hall : 0 < coverage (PageAllocator.ofRange config.dramBase config.totalPages).free x ↔
      config.memory.contains x := by
    rw [Extent.coverage_pos_iff]
    simp [PageAllocator.ofRange, Config.memory]
  rw [← howned, ← Extent.coverage_pos_iff, ← hall, hcovers]
  omega

/-- What an enclave has is not free. -/
theorem apart_free (h : MemorySound config m) {r : Region} (hr : r ∈ m.regions) {run : Extent}
    (hrun : run ∈ m.pages.free) : r.stop ≤ run.base ∨ run.stop ≤ r.base := by
  have hapart := h.lends.apart_free (List.mem_map_of_mem hr) hrun
  rwa [Extent.Apart, (h.valid r hr).extent_stop] at hapart

/-- The pages in use are those of the regions that are out. -/
theorem usedPages_eq (h : MemorySound config m) :
    m.usedPages = Extent.pageCount (m.regions.map Region.extent) := by
  have hcounts := h.lends.counts
  have htotal : m.pages.total = config.totalPages := h.lends.total
  have hall : Extent.pageCount (PageAllocator.ofRange config.dramBase config.totalPages).free =
      config.totalPages := by
    simp [PageAllocator.ofRange]
  rw [usedPages, PageAllocator.usedPages, PageAllocator.freePages, htotal]
  omega

/-- Whatever lies inside what is owned or free lies inside the configured memory. -/
theorem inside (h : MemorySound config m) {base stop : Nat} (hlt : base < stop)
    (hall : ∀ x, base ≤ x → x < stop →
      (∃ r ∈ m.regions, r.contains x) ∨ ∃ run ∈ m.pages.free, run.contains x) :
    config.dramBase ≤ base ∧ stop ≤ config.memory.stop := by
  have hfirst := (h.contains_iff base).mpr (hall base (Nat.le_refl _) hlt)
  have hlast := (h.contains_iff (stop - 1)).mpr (hall (stop - 1) (by omega) (by omega))
  rw [Extent.contains_iff] at hfirst hlast
  exact ⟨hfirst.1, by omega⟩

/-- The invariant in words of the live enclaves. -/
theorem partitioned (h : MemorySound config m) : Partitioned config m where
  valid := h.valid
  inside r hr := by
    have hsize := (h.valid r hr).size_pos
    refine h.inside (by simp only [Region.stop]; omega) fun x hbase hstop => ?_
    exact .inl ⟨r, hr, Region.contains_iff.mpr ⟨hbase, hstop⟩⟩
  apart := h.apart
  free_pos := h.lends.after.pages_pos
  free_aligned := h.lends.after.aligned
  free_inside run hrun := by
    have hpages := h.lends.after.pages_pos run hrun
    refine h.inside (by simp only [Extent.stop, pageSize]; omega) fun x hbase hstop => ?_
    exact .inr ⟨run, hrun, Extent.contains_iff.mpr ⟨hbase, hstop⟩⟩
  free_apart := h.lends.after.apart
  whole := h.contains_iff
  apart_free r hr run hrun := h.apart_free hr hrun
  used := h.usedPages_eq

/-- The memory stays divided through every run. -/
theorem perform (h : MemorySound config m) (acts : List Act) :
    MemorySound config (m.perform acts) :=
  perform_induction (fun h heffect => h.step heffect) h acts

end MemorySound

/-- Memory isolation. With a configuration that is accepted, whatever the platform does and
whichever calls are made in which order, the memory stays divided among the live enclaves and what
is free. -/
theorem memory_partitioned (hconfig : config.validate = .ok ()) (platform : Platform)
    (identity : Identity) :
    ∃ m, Monitor.start config platform identity = .ok m ∧
      ∀ acts, Partitioned config (m.perform acts) := by
  have hstart : Monitor.start config platform identity = .ok
      ⟨config, platform, identity, [], [], .ofRange config.dramBase config.totalPages, []⟩ := by
    rw [Monitor.start, hconfig]
  exact ⟨_, hstart, fun acts => ((MemorySound.start hstart).perform acts).partitioned⟩

/-- Two enclaves come into being and one of them goes. -/
theorem memory_partitioned_default : ({} : Config).validate = .ok () ∧
    ∃ m, Monitor.start {} .initial ⟨⟨⟨List.replicate 32 7, rfl⟩⟩, ⟨⟨List.replicate 64 9, rfl⟩⟩⟩ =
        .ok m ∧
      (m.perform [.call (.allocate 16), .call (.allocate 4), .call (.destroy ⟨0, 1⟩)]).usedPages =
        70 ∧
      Partitioned {} (m.perform [.call (.allocate 16), .call (.allocate 4),
        .call (.destroy ⟨0, 1⟩)]) := by
  refine ⟨rfl, ?_⟩
  obtain ⟨m, hstart, hall⟩ := memory_partitioned (rfl : ({} : Config).validate = .ok ()) .initial
    ⟨⟨⟨List.replicate 32 7, rfl⟩⟩, ⟨⟨List.replicate 64 9, rfl⟩⟩⟩
  refine ⟨m, hstart, ?_, hall _⟩
  cases hstart
  decide

end Monitor

end Enclaves

import Enclaves.Monitor.Lifecycle
import Enclaves.Proofs.FreeList

/-!
# Lending pages

`a.Lends lent left`: the allocator `a` has handed out the runs `lent`, and `left` is what it has
left. Handing out more is transitive (`Lends.trans`), and a run is given back whatever was handed
out after it (`Lends.give`). An allocator that gets everything back is what it was
(`Lends.eq_of_nil`), free list and all. So a reservation that fails halfway and gives back what it
had leaves no trace (`eq_of_reserveAll_error`), in which order soever it gives it back.

Nothing is said about which run is handed out; that it is the lowest does not matter here.
-/

namespace Enclaves

namespace Region

/-- The pages of a region, as a run. -/
def extent (r : Region) : Extent := ⟨r.base, r.pages⟩

/-- Two regions with no address in common. -/
def Apart (r s : Region) : Prop := r.stop ≤ s.base ∨ s.stop ≤ r.base

variable {r : Region}

/-- A region has the addresses from its base up to its end. -/
theorem contains_iff {x : Nat} : r.contains x ↔ r.base ≤ x ∧ x < r.stop := by
  simp [contains]

/-- A valid region ends where its pages do. -/
theorem Valid.extent_stop (h : r.Valid) : r.extent.stop = r.stop := by
  have hsize := Nat.div_add_mod r.size pageSize
  rw [h.size_aligned] at hsize
  simp only [extent, Extent.stop, pages, stop]
  rw [Nat.mul_comm]
  omega

/-- The pages of a valid region are its addresses. -/
theorem Valid.contains_extent (h : r.Valid) (x : Nat) : r.extent.contains x = r.contains x := by
  simp only [Extent.contains, contains, h.extent_stop]
  rfl

/-- A valid region of the size and the use that were asked for. -/
structure Serves (r : Region) (pages : Nat) (permission : Permission) (kind : RegionKind) :
    Prop where
  valid : r.Valid
  pages_eq : r.pages = pages
  permission_eq : r.permission = permission
  kind_eq : r.kind = kind

/-- A region that serves is as long as was asked for. -/
theorem Serves.size_eq {pages : Nat} {permission : Permission} {kind : RegionKind}
    (h : r.Serves pages permission kind) : r.size = pages * pageSize := by
  rw [← h.pages_eq, Region.pages]
  exact (Nat.div_mul_cancel (Nat.dvd_of_mod_eq_zero h.valid.size_aligned)).symm

end Region

namespace PageAllocator

open Extent (Canonical coverage pageCount)

/-- An allocator handed out some runs, and this is what it has left. -/
structure Lends (a : PageAllocator) (lent : List Extent) (left : PageAllocator) : Prop where
  total : left.total = a.total
  before : Canonical a.free
  after : Canonical left.free
  covers : ∀ x, coverage a.free x = coverage left.free x + coverage lent x
  counts : pageCount a.free = pageCount left.free + pageCount lent
  lent_pos : ∀ e ∈ lent, 0 < e.pages
  lent_aligned : ∀ e ∈ lent, e.base % pageSize = 0

variable {a b c : PageAllocator} {e : Extent} {lent more : List Extent}

/-- Nothing was lent. -/
theorem Lends.refl (h : Canonical a.free) : a.Lends [] a :=
  ⟨rfl, h, h, by simp, by simp, by simp, by simp⟩

/-- What is lent after the first loan is lent in all. -/
theorem Lends.trans (first : a.Lends lent b) (next : b.Lends more c) :
    a.Lends (more ++ lent) c where
  total := next.total.trans first.total
  before := first.before
  after := next.after
  covers x := by
    rw [first.covers, next.covers, Extent.coverage_append]
    omega
  counts := by
    rw [first.counts, next.counts, Extent.pageCount_append]
    omega
  lent_pos e he := (List.mem_append.mp he).elim (next.lent_pos e) (first.lent_pos e)
  lent_aligned e he := (List.mem_append.mp he).elim (next.lent_aligned e) (first.lent_aligned e)

/-- The order of what is lent does not matter. -/
theorem Lends.perm (h : a.Lends lent b) (hperm : lent.Perm more) : a.Lends more b where
  total := h.total
  before := h.before
  after := h.after
  covers x := by rw [h.covers, Extent.coverage_perm hperm]
  counts := by rw [h.counts, Extent.pageCount_perm hperm]
  lent_pos e he := h.lent_pos e (hperm.mem_iff.mpr he)
  lent_aligned e he := h.lent_aligned e (hperm.mem_iff.mpr he)

/-- No address is handed out twice. -/
theorem Lends.coverage_le_one (h : a.Lends lent b) (x : Nat) : coverage lent x ≤ 1 := by
  have := h.before.coverage_le_one x
  have := h.covers x
  omega

/-- No address that was handed out is still free. -/
theorem Lends.apart_free (h : a.Lends lent b) (he : e ∈ lent) {f : Extent} (hf : f ∈ b.free) :
    e.Apart f := by
  have hpair : (lent ++ b.free).Pairwise Extent.Apart := by
    refine Extent.pairwise_apart_of_coverage (fun g hg => ?_) fun x => ?_
    · exact (List.mem_append.mp hg).elim (h.lent_pos g) (h.after.pages_pos g)
    · have := h.before.coverage_le_one x
      have := h.covers x
      rw [Extent.coverage_append]
      omega
  exact (List.pairwise_append.mp hpair).2.2 e he f hf

/-- A run is given back, whichever of those handed out it is. -/
theorem Lends.give (h : a.Lends (e :: lent) b) : a.Lends lent (b.give e.base e.pages) where
  total := h.total
  before := h.before
  after := h.after.insert (h.lent_pos e List.mem_cons_self) (h.lent_aligned e List.mem_cons_self)
    fun _ hf => h.apart_free List.mem_cons_self hf
  covers x := by
    show _ = coverage (e.insert b.free) x + _
    rw [h.covers, Extent.coverage_insert, Extent.coverage_cons, Extent.coverage_singleton]
    omega
  counts := by
    show _ = pageCount (e.insert b.free) + _
    rw [h.counts, Extent.pageCount_insert, Extent.pageCount_cons]
    omega
  lent_pos f hf := h.lent_pos f (List.mem_cons_of_mem _ hf)
  lent_aligned f hf := h.lent_aligned f (List.mem_cons_of_mem _ hf)

/-- Regions that are given back are lent no more. -/
theorem Lends.unreserve {regions : List Region}
    (h : a.Lends (regions.map Region.extent ++ lent) b) : a.Lends lent (b.unreserve regions) := by
  induction regions generalizing b with
  | nil => exact h
  | cons r rest ih => exact ih h.give

/-- An allocator that got everything back is what it was. -/
theorem Lends.eq_of_nil (h : a.Lends [] b) : b = a := by
  have hfree : b.free = a.free := h.after.ext h.before fun x => by simp [h.covers x]
  have htotal := h.total
  cases a
  cases b
  simp_all

/-- When all that was handed out is given back, nothing has happened. -/
theorem Lends.unreserve_eq {regions : List Region} (h : a.Lends (regions.map Region.extent) b) :
    b.unreserve regions = a := by
  rw [← List.append_nil (regions.map Region.extent)] at h
  exact h.unreserve.eq_of_nil

/-- Pages that are taken are lent. -/
theorem lends_of_take? {base pages : Nat} (h : Canonical a.free)
    (htake : a.take? pages = some (base, b)) : a.Lends [⟨base, pages⟩] b := by
  unfold take? at htake
  split at htake
  · cases htake
  · rename_i hpages
    split at htake
    · cases htake
    · rename_i hcut
      cases htake
      refine ⟨rfl, h, h.cutFirst hcut, Extent.coverage_cutFirst hcut, ?_, ?_, ?_⟩
      · rw [Extent.pageCount_cutFirst hcut]
        simp
      · rintro f (_ | ⟨_, ⟨⟩⟩)
        exact Nat.pos_of_ne_zero hpages
      · rintro f (_ | ⟨_, ⟨⟩⟩)
        obtain ⟨g, hg, rfl, -⟩ := Extent.exists_of_cutFirst hcut
        exact h.aligned g hg

/-! ## Reserving regions -/

variable {pages : Nat} {permission : Permission} {kind : RegionKind} {shortage : Shortage}

/-- A region that is reserved serves, and its pages are lent. -/
theorem lends_of_reserve {r : Region} (h : Canonical a.free)
    (hreserve : a.reserve pages permission kind = (.ok r, b)) :
    r.Serves pages permission kind ∧ a.Lends [r.extent] b := by
  unfold reserve at hreserve
  split at hreserve
  · cases hreserve
  · rename_i base taken htake
    split at hreserve
    · rename_i hmake
      cases hreserve
      obtain ⟨rfl, hvalid⟩ := Region.make_eq_ok_iff.mp hmake
      have hpages : pages * pageSize / pageSize = pages :=
        Nat.mul_div_cancel _ (by decide)
      refine ⟨⟨hvalid, hpages, rfl, rfl⟩, ?_⟩
      simp only [Region.extent, Region.pages, hpages]
      exact lends_of_take? h htake
    · cases hreserve

/-- A reservation that fails takes nothing. -/
theorem eq_of_reserve_error (h : Canonical a.free)
    (hreserve : a.reserve pages permission kind = (.error shortage, b)) : b = a := by
  unfold reserve at hreserve
  split at hreserve
  · cases hreserve
    rfl
  · rename_i htake
    split at hreserve
    · cases hreserve
    · cases hreserve
      exact (lends_of_take? h htake).give.eq_of_nil

/-- A region that need not be serves if there is one, and its pages are lent. -/
theorem lends_of_reserveOptional {r : Option Region} (h : Canonical a.free)
    (hreserve : a.reserveOptional pages permission kind = (.ok r, b)) :
    (∀ s ∈ r, s.Serves pages permission kind) ∧ a.Lends (r.toList.map Region.extent) b := by
  unfold reserveOptional at hreserve
  split at hreserve
  · cases hreserve
    exact ⟨by simp, .refl h⟩
  · split at hreserve
    · rename_i hone
      cases hreserve
      obtain ⟨hserves, hlends⟩ := lends_of_reserve h hone
      exact ⟨by simpa using hserves, hlends⟩
    · cases hreserve

/-- A region that may be left out is there if pages are asked for. -/
theorem isSome_of_reserveOptional {r : Option Region}
    (hreserve : a.reserveOptional pages permission kind = (.ok r, b)) :
    r.isSome = true ↔ 0 < pages := by
  unfold reserveOptional at hreserve
  split at hreserve
  · rename_i hzero
    cases hreserve
    simp [hzero]
  · rename_i hne
    split at hreserve
    · cases hreserve
      simpa using Nat.pos_of_ne_zero hne
    · cases hreserve

/-- If it cannot be had, nothing is taken. -/
theorem eq_of_reserveOptional_error (h : Canonical a.free)
    (hreserve : a.reserveOptional pages permission kind = (.error shortage, b)) : b = a := by
  unfold reserveOptional at hreserve
  split at hreserve
  · cases hreserve
  · split at hreserve
    · cases hreserve
    · rename_i hone
      cases hreserve
      exact eq_of_reserve_error h hone

variable {forExclusive forUntrusted forConnector : Nat}

/-- All three regions serve, and the pages of all three are lent. -/
theorem lends_of_reserveAll {exclusive : Region} {untrusted connector : Option Region}
    (h : Canonical a.free)
    (hreserve : a.reserveAll forExclusive forUntrusted forConnector =
      (.ok (exclusive, untrusted, connector), b)) :
    exclusive.Serves forExclusive .readWriteExecute .exclusive ∧
      (∀ r ∈ untrusted, r.Serves forUntrusted .readWrite .untrusted) ∧
      (∀ r ∈ connector, r.Serves forConnector .readWrite .connector) ∧
      a.Lends ((exclusive :: (untrusted.toList ++ connector.toList)).map Region.extent) b := by
  unfold reserveAll at hreserve
  split at hreserve
  · cases hreserve
  · rename_i hexclusive
    split at hreserve
    · cases hreserve
    · rename_i huntrusted
      split at hreserve
      · cases hreserve
      · rename_i hconnector
        cases hreserve
        obtain ⟨hserves, hfirst⟩ := lends_of_reserve h hexclusive
        obtain ⟨hserves', hsecond⟩ := lends_of_reserveOptional hfirst.after huntrusted
        obtain ⟨hserves'', hthird⟩ := lends_of_reserveOptional hsecond.after hconnector
        refine ⟨hserves, hserves', hserves'', ((hfirst.trans hsecond).trans hthird).perm ?_⟩
        rw [List.map_cons, List.map_append]
        -- the regions are listed in the order in which they were had
        exact List.perm_append_comm.trans (List.perm_append_comm.append_right _)

/-- The two that need not be are there exactly if pages were asked for. -/
theorem isSome_of_reserveAll {exclusive : Region} {untrusted connector : Option Region}
    (hreserve : a.reserveAll forExclusive forUntrusted forConnector =
      (.ok (exclusive, untrusted, connector), b)) :
    (untrusted.isSome = true ↔ 0 < forUntrusted) ∧
      (connector.isSome = true ↔ 0 < forConnector) := by
  unfold reserveAll at hreserve
  split at hreserve
  · cases hreserve
  split at hreserve
  · cases hreserve
  rename_i huntrusted
  split at hreserve
  · cases hreserve
  · rename_i hconnector
    cases hreserve
    exact ⟨isSome_of_reserveOptional huntrusted, isSome_of_reserveOptional hconnector⟩

/-- A reservation that fails gives back all that it had. -/
theorem eq_of_reserveAll_error (h : Canonical a.free)
    (hreserve : a.reserveAll forExclusive forUntrusted forConnector = (.error shortage, b)) :
    b = a := by
  unfold reserveAll at hreserve
  split at hreserve
  · rename_i hexclusive
    cases hreserve
    exact eq_of_reserve_error h hexclusive
  · rename_i hexclusive
    obtain ⟨-, hfirst⟩ := lends_of_reserve h hexclusive
    split at hreserve
    · rename_i huntrusted
      cases hreserve
      obtain rfl := eq_of_reserveOptional_error hfirst.after huntrusted
      exact @Lends.unreserve_eq _ _ [_] hfirst
    · rename_i huntrusted
      obtain ⟨-, hsecond⟩ := lends_of_reserveOptional hfirst.after huntrusted
      split at hreserve
      · rename_i hconnector
        cases hreserve
        obtain rfl := eq_of_reserveOptional_error hsecond.after hconnector
        -- the first region goes back first, so the two are put in its order
        refine Lends.unreserve_eq ?_
        rw [List.map_cons]
        exact (hfirst.trans hsecond).perm List.perm_append_comm
      · cases hreserve

end PageAllocator

end Enclaves

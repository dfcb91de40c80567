import Enclaves.Proofs.PageArithmetic

/-!
# First fit

What the allocator promises to whoever draws on it. A `Ledger` is an allocator together with the
runs that it handed out and did not get back. Pages are taken and runs given back by place, the way
the program does it, so that a step out of range has no outcome at all; what may be given back is
what is out.

A page is idle if it lies in the range and in none of the runs that are out: nothing is said here of
a free list. That the free list has the maximal runs of idle pages in order of address, that pages
are taken from the lowest run of idle pages that is long enough, and that giving them back undoes
this, holds at every moment (`ledger_first_fit`), since a canonical list covers exactly the idle
addresses, and pages in a row that it covers lie in one run of it (`Canonical.exists_of_within`).
-/

namespace Enclaves

namespace Extent

variable {e f g : Extent} {free rest : List Extent} {pages base : Nat} {p : Nat → Prop}

/-- All pages of a run are such. -/
def Within (e : Extent) (p : Nat → Prop) : Prop := ∀ i < e.pages, p (e.base + i * pageSize)

/-- A run of such pages that can be made longer on neither side. -/
structure Maximal (e : Extent) (p : Nat → Prop) : Prop where
  pos : 0 < e.pages
  within : e.Within p
  before : pageSize ≤ e.base → ¬ p (e.base - pageSize)
  behind : ¬ p e.stop

/-- A run that starts on a page boundary ends on one. -/
theorem stop_aligned (h : e.base % pageSize = 0) : e.stop % pageSize = 0 := by
  rw [stop, Nat.add_mul_mod_self_right]
  exact h

/-- Between two page boundaries there is a page. -/
theorem page_le_of_lt {x y : Nat} (hx : x % pageSize = 0) (hy : y % pageSize = 0) (h : x < y) :
    x + pageSize ≤ y := by
  rw [pageSize] at *
  omega

/-- Every page of a run lies in it. -/
theorem contains_page {i : Nat} (h : i < e.pages) : e.contains (e.base + i * pageSize) := by
  rw [contains_iff, stop, pageSize]
  omega

/-! ## Pages in a row -/

namespace Canonical

/-- Two runs of a list are one, or there is a gap between them. -/
theorem eq_or_gap (h : Canonical free) (he : e ∈ free) (hf : f ∈ free) :
    e = f ∨ e.stop < f.base ∨ f.stop < e.base := by
  induction free with
  | nil => cases he
  | cons first rest ih =>
    obtain ⟨⟨-, -, hgap⟩, hrest⟩ := cons_iff.mp h
    rcases List.mem_cons.mp he with hfirst | he
    · rcases List.mem_cons.mp hf with hfirst' | hf
      · exact .inl (hfirst.trans hfirst'.symm)
      · exact .inr (.inl (hfirst ▸ hgap f hf))
    · rcases List.mem_cons.mp hf with hfirst | hf
      · exact .inr (.inr (hfirst ▸ hgap e he))
      · exact ih hrest he hf

/-- Behind a free run the next page is not free, or the two would be one run. -/
theorem not_covered_stop (h : Canonical free) (he : e ∈ free) : ¬ 0 < coverage free e.stop := by
  rw [coverage_pos_iff]
  rintro ⟨f, hf, hin⟩
  rw [contains_iff] at hin
  have hpos := contains_iff.mp (contains_base (h.pages_pos e he))
  rcases h.eq_or_gap he hf with rfl | hgap | hgap <;> omega

/-- Nor is the page in front of it. -/
theorem not_covered_before (h : Canonical free) (he : e ∈ free) (hpage : pageSize ≤ e.base) :
    ¬ 0 < coverage free (e.base - pageSize) := by
  rw [coverage_pos_iff]
  rintro ⟨f, hf, hin⟩
  rw [contains_iff] at hin
  have hpos := contains_iff.mp (contains_base (h.pages_pos e he))
  have hbase := h.aligned e he
  have hstop := stop_aligned (h.aligned f hf)
  rw [pageSize] at hpage hin hbase hstop
  rcases h.eq_or_gap he hf with rfl | hgap | hgap <;> omega

/-- Pages in a row, all of them covered, lie in one run. -/
theorem exists_of_within (h : Canonical free) (hpos : 0 < e.pages)
    (haligned : e.base % pageSize = 0) (hin : e.Within fun x => 0 < coverage free x) :
    ∃ f ∈ free, f.base ≤ e.base ∧ e.stop ≤ f.stop := by
  obtain ⟨f, hf, hfirst⟩ := coverage_pos_iff.mp (hin 0 hpos)
  have hstop := stop_aligned (h.aligned f hf)
  have hall : ∀ i < e.pages, f.contains (e.base + i * pageSize) := by
    intro i
    induction i with
    | zero => exact fun _ => hfirst
    | succ i ih =>
      -- a page behind the run would be the one right behind it, and that is not covered
      intro hi
      have hprevious := contains_iff.mp (ih (by omega))
      have hpage : (e.base + i * pageSize) % pageSize = 0 := by
        rw [Nat.add_mul_mod_self_right]
        exact haligned
      have hle := page_le_of_lt hpage hstop hprevious.2
      have hne : e.base + (i + 1) * pageSize ≠ f.stop := by
        intro heq
        exact h.not_covered_stop hf (heq ▸ hin (i + 1) hi)
      rw [contains_iff]
      rw [Nat.succ_mul] at hne ⊢
      omega
  have hfirst' := contains_iff.mp (hall 0 hpos)
  have hlast := contains_iff.mp (hall (e.pages - 1) (by omega))
  refine ⟨f, hf, by omega, ?_⟩
  rw [pageSize] at hlast hstop haligned
  rw [stop, pageSize]
  omega

/-- So every free run is maximal among the free pages. -/
theorem maximal_of_mem (h : Canonical free)
    (hp : ∀ x, p x ↔ x % pageSize = 0 ∧ 0 < coverage free x) (he : e ∈ free) : e.Maximal p where
  pos := h.pages_pos e he
  within i hi := by
    refine (hp _).mpr ⟨?_, coverage_pos_iff.mpr ⟨e, he, contains_page hi⟩⟩
    rw [Nat.add_mul_mod_self_right]
    exact h.aligned e he
  before hpage hbefore := h.not_covered_before he hpage ((hp _).mp hbefore).2
  behind hbehind := h.not_covered_stop he ((hp _).mp hbehind).2

/-- Every maximal run of free pages is on the list. -/
theorem mem_of_maximal (h : Canonical free)
    (hp : ∀ x, p x ↔ x % pageSize = 0 ∧ 0 < coverage free x) (he : e.Maximal p) : e ∈ free := by
  have haligned : e.base % pageSize = 0 := by
    have hfirst := ((hp _).mp (he.within 0 he.pos)).1
    rwa [Nat.zero_mul, Nat.add_zero] at hfirst
  obtain ⟨f, hf, hbase, hstop⟩ :=
    h.exists_of_within he.pos haligned fun i hi => ((hp _).mp (he.within i hi)).2
  have hcovered : ∀ x, x % pageSize = 0 → f.base ≤ x → x < f.stop → p x := by
    intro x hx hle hlt
    exact (hp x).mpr ⟨hx, coverage_pos_iff.mpr ⟨f, hf, contains_iff.mpr ⟨hle, hlt⟩⟩⟩
  have hfaligned := h.aligned f hf
  have hepos := contains_iff.mp (contains_base he.pos)
  -- a longer run of the list would have a page more on one side
  have hbase' : f.base = e.base := by
    by_contra hne
    have hbefore := he.before
    rw [pageSize] at hbefore haligned hfaligned
    exact hbefore (by omega) (hcovered _ (by rw [pageSize]; omega) (by omega) (by omega))
  have hstop' : f.stop = e.stop := by
    by_contra hne
    exact he.behind (hcovered _ (stop_aligned haligned) (by omega) (by omega))
  have hpages : f.pages = e.pages := by
    rw [stop, stop, pageSize] at hstop'
    omega
  obtain rfl : f = e := by
    cases f
    cases e
    simp_all
  exact hf

/-- The runs of a canonical list are the maximal runs of the pages that it covers. -/
theorem mem_iff_maximal (h : Canonical free)
    (hp : ∀ x, p x ↔ x % pageSize = 0 ∧ 0 < coverage free x) : e ∈ free ↔ e.Maximal p :=
  ⟨h.maximal_of_mem hp, h.mem_of_maximal hp⟩

end Canonical

/-! ## Which run is cut -/

/-- Nothing is cut only if every run is too short. -/
theorem lt_of_cutFirst_eq_none (h : cutFirst pages free = none) : ∀ f ∈ free, f.pages < pages := by
  induction free with
  | nil => simp
  | cons first rest ih =>
    rw [cutFirst] at h
    split at h
    · split at h <;> cases h
    · rename_i hshort
      split at h
      · rename_i hrest
        exact List.forall_mem_cons.mpr ⟨Nat.not_le.mp hshort, ih hrest⟩
      · cases h

/-- A run that is long enough is cut only if none lies before it. -/
theorem Canonical.base_le_of_cutFirst (hfree : Canonical free)
    (h : Extent.cutFirst pages free = some (base, rest)) (hf : f ∈ free)
    (hpages : pages ≤ f.pages) : base ≤ f.base := by
  induction free generalizing rest with
  | nil => cases hf
  | cons first tail ih =>
    obtain ⟨⟨hpos, -, hgap⟩, htail⟩ := cons_iff.mp hfree
    have hfirst := contains_iff.mp (contains_base hpos)
    rw [Extent.cutFirst] at h
    split at h
    · have hbase : first.base = base := by
        split at h <;> cases h <;> rfl
      rcases List.mem_cons.mp hf with rfl | hf
      · exact Nat.le_of_eq hbase.symm
      · have hlt := hgap f hf
        omega
    · rename_i hshort
      split at h
      · cases h
      · rename_i hcut
        cases h
        rcases List.mem_cons.mp hf with rfl | hf
        · exact absurd hpages hshort
        · exact ih htail hcut hf

end Extent

/-! ## The ledger -/

/-- An allocator, and the runs that it handed out and did not get back. -/
structure Ledger where
  allocator : PageAllocator
  out : List Extent
  deriving DecidableEq, Repr

inductive Ledger.Request where
  | take (pages : Nat)
  | give (run : Extent)

namespace Ledger

open Extent (Canonical coverage pageCount)
open PageAllocator (ofRange)

variable {range e : Extent} {l l' : Ledger} {pages page base : Nat} {answer : Option Nat}

/-- Only a run that is out can be given back. -/
def Request.Fair (l : Ledger) : Request → Prop
  | take _ => True
  | give run => run ∈ l.out

/-- A request served by place, with the address of the pages taken; `none` is a step out of
range. -/
def serve (l : Ledger) : Request → Option (Option Nat × Ledger)
  | .take pages => do
    match ← l.allocator.takeAt pages with
    | none => return (none, l)
    | some (base, allocator) => return (some base, ⟨allocator, ⟨base, pages⟩ :: l.out⟩)
  | .give run => do
    let allocator ← l.allocator.giveAt run.base run.pages
    return (none, ⟨allocator, l.out.erase run⟩)

/-- The ledgers that fair requests lead to, one after the other, from a range with all pages
free. -/
inductive Reachable (range : Extent) : Ledger → Prop
  | start : Reachable range ⟨.ofRange range.base range.pages, []⟩
  | serve {l l' : Ledger} (request : Request) {answer : Option Nat} : Reachable range l →
    request.Fair l → l.serve request = some (answer, l') → Reachable range l'

/-- A page of the range that is in none of the runs that are out. -/
structure Idle (range : Extent) (l : Ledger) (page : Nat) : Prop where
  aligned : page % pageSize = 0
  inside : range.contains page
  unlent : ∀ e ∈ l.out, ¬ e.contains page

/-- Pages were taken from the lowest idle pages in a row; no other page is gone, and giving them
back undoes it. -/
structure TakesLowest (range : Extent) (l : Ledger) (pages base : Nat) (l' : Ledger) : Prop where
  idle : Extent.Within ⟨base, pages⟩ (l.Idle range)
  lowest : ∀ start, Extent.Within ⟨start, pages⟩ (l.Idle range) → base ≤ start
  out_eq : l'.out = ⟨base, pages⟩ :: l.out
  removes : ∀ x, (∃ f ∈ l'.allocator.free, f.contains x) ↔
    (∃ f ∈ l.allocator.free, f.contains x) ∧ ¬ Extent.contains ⟨base, pages⟩ x
  undone : l'.serve (.give ⟨base, pages⟩) = some (none, l)

/-- What first fit over one range comes to. -/
structure FirstFit (range : Extent) (l : Ledger) : Prop where
  /-- The free list has the maximal runs of idle pages, -/
  runs : ∀ e, e ∈ l.allocator.free ↔ e.Maximal (l.Idle range)
  /-- in order of address, no two of them adjacent. -/
  order : l.allocator.free.Pairwise fun e f => e.stop < f.base
  takes : ∀ pages start, 0 < pages → Extent.Within ⟨start, pages⟩ (l.Idle range) →
    ∃ base l', l.serve (.take pages) = some (some base, l') ∧ l.TakesLowest range pages base l'
  refuses : ∀ pages, 0 < pages → (l.serve (.take pages) = some (none, l) ↔
    ∀ start, ¬ Extent.Within ⟨start, pages⟩ (l.Idle range))
  empty : l.serve (.take 0) = some (none, l)
  gives : ∀ e ∈ l.out, ∃ l', l.serve (.give e) = some (none, l') ∧ l'.out = l.out.erase e
  /-- Pages are in use if they are out. -/
  used : l.allocator.usedPages? = some (pageCount l.out)
  whole : l.out = [] → l.allocator.free = [range]

/-- The allocator of a ledger lent what is out of a range that can be addressed. -/
structure Sound (range : Extent) (l : Ledger) : Prop where
  fits : (ofRange range.base range.pages).Fits
  lends : (ofRange range.base range.pages).Lends l.out l.allocator

namespace Sound

/-- What is free lies in the range. -/
theorem fits_left (h : l.Sound range) : l.allocator.Fits := h.lends.fits h.fits

/-- The free list covers exactly the pages that are idle. -/
theorem idle_iff (h : l.Sound range) :
    l.Idle range page ↔ page % pageSize = 0 ∧ 0 < coverage l.allocator.free page := by
  have hcovers : coverage [range] page = _ := h.lends.covers page
  rw [Extent.coverage_singleton] at hcovers
  have hout : coverage l.out page = 0 ↔ ∀ e ∈ l.out, ¬ e.contains page := by
    simp only [Extent.coverage_eq_zero_iff, Bool.not_eq_true]
  constructor
  · rintro ⟨haligned, hinside, hunlent⟩
    rw [if_pos hinside, hout.mpr hunlent] at hcovers
    exact ⟨haligned, by omega⟩
  · rintro ⟨haligned, hcovered⟩
    split at hcovers
    · rename_i hinside
      exact ⟨haligned, hinside, hout.mp (by omega)⟩
    · omega

/-! ### What a request does -/

/-- What a request for pages answers. -/
theorem serve_take (h : l.Sound range) :
    l.serve (.take pages) = some (match l.allocator.take? pages with
      | none => (none, l)
      | some (base, allocator) => (some base, ⟨allocator, ⟨base, pages⟩ :: l.out⟩)) := by
  rw [serve, h.fits_left.takeAt_eq, Option.bind_eq_bind, Option.bind_some]
  cases l.allocator.take? pages with
  | none => rfl
  | some taken => rfl

/-- What a run that is given back leaves. -/
theorem serve_give (h : l.Sound range) (he : e ∈ l.out) :
    l.serve (.give e) = some (none, ⟨l.allocator.give e.base e.pages, l.out.erase e⟩) := by
  have hlends := h.lends.perm (List.perm_cons_erase he)
  rw [serve, hlends.giveAt_eq h.fits]
  rfl

/-- A run that is taken is out, and lies among what was idle. -/
theorem take (h : l.Sound range) {allocator : PageAllocator}
    (htake : l.allocator.take? pages = some (base, allocator)) :
    Sound range ⟨allocator, ⟨base, pages⟩ :: l.out⟩ where
  fits := h.fits
  lends := h.lends.trans (PageAllocator.lends_of_take? h.lends.after htake)

/-- A run that is given back is idle again. -/
theorem give (h : l.Sound range) (he : e ∈ l.out) :
    Sound range ⟨l.allocator.give e.base e.pages, l.out.erase e⟩ where
  fits := h.fits
  lends := (h.lends.perm (List.perm_cons_erase he)).give

/-- No fair request unsettles the ledger. -/
theorem step {request : Request} (h : l.Sound range) (hfair : request.Fair l)
    (hserve : l.serve request = some (answer, l')) : l'.Sound range := by
  cases request with
  | take pages =>
    rw [h.serve_take] at hserve
    split at hserve
    · cases hserve
      exact h
    · rename_i htake
      cases hserve
      exact h.take htake
  | give e =>
    rw [h.serve_give hfair] at hserve
    cases hserve
    exact h.give hfair

/-! ### First fit -/

/-- Idle pages in a row lie in one free run. -/
theorem exists_run_of_within (h : l.Sound range) (hpos : 0 < pages) {start : Nat}
    (hidle : Extent.Within ⟨start, pages⟩ (l.Idle range)) :
    ∃ f ∈ l.allocator.free, f.base ≤ start ∧ pages ≤ f.pages := by
  have haligned : start % pageSize = 0 := by
    have hfirst := (hidle 0 hpos).aligned
    rwa [Nat.zero_mul, Nat.add_zero] at hfirst
  obtain ⟨f, hf, hbase, hstop⟩ := h.lends.after.exists_of_within hpos haligned
    fun i hi => (h.idle_iff.mp (hidle i hi)).2
  refine ⟨f, hf, hbase, ?_⟩
  simp only [Extent.stop, pageSize] at hbase hstop
  omega

/-- What is taken is the lowest place where the pages fit. -/
theorem takesLowest (h : l.Sound range) {allocator : PageAllocator}
    (htake : l.allocator.take? pages = some (base, allocator)) :
    l.TakesLowest range pages base ⟨allocator, ⟨base, pages⟩ :: l.out⟩ := by
  have hlends := PageAllocator.lends_of_take? h.lends.after htake
  have hpos : 0 < pages := hlends.lent_pos _ List.mem_cons_self
  have haligned : base % pageSize = 0 := hlends.lent_aligned _ List.mem_cons_self
  have hcovers := hlends.covers
  simp only [Extent.coverage_singleton] at hcovers
  have htaken := h.take htake
  refine ⟨fun i hi => h.idle_iff.mpr ⟨?_, ?_⟩, fun start hstart => ?_, rfl, fun x => ?_, ?_⟩
  · rw [Nat.add_mul_mod_self_right]
    exact haligned
  · rw [hcovers, if_pos (Extent.contains_page hi)]
    exact Nat.succ_pos _
  · obtain ⟨f, hf, hbase, hpages⟩ := h.exists_run_of_within hpos hstart
    obtain ⟨rest, hcut⟩ : ∃ rest, Extent.cutFirst pages l.allocator.free = some (base, rest) := by
      rw [PageAllocator.take?, if_neg (Nat.ne_of_gt hpos)] at htake
      split at htake
      · cases htake
      · rename_i hcut
        cases htake
        exact ⟨_, hcut⟩
    exact Nat.le_trans (h.lends.after.base_le_of_cutFirst hcut hf hpages) hbase
  · have honce := h.lends.after.coverage_le_one x
    have hx := hcovers x
    rw [← Extent.coverage_pos_iff, ← Extent.coverage_pos_iff]
    split at hx
    · rename_i hin
      simp only [hin, not_true_eq_false, and_false, iff_false]
      omega
    · rename_i hout
      rw [hx, Nat.add_zero]
      exact (and_iff_left hout).symm
  · rw [htaken.serve_give List.mem_cons_self, List.erase_cons_head]
    rw [hlends.give.eq_of_nil]

/-- Where nothing fits, nothing is taken. -/
theorem take?_eq_none (h : l.Sound range)
    (hnone : ∀ start, ¬ Extent.Within ⟨start, pages⟩ (l.Idle range)) :
    l.allocator.take? pages = none := by
  cases htake : l.allocator.take? pages with
  | none => rfl
  | some taken => exact absurd (h.takesLowest htake).idle (hnone taken.1)

/-- Where something fits, something is taken. -/
theorem exists_take? (h : l.Sound range) (hpos : 0 < pages) {start : Nat}
    (hidle : Extent.Within ⟨start, pages⟩ (l.Idle range)) :
    ∃ base allocator, l.allocator.take? pages = some (base, allocator) := by
  obtain ⟨f, hf, -, hpages⟩ := h.exists_run_of_within hpos hidle
  rw [PageAllocator.take?, if_neg (Nat.ne_of_gt hpos)]
  split
  · rename_i hcut
    exact absurd hpages (Nat.not_le.mpr (Extent.lt_of_cutFirst_eq_none hcut f hf))
  · exact ⟨_, _, rfl⟩

/-- The pages in use are those that are out. -/
theorem used (h : l.Sound range) : l.allocator.usedPages? = some (pageCount l.out) := by
  have hcounts := h.lends.counts
  have htotal := h.lends.total
  simp only [ofRange, Extent.pageCount_cons, Extent.pageCount_nil] at hcounts htotal
  rw [h.fits_left.usedPages?_eq, PageAllocator.usedPages, PageAllocator.freePages, htotal]
  congr 1
  omega

/-- All of this holds of any sound ledger. -/
theorem firstFit (h : l.Sound range) : l.FirstFit range where
  runs _ := h.lends.after.mem_iff_maximal fun _ => h.idle_iff
  order := h.lends.after.apart
  takes pages start hpos hidle := by
    obtain ⟨base, allocator, htake⟩ := h.exists_take? hpos hidle
    exact ⟨base, _, by rw [h.serve_take, htake], h.takesLowest htake⟩
  refuses pages hpos := by
    constructor
    · intro hserve start hidle
      obtain ⟨base, allocator, htake⟩ := h.exists_take? hpos hidle
      rw [h.serve_take, htake] at hserve
      cases hserve
    · intro hnone
      rw [h.serve_take, h.take?_eq_none hnone]
  empty := h.serve_take
  gives e he := ⟨_, h.serve_give he, rfl⟩
  used := h.used
  whole hnil := by
    have hlends := h.lends
    rw [hnil] at hlends
    rw [hlends.eq_of_nil]
    rfl

end Sound

/-- Every ledger that fair requests lead to is sound. -/
theorem Reachable.sound (hpos : 0 < range.pages) (haligned : range.base % pageSize = 0)
    (hstop : range.stop < addressLimit) (h : l.Reachable range) : l.Sound range := by
  have hfits := PageAllocator.Fits.of_range hpos haligned hstop
  induction h with
  | start => exact ⟨hfits, .refl hfits.canonical⟩
  | serve _ _ hfair hserve ih => exact ih.step hfair hserve

/-- Whatever is taken from a range and given back, in whichever order, the pages are handed out by
first fit. -/
theorem ledger_first_fit (hpos : 0 < range.pages) (haligned : range.base % pageSize = 0)
    (hstop : range.stop < addressLimit) (h : l.Reachable range) : l.FirstFit range :=
  (h.sound hpos haligned hstop).firstFit

/-- The outer two of three runs are given back, and the one between them stays out. -/
theorem ledger_first_fit_between :
    0 < (⟨0x80000000, 8⟩ : Extent).pages ∧ (⟨0x80000000, 8⟩ : Extent).base % pageSize = 0 ∧
      (⟨0x80000000, 8⟩ : Extent).stop < addressLimit ∧
      Reachable ⟨0x80000000, 8⟩
        ⟨⟨[⟨0x80000000, 2⟩, ⟨0x80004000, 4⟩], 8⟩, [⟨0x80002000, 2⟩]⟩ ∧
      FirstFit ⟨0x80000000, 8⟩
        ⟨⟨[⟨0x80000000, 2⟩, ⟨0x80004000, 4⟩], 8⟩, [⟨0x80002000, 2⟩]⟩ := by
  have hfirst : Reachable ⟨0x80000000, 8⟩
      ⟨⟨[⟨0x80002000, 6⟩], 8⟩, [⟨0x80000000, 2⟩]⟩ := .serve (.take 2) .start trivial rfl
  have hsecond : Reachable ⟨0x80000000, 8⟩
      ⟨⟨[⟨0x80004000, 4⟩], 8⟩, [⟨0x80002000, 2⟩, ⟨0x80000000, 2⟩]⟩ :=
    .serve (.take 2) hfirst trivial rfl
  have hthird : Reachable ⟨0x80000000, 8⟩
      ⟨⟨[], 8⟩, [⟨0x80004000, 4⟩, ⟨0x80002000, 2⟩, ⟨0x80000000, 2⟩]⟩ :=
    .serve (.take 4) hsecond trivial rfl
  have hback : Reachable ⟨0x80000000, 8⟩
      ⟨⟨[⟨0x80000000, 2⟩], 8⟩, [⟨0x80004000, 4⟩, ⟨0x80002000, 2⟩]⟩ :=
    .serve (.give ⟨0x80000000, 2⟩) hthird (by decide : _ ∈ _) rfl
  have hreachable : Reachable ⟨0x80000000, 8⟩
      ⟨⟨[⟨0x80000000, 2⟩, ⟨0x80004000, 4⟩], 8⟩, [⟨0x80002000, 2⟩]⟩ :=
    .serve (.give ⟨0x80004000, 4⟩) hback (by decide : _ ∈ _) rfl
  exact ⟨by decide, rfl, by decide, hreachable,
    ledger_first_fit (by decide) rfl (by decide) hreachable⟩

end Ledger

end Enclaves

import Enclaves.PageAllocator
import Mathlib.Data.List.Basic

/-!
# Canonical free lists

A free list stands for a set of addresses. `Extent.coverage` counts, for one address, the runs of a
list that it lies in: a count adds up over lists where a set would need disjointness at every step.

A list is `Extent.Canonical` if its runs are not empty, start at a page, and lie in order of address
with a gap between any two. Cutting a run out of a canonical list leaves a canonical list
(`Canonical.cutFirst`), and so does putting in a run that meets none of the others
(`Canonical.insert`). Both change the coverage by exactly the run in question.

The law that the rest leans on is `Canonical.ext`: a canonical list is determined by its coverage.
Runs that were cut out can therefore be put back in any order, and the list is again what it was,
entry by entry.
-/

namespace Enclaves

namespace Extent

/-- Whether an address lies in a run. -/
def contains (e : Extent) (address : Nat) : Bool := e.base ≤ address && address < e.stop

/-- A run has the addresses from its base up to its end. -/
theorem contains_iff {e : Extent} {x : Nat} : e.contains x ↔ e.base ≤ x ∧ x < e.stop := by
  simp [contains]

/-- The first address of a run is in it, unless it is empty. -/
theorem contains_base {e : Extent} (h : 0 < e.pages) : e.contains e.base := by
  rw [contains_iff, stop, pageSize]
  omega

/-- How many runs of a list an address lies in. -/
def coverage (free : List Extent) (address : Nat) : Nat := free.countP (·.contains address)

@[simp] theorem coverage_nil (x : Nat) : coverage [] x = 0 := rfl

/-- One more run covers its addresses once more. -/
theorem coverage_cons (e : Extent) (free : List Extent) (x : Nat) :
    coverage (e :: free) x = coverage free x + if e.contains x then 1 else 0 :=
  List.countP_cons

theorem coverage_singleton (e : Extent) (x : Nat) :
    coverage [e] x = if e.contains x then 1 else 0 := by
  simp [coverage_cons]

/-- Coverage adds up over two lists. -/
@[simp] theorem coverage_append (first rest : List Extent) (x : Nat) :
    coverage (first ++ rest) x = coverage first x + coverage rest x :=
  List.countP_append

/-- Coverage does not depend on the order. -/
theorem coverage_perm {free free' : List Extent} (h : free.Perm free') (x : Nat) :
    coverage free x = coverage free' x :=
  h.countP_eq _

/-- Covered is what lies in some run. -/
theorem coverage_pos_iff {free : List Extent} {x : Nat} :
    0 < coverage free x ↔ ∃ e ∈ free, e.contains x :=
  List.countP_pos_iff

/-- Uncovered is what lies in none. -/
theorem coverage_eq_zero_iff {free : List Extent} {x : Nat} :
    coverage free x = 0 ↔ ∀ e ∈ free, e.contains x = false := by
  simp [coverage, List.countP_eq_zero]

/-- Two runs with no address in common. -/
def Apart (e f : Extent) : Prop := e.stop ≤ f.base ∨ f.stop ≤ e.base

/-- Runs that are not empty and cover no address twice are apart. -/
theorem pairwise_apart_of_coverage {runs : List Extent} (hpos : ∀ e ∈ runs, 0 < e.pages)
    (hcov : ∀ x, coverage runs x ≤ 1) : runs.Pairwise Apart := by
  induction runs with
  | nil => exact .nil
  | cons e rest ih =>
    have hrest : ∀ x, coverage rest x ≤ 1 := fun x => by
      have := hcov x
      rw [coverage_cons] at this
      omega
    refine List.pairwise_cons.mpr
      ⟨fun f hf => ?_, ih (fun g hg => hpos g (List.mem_cons_of_mem _ hg)) hrest⟩
    -- the later of the two bases would lie in both
    by_contra hmeet
    simp only [Apart, not_or, Nat.not_le] at hmeet
    have hebase := contains_base (hpos e List.mem_cons_self)
    have hfbase := contains_base (hpos f (List.mem_cons_of_mem _ hf))
    rw [contains_iff] at hebase hfbase
    have he : e.contains (max e.base f.base) := by rw [contains_iff]; omega
    have hf' : f.contains (max e.base f.base) := by rw [contains_iff]; omega
    have htwice := hcov (max e.base f.base)
    have honce := coverage_pos_iff.mpr ⟨f, hf, hf'⟩
    rw [coverage_cons, if_pos he] at htwice
    omega

/-- Runs of whole pages in order of address, none empty, a gap between any two. -/
structure Canonical (free : List Extent) : Prop where
  pages_pos : ∀ e ∈ free, 0 < e.pages
  aligned : ∀ e ∈ free, e.base % pageSize = 0
  apart : free.Pairwise fun e f => e.stop < f.base

namespace Canonical

theorem nil : Canonical [] := ⟨by simp, by simp, .nil⟩

/-- A canonical list is a run of whole pages in front of a canonical list that starts behind a
gap. -/
theorem cons_iff {e : Extent} {free : List Extent} :
    Canonical (e :: free) ↔
      (0 < e.pages ∧ e.base % pageSize = 0 ∧ ∀ f ∈ free, e.stop < f.base) ∧ Canonical free := by
  constructor
  · rintro ⟨hpos, halign, hapart⟩
    rw [List.pairwise_cons] at hapart
    exact ⟨⟨hpos e List.mem_cons_self, halign e List.mem_cons_self, hapart.1⟩,
      fun f hf => hpos f (List.mem_cons_of_mem _ hf),
      fun f hf => halign f (List.mem_cons_of_mem _ hf), hapart.2⟩
  · rintro ⟨⟨hpos, halign, hgap⟩, hfree⟩
    refine ⟨?_, ?_, List.pairwise_cons.mpr ⟨hgap, hfree.apart⟩⟩
    · rintro f (_ | ⟨_, hf⟩)
      exacts [hpos, hfree.pages_pos f hf]
    · rintro f (_ | ⟨_, hf⟩)
      exacts [halign, hfree.aligned f hf]

/-- What follows the first run is canonical as well. -/
theorem tail {e : Extent} {free : List Extent} (h : Canonical (e :: free)) : Canonical free :=
  (cons_iff.mp h).2

/-- Nothing is free below the first run. -/
theorem coverage_eq_zero_of_lt {e : Extent} {free : List Extent} (h : Canonical (e :: free))
    {x : Nat} (hx : x < e.base) : coverage (e :: free) x = 0 := by
  obtain ⟨⟨hpos, -, hgap⟩, -⟩ := cons_iff.mp h
  have hbase := contains_iff.mp (contains_base hpos)
  refine coverage_eq_zero_iff.mpr fun f hf => ?_
  rw [Bool.eq_false_iff, Ne, contains_iff]
  rcases List.mem_cons.mp hf with rfl | hf
  · omega
  · have := hgap f hf
    omega

/-- Nor is the address right behind it. -/
theorem coverage_stop {e : Extent} {free : List Extent} (h : Canonical (e :: free)) :
    coverage free e.stop = 0 := by
  obtain ⟨⟨-, -, hgap⟩, -⟩ := cons_iff.mp h
  refine coverage_eq_zero_iff.mpr fun f hf => ?_
  have := hgap f hf
  rw [Bool.eq_false_iff, Ne, contains_iff]
  omega

/-- No two runs of a canonical list overlap. -/
theorem coverage_le_one {free : List Extent} (h : Canonical free) (x : Nat) :
    coverage free x ≤ 1 := by
  induction free with
  | nil => simp
  | cons e rest ih =>
    rw [coverage_cons]
    split
    · -- an address of the first run lies in no later one
      rename_i hx
      obtain ⟨⟨-, -, hgap⟩, -⟩ := cons_iff.mp h
      have hzero : coverage rest x = 0 := coverage_eq_zero_iff.mpr fun f hf => by
        have := hgap f hf
        rw [contains_iff] at hx
        rw [Bool.eq_false_iff, Ne, contains_iff]
        omega
      omega
    · exact ih h.tail

/-- The first run starts at the lowest address that is covered. -/
theorem base_le_of_coverage {e f : Extent} {free free' : List Extent} (h : Canonical (e :: free))
    (h' : Canonical (f :: free')) (hcov : ∀ x, coverage (e :: free) x = coverage (f :: free') x) :
    e.base ≤ f.base := by
  by_contra hlt
  have hzero := h.coverage_eq_zero_of_lt (Nat.lt_of_not_le hlt)
  have hfbase := contains_base (cons_iff.mp h').1.1
  rw [hcov, coverage_cons, if_pos hfbase] at hzero
  omega

/-- And it ends at the first address behind that is not. -/
theorem stop_le_of_coverage {e f : Extent} {free free' : List Extent}
    (h' : Canonical (f :: free')) (hbase : e.base = f.base) (hpos : 0 < f.pages)
    (hcov : ∀ x, coverage (e :: free) x = coverage (f :: free') x) : e.stop ≤ f.stop := by
  by_contra hlt
  have hfbase := contains_iff.mp (contains_base hpos)
  have hzero := h'.coverage_stop
  have hin : e.contains f.stop := by rw [contains_iff]; omega
  have hout : ¬ f.contains f.stop := by rw [contains_iff]; omega
  have := hcov f.stop
  rw [coverage_cons, coverage_cons, if_pos hin, if_neg hout] at this
  omega

/-- A canonical list is determined by the addresses it covers. -/
theorem ext {free free' : List Extent} (h : Canonical free) (h' : Canonical free')
    (hcov : ∀ x, coverage free x = coverage free' x) : free = free' := by
  induction free generalizing free' with
  | nil =>
    cases free' with
    | nil => rfl
    | cons f rest =>
      have := hcov f.base
      rw [coverage_cons, if_pos (contains_base (cons_iff.mp h').1.1), coverage_nil] at this
      omega
  | cons e rest ih =>
    have hepos := (cons_iff.mp h).1.1
    cases free' with
    | nil =>
      have := hcov e.base
      rw [coverage_cons, if_pos (contains_base hepos), coverage_nil] at this
      omega
    | cons f rest' =>
      have hfpos := (cons_iff.mp h').1.1
      have hbase : e.base = f.base :=
        Nat.le_antisymm (h.base_le_of_coverage h' hcov)
          (h'.base_le_of_coverage h fun x => (hcov x).symm)
      have hstop : e.stop = f.stop :=
        Nat.le_antisymm (h'.stop_le_of_coverage hbase hfpos hcov)
          (h.stop_le_of_coverage hbase.symm hepos fun x => (hcov x).symm)
      have hpages : e.pages = f.pages := by
        simp only [stop, pageSize] at hstop
        omega
      obtain rfl : e = f := by
        cases e; cases f; simp_all
      have hrest : ∀ x, coverage rest x = coverage rest' x := fun x => by
        have := hcov x
        rw [coverage_cons, coverage_cons] at this
        omega
      rw [ih h.tail h'.tail hrest]

end Canonical

/-! ## Counting pages -/

@[simp] theorem pageCount_nil : pageCount [] = 0 := rfl

@[simp] theorem pageCount_cons (e : Extent) (runs : List Extent) :
    pageCount (e :: runs) = e.pages + pageCount runs := rfl

/-- Pages add up over two lists. -/
@[simp] theorem pageCount_append (first rest : List Extent) :
    pageCount (first ++ rest) = pageCount first + pageCount rest := by
  induction first with
  | nil => simp
  | cons e first ih => simp [ih, Nat.add_assoc]

/-- The number of pages does not depend on the order. -/
theorem pageCount_perm {runs runs' : List Extent} (h : runs.Perm runs') :
    pageCount runs = pageCount runs' := by
  induction h with
  | nil => rfl
  | cons e _ ih => simp [ih]
  | swap e f rest => simp [Nat.add_left_comm]
  | trans _ _ ih ih' => exact ih.trans ih'

/-! ## Cutting a run out -/

/-- What was cut out starts where some run starts that is long enough. -/
theorem exists_of_cutFirst {pages base : Nat} {free rest : List Extent}
    (h : cutFirst pages free = some (base, rest)) :
    ∃ e ∈ free, base = e.base ∧ pages ≤ e.pages := by
  induction free generalizing rest with
  | nil => simp [cutFirst] at h
  | cons e tail ih =>
    simp only [cutFirst] at h
    split at h
    · rename_i hle
      refine ⟨e, List.mem_cons_self, ?_, hle⟩
      split at h <;> simp only [Option.some.injEq, Prod.mk.injEq] at h <;> exact h.1.symm
    · split at h
      · cases h
      · rename_i hcut
        cases h
        obtain ⟨f, hf, hbase⟩ := ih hcut
        exact ⟨f, List.mem_cons_of_mem _ hf, hbase⟩

/-- What is left after a cut lies at or behind where a run of the list starts. -/
theorem base_le_of_mem_cutFirst {pages base : Nat} {free rest : List Extent}
    (h : cutFirst pages free = some (base, rest)) {f : Extent} (hf : f ∈ rest) :
    ∃ e ∈ free, e.base ≤ f.base := by
  induction free generalizing rest with
  | nil => simp [cutFirst] at h
  | cons e tail ih =>
    simp only [cutFirst] at h
    split at h
    · split at h
      · cases h
        exact ⟨f, List.mem_cons_of_mem _ hf, Nat.le_refl _⟩
      · cases h
        rcases List.mem_cons.mp hf with rfl | hf
        · exact ⟨e, List.mem_cons_self, Nat.le_add_right _ _⟩
        · exact ⟨f, List.mem_cons_of_mem _ hf, Nat.le_refl _⟩
    · split at h
      · cases h
      · rename_i hcut
        cases h
        rcases List.mem_cons.mp hf with rfl | hf
        · exact ⟨f, List.mem_cons_self, Nat.le_refl _⟩
        · obtain ⟨g, hg, hle⟩ := ih hcut hf
          exact ⟨g, List.mem_cons_of_mem _ hg, hle⟩

/-- What is cut out is what the list covers less. -/
theorem coverage_cutFirst {pages base : Nat} {free rest : List Extent}
    (h : cutFirst pages free = some (base, rest)) (x : Nat) :
    coverage free x = coverage rest x + coverage [⟨base, pages⟩] x := by
  induction free generalizing rest with
  | nil => simp [cutFirst] at h
  | cons e tail ih =>
    simp only [cutFirst] at h
    split at h
    · split at h
      · rename_i hpages
        cases h
        subst hpages
        rw [coverage_cons, coverage_singleton]
      · -- the run falls into the part that was cut out and the part behind it
        rename_i hle hne
        cases h
        simp only [coverage_cons, coverage_nil, contains_iff, stop, pageSize]
        split <;> split <;> split <;> omega
    · split at h
      · cases h
      · rename_i hcut
        cases h
        rw [coverage_cons, coverage_cons, ih hcut]
        omega

/-- So many pages the list has less. -/
theorem pageCount_cutFirst {pages base : Nat} {free rest : List Extent}
    (h : cutFirst pages free = some (base, rest)) : pageCount free = pageCount rest + pages := by
  induction free generalizing rest with
  | nil => simp [cutFirst] at h
  | cons e tail ih =>
    simp only [cutFirst] at h
    split at h
    · split at h
      · cases h
        simp only [pageCount_cons]
        omega
      · cases h
        simp only [pageCount_cons]
        omega
    · split at h
      · cases h
      · rename_i hcut
        cases h
        simp only [pageCount_cons, ih hcut]
        omega

/-- What a cut leaves of a canonical list is canonical. -/
theorem Canonical.cutFirst {pages base : Nat} {free rest : List Extent} (hfree : Canonical free)
    (h : cutFirst pages free = some (base, rest)) : Canonical rest := by
  induction free generalizing rest with
  | nil => simp [Extent.cutFirst] at h
  | cons e tail ih =>
    obtain ⟨⟨hpos, halign, hgap⟩, htail⟩ := cons_iff.mp hfree
    simp only [Extent.cutFirst] at h
    split at h
    · rename_i hle
      split at h
      · cases h
        exact htail
      · rename_i hne
        cases h
        refine cons_iff.mpr ⟨⟨?_, ?_, fun f hf => ?_⟩, htail⟩
        · show 0 < e.pages - pages
          omega
        · show (e.base + pages * pageSize) % pageSize = 0
          rw [Nat.add_mul_mod_self_right]
          exact halign
        · have := hgap f hf
          simp only [stop, pageSize] at this ⊢
          omega
    · split at h
      · cases h
      · rename_i hcut
        cases h
        refine cons_iff.mpr ⟨⟨hpos, halign, fun f hf => ?_⟩, ih htail hcut⟩
        obtain ⟨g, hg, hle⟩ := base_le_of_mem_cutFirst hcut hf
        exact Nat.lt_of_lt_of_le (hgap g hg) hle

/-! ## Putting a run in -/

/-- Joining two runs that touch covers the same. -/
theorem coverage_join (e : Extent) (free : List Extent) (x : Nat) :
    coverage (e.join free) x = coverage (e :: free) x := by
  cases free with
  | nil => rfl
  | cons next rest =>
    simp only [join]
    split
    · rename_i htouch
      simp only [coverage_cons, contains_iff, stop, pageSize] at htouch ⊢
      split <;> split <;> split <;> omega
    · rfl

/-- Joining adds the pages of the new run. -/
theorem pageCount_join (e : Extent) (free : List Extent) :
    pageCount (e.join free) = e.pages + pageCount free := by
  cases free with
  | nil => rfl
  | cons next rest =>
    simp only [join]
    split
    · simp only [pageCount_cons]
      omega
    · simp only [pageCount_cons]

/-- A run joined to a canonical list that lies behind it. -/
theorem Canonical.join {e : Extent} {free : List Extent} (hfree : Canonical free)
    (hpos : 0 < e.pages) (halign : e.base % pageSize = 0) (hbehind : ∀ f ∈ free, e.stop ≤ f.base) :
    Canonical (e.join free) := by
  cases free with
  | nil => exact cons_iff.mpr ⟨⟨hpos, halign, by simp⟩, .nil⟩
  | cons next rest =>
    obtain ⟨⟨hnext, -, hgap⟩, hrest⟩ := cons_iff.mp hfree
    simp only [Extent.join]
    split
    · rename_i htouch
      refine cons_iff.mpr ⟨⟨Nat.add_pos_left hpos _, halign, fun f hf => ?_⟩, hrest⟩
      have := hgap f hf
      simp only [stop, pageSize] at this htouch ⊢
      omega
    · rename_i htouch
      refine cons_iff.mpr ⟨⟨hpos, halign, fun f hf => ?_⟩, hfree⟩
      have hle := hbehind next List.mem_cons_self
      rcases List.mem_cons.mp hf with rfl | hf
      · omega
      · have := hgap f hf
        have := contains_iff.mp (contains_base hnext)
        omega

/-- What is put in is covered once more. -/
theorem coverage_insert (e : Extent) (free : List Extent) (x : Nat) :
    coverage (e.insert free) x = coverage free x + coverage [e] x := by
  induction free with
  | nil => simp [insert]
  | cons first rest ih =>
    simp only [insert]
    split
    · rw [coverage_join, coverage_cons, ih, coverage_cons first rest]
      omega
    · rw [coverage_join, coverage_cons, coverage_singleton]

/-- So many pages the list has more. -/
theorem pageCount_insert (e : Extent) (free : List Extent) :
    pageCount (e.insert free) = e.pages + pageCount free := by
  induction free with
  | nil => rfl
  | cons first rest ih =>
    simp only [insert]
    split
    · rw [pageCount_join, ih, pageCount_cons]
      omega
    · rw [pageCount_join]

/-- Joining and inserting only make runs that start where one of the given runs does. -/
theorem base_of_mem_join {e f : Extent} {free : List Extent} (h : f ∈ e.join free) :
    f.base = e.base ∨ ∃ g ∈ free, f.base = g.base := by
  cases free with
  | nil => exact .inl (congrArg base (List.mem_singleton.mp h))
  | cons next rest =>
    simp only [join] at h
    split at h
    · rcases List.mem_cons.mp h with rfl | h
      · exact .inl rfl
      · exact .inr ⟨f, List.mem_cons_of_mem _ h, rfl⟩
    · rcases List.mem_cons.mp h with rfl | h
      · exact .inl rfl
      · exact .inr ⟨f, h, rfl⟩

/-- Runs begin where a run began before, or where the new one does. -/
theorem base_of_mem_insert {e f : Extent} {free : List Extent} (h : f ∈ e.insert free) :
    f.base = e.base ∨ ∃ g ∈ free, f.base = g.base := by
  induction free generalizing f with
  | nil => exact .inl (congrArg base (List.mem_singleton.mp h))
  | cons first rest ih =>
    simp only [insert] at h
    split at h
    · rcases base_of_mem_join h with hbase | ⟨g, hg, hbase⟩
      · exact .inr ⟨first, List.mem_cons_self, hbase⟩
      · rcases ih hg with hg | ⟨k, hk, hg⟩
        · exact .inl (hbase.trans hg)
        · exact .inr ⟨k, List.mem_cons_of_mem _ hk, hbase.trans hg⟩
    · exact base_of_mem_join h

/-- A run that meets none of a canonical list, put in its place. -/
theorem Canonical.insert {e : Extent} {free : List Extent} (hfree : Canonical free)
    (hpos : 0 < e.pages) (halign : e.base % pageSize = 0) (hapart : ∀ f ∈ free, e.Apart f) :
    Canonical (e.insert free) := by
  induction free with
  | nil => exact cons_iff.mpr ⟨⟨hpos, halign, by simp⟩, .nil⟩
  | cons first rest ih =>
    obtain ⟨⟨hfirst, hfirstAlign, hgap⟩, hrest⟩ := cons_iff.mp hfree
    have hmeet := hapart first List.mem_cons_self
    have hebase := contains_iff.mp (contains_base hpos)
    have hfbase := contains_iff.mp (contains_base hfirst)
    simp only [Extent.insert]
    split
    · -- everything in the list after the first run, the new run included, lies behind it
      refine (ih hrest fun f hf => hapart f (List.mem_cons_of_mem _ hf)).join hfirst hfirstAlign
        fun f hf => ?_
      rcases base_of_mem_insert hf with hbase | ⟨g, hg, hbase⟩
      · rcases hmeet with hmeet | hmeet <;> omega
      · have := hgap g hg
        omega
    · refine hfree.join hpos halign fun f hf => ?_
      rcases List.mem_cons.mp hf with rfl | hf
      · rcases hmeet with hmeet | hmeet <;> omega
      · have := hgap f hf
        rcases hmeet with hmeet | hmeet <;> omega

end Extent

end Enclaves

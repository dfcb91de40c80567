import Enclaves.Proofs.Lending
import Enclaves.Proofs.Paging

/-!
# The allocator by place

The allocator's own definitions go through the free list run by run. A program finds a place in the
list and works from there: it cuts a run out or puts one in, joins it with the one behind it and
then with the one before it, and adds, multiplies and subtracts as it goes. Here this is written as
steps, each of them partial: a place that the list does not have, a difference below zero and a sum
or a product beyond 64 bits answer `none`.

An allocator that `Fits` has all its runs below 2⁶⁴ and no more pages free than it ever had. Then no
step is out of range, and the two agree (`reserveAllAt_eq`, `usedPages?_eq`); what such an allocator
lends keeps it so (`Lends.fits`), and whatever it lent it can take back (`Lends.unreserveAt_eq`).
-/

namespace Enclaves

namespace Extent

/-- One past the last address, as 64 bits have it. -/
def stop? (e : Extent) : Option Nat := do
  let size ← checkedMul e.pages pageSize
  checkedAdd e.base size

/-- The pages of some runs added up. -/
def pageCount? (runs : List Extent) : Option Nat :=
  runs.foldlM (fun count e => checkedAdd count e.pages) 0

/-- Pages cut out of the run in the first place that has enough of them. -/
def cutAt (pages : Nat) (free : List Extent) : Option (Option (Nat × List Extent)) :=
  match free.findIdx? (pages ≤ ·.pages) with
  | none => some none
  | some place => do
    let run ← free[place]?
    if run.pages = pages then return some (run.base, free.eraseIdx place)
    else
      let size ← checkedMul pages pageSize
      let base ← checkedAdd run.base size
      let left ← checkedSub run.pages pages
      return some (run.base, free.set place ⟨base, left⟩)

/-- The runs in a place and in the one behind it, joined if they touch. -/
def joinAt (place : Nat) (free : List Extent) : Option (List Extent) := do
  let run ← free[place]?
  let next ← free[place + 1]?
  let stop ← run.stop?
  if stop = next.base then
    let pages ← checkedAdd run.pages next.pages
    return (free.set place ⟨run.base, pages⟩).eraseIdx (place + 1)
  else return free

/-- The run in a place joined with the one behind it, if there is one. -/
def joinBehind (place : Nat) (free : List Extent) : Option (List Extent) :=
  if place + 1 < free.length then joinAt place free else some free

/-- The run in a place joined with the one before it, if there is one. -/
def joinBefore (place : Nat) (free : List Extent) : Option (List Extent) :=
  if 0 < place then do
    let before ← checkedSub place 1
    joinAt before free
  else some free

/-- A run put in its place, joined with the one behind it and then with the one before it. -/
def insertAt (e : Extent) (free : List Extent) : Option (List Extent) := do
  let place := free.findIdx (e.base ≤ ·.base)
  let free ← joinBehind place (free.insertIdx place e)
  joinBefore place free

end Extent

namespace PageAllocator

def usedPages? (a : PageAllocator) : Option Nat := do
  let free ← Extent.pageCount? a.free
  checkedSub a.total free

def takeAt (a : PageAllocator) (pages : Nat) : Option (Option (Nat × PageAllocator)) :=
  if pages = 0 then some none
  else do
    let cut ← Extent.cutAt pages a.free
    return cut.map fun (base, free) => (base, { a with free })

def giveAt (a : PageAllocator) (base pages : Nat) : Option PageAllocator := do
  let free ← Extent.insertAt ⟨base, pages⟩ a.free
  return { a with free }

def reserveAt (a : PageAllocator) (pages : Nat) (permission : Permission) (kind : RegionKind) :
    Option (Except Shortage Region × PageAllocator) := do
  match ← a.takeAt pages with
  | none =>
    let used ← a.usedPages?
    return (.error (.pages pages kind used), a)
  | some (base, taken) =>
    let size ← checkedMul pages pageSize
    match Region.make base size permission kind with
    | .ok region => return (.ok region, taken)
    | .error fault =>
      let given ← taken.giveAt base pages
      return (.error (.region fault), given)

def unreserveAt (a : PageAllocator) (regions : List Region) : Option PageAllocator :=
  regions.foldlM (fun a r => a.giveAt r.base r.pages) a

def reserveOptionalAt (a : PageAllocator) (pages : Nat) (permission : Permission)
    (kind : RegionKind) : Option (Except Shortage (Option Region) × PageAllocator) :=
  if pages = 0 then some (.ok none, a)
  else do
    match ← a.reserveAt pages permission kind with
    | (.ok region, a) => return (.ok (some region), a)
    | (.error shortage, a) => return (.error shortage, a)

def reserveAllAt (a : PageAllocator) (exclusive untrusted connector : Nat) :
    Option (Except Shortage (Region × Option Region × Option Region) × PageAllocator) := do
  match ← a.reserveAt exclusive .readWriteExecute .exclusive with
  | (.error shortage, a) => return (.error shortage, a)
  | (.ok exclusive, a) =>
    match ← a.reserveOptionalAt untrusted .readWrite .untrusted with
    | (.error shortage, a) =>
      let a ← a.unreserveAt [exclusive]
      return (.error shortage, a)
    | (.ok untrusted, a) =>
      match ← a.reserveOptionalAt connector .readWrite .connector with
      | (.error shortage, a) =>
        let a ← a.unreserveAt (exclusive :: untrusted.toList)
        return (.error shortage, a)
      | (.ok connector, a) => return (.ok (exclusive, untrusted, connector), a)

end PageAllocator

/-- A product in range is found. -/
theorem checkedMul_of_lt {a b : Nat} (h : a * b < UInt64.size) : checkedMul a b = some (a * b) :=
  if_pos h

/-! ## Lists by place -/

namespace Extent

variable {e : Extent} {free before after : List Extent} {pages : Nat}

/-- Where a run ends below the limit, its end is found. -/
theorem stop?_eq (h : e.stop < addressLimit) : e.stop? = some e.stop := by
  rw [stop] at h
  rw [stop?, checkedMul_of_lt (Nat.lt_of_le_of_lt (Nat.le_add_left _ _) h)]
  exact checkedAdd_of_lt h

/-- Pages are added up in range if their sum is. -/
theorem foldlM_pages_eq {start : Nat} (h : start + pageCount free < UInt64.size) :
    free.foldlM (fun count e => checkedAdd count e.pages) start =
      some (start + pageCount free) := by
  induction free generalizing start with
  | nil => rfl
  | cons e rest ih =>
    rw [pageCount_cons, ← Nat.add_assoc] at h ⊢
    rw [List.foldlM_cons, checkedAdd_of_lt (by omega)]
    exact ih h

/-- So the pages of a list are counted. -/
theorem pageCount?_eq (h : pageCount free < UInt64.size) :
    pageCount? free = some (pageCount free) := by
  rw [pageCount?, foldlM_pages_eq (by rwa [Nat.zero_add]), Nat.zero_add]

/-! ### Cutting -/

/-- Runs without enough pages are passed over. -/
theorem cutFirst_append (hbefore : ∀ f ∈ before, f.pages < pages) :
    cutFirst pages (before ++ after) =
      (cutFirst pages after).map fun (base, rest) => (base, before ++ rest) := by
  induction before with
  | nil => simp
  | cons f before ih =>
    obtain ⟨hfirst, hrest⟩ := List.forall_mem_cons.mp hbefore
    rw [List.cons_append, cutFirst, if_neg (Nat.not_le.mpr hfirst), ih hrest]
    cases cutFirst pages after with
    | none => rfl
    | some cut => rfl

/-- No place is found where every run is too short. -/
theorem findIdx?_eq_none (h : ∀ f ∈ free, f.pages < pages) :
    free.findIdx? (pages ≤ ·.pages) = none :=
  List.findIdx?_eq_none_iff.mpr fun f hf => by simpa using h f hf

/-- A run is cut by place as it is along the list. -/
theorem cutAt_eq (h : ∀ f ∈ free, f.stop < addressLimit) :
    cutAt pages free = some (cutFirst pages free) := by
  rw [cutAt]
  cases hfind : free.find? (pages ≤ ·.pages) with
  | none =>
    have hshort : ∀ f ∈ free, f.pages < pages := by
      intro f hf
      simpa using List.find?_eq_none.mp hfind f hf
    have hcut : cutFirst pages (free ++ []) = none := cutFirst_append hshort
    rw [List.append_nil] at hcut
    rw [findIdx?_eq_none hshort, hcut]
  | some run =>
    obtain ⟨henough, before, after, rfl, hbefore⟩ := List.find?_eq_some_iff_append.mp hfind
    have henough : pages ≤ run.pages := by simpa using henough
    have hshort : ∀ f ∈ before, f.pages < pages := by
      intro f hf
      simpa using hbefore f hf
    have hplace : (before ++ run :: after).findIdx? (pages ≤ ·.pages) = some before.length := by
      rw [List.findIdx?_append, findIdx?_eq_none hshort, List.findIdx?_cons,
        if_pos (by simpa using henough)]
      simp
    have hstop := h run (List.mem_append_right _ List.mem_cons_self)
    rw [hplace, cutFirst_append hshort, cutFirst, if_pos henough]
    simp only [List.getElem?_append_right (Nat.le_refl _), Nat.sub_self, List.getElem?_cons_zero,
      Option.bind_eq_bind, Option.bind_some]
    by_cases hall : run.pages = pages
    · rw [if_pos hall, if_pos hall.symm, List.eraseIdx_append_of_length_le (Nat.le_refl _),
        Nat.sub_self]
      rfl
    · have hbase : run.base + pages * pageSize < UInt64.size :=
        Nat.lt_of_le_of_lt (Nat.add_le_add_left (Nat.mul_le_mul_right _ henough) _) hstop
      have hsize : pages * pageSize < UInt64.size :=
        Nat.lt_of_le_of_lt (Nat.le_add_left _ _) hbase
      rw [if_neg hall, if_neg (Ne.symm hall), checkedMul_of_lt hsize, Option.bind_some,
        checkedAdd_of_lt hbase, Option.bind_some, checkedSub_of_le henough, Option.bind_some,
        List.set_append_right _ _ (Nat.le_refl _), Nat.sub_self]
      rfl

/-! ### Putting in -/

/-- Two runs are joined at their places. -/
theorem joinAt_append {next : Extent} (hstop : e.stop < addressLimit)
    (hpages : e.pages + next.pages < UInt64.size) :
    joinAt before.length (before ++ e :: next :: after) =
      some (before ++ e.join (next :: after)) := by
  have hnext : before.length ≤ before.length + 1 := Nat.le_succ _
  rw [joinAt, List.getElem?_append_right (Nat.le_refl _), List.getElem?_append_right hnext,
    Nat.sub_self, Nat.add_sub_cancel_left, List.getElem?_cons_zero, List.getElem?_cons_succ,
    List.getElem?_cons_zero]
  simp only [Option.bind_eq_bind, Option.bind_some, stop?_eq hstop, join]
  split
  · rw [checkedAdd_of_lt hpages, Option.bind_some, List.set_append_right _ _ (Nat.le_refl _),
      Nat.sub_self, List.eraseIdx_append_of_length_le hnext, Nat.add_sub_cancel_left]
    rfl
  · rfl

/-- A run that ends in front of all others joins none of them. -/
theorem join_of_lt (h : ∀ f ∈ free, e.stop < f.base) : e.join free = e :: free := by
  cases free with
  | nil => rfl
  | cons next rest =>
    have hlt := h next List.mem_cons_self
    rw [join, if_neg (Nat.ne_of_lt hlt)]

/-- A run that begins in front of all others goes to the front. -/
theorem insert_of_le (h : ∀ f ∈ free, e.base ≤ f.base) : e.insert free = e.join free := by
  cases free with
  | nil => rfl
  | cons first rest => rw [insert, if_neg (Nat.not_lt.mpr (h first List.mem_cons_self))]

/-- A run put in behind another: what lies before that one is left as it is. -/
theorem Canonical.insert_append {last : Extent} (hfree : Canonical (before ++ last :: after))
    (hlast : last.base < e.base) (hafter : ∀ f ∈ after, e.base ≤ f.base) :
    e.insert (before ++ last :: after) = before ++ last.join (e.join after) := by
  induction before with
  | nil => rw [List.nil_append, List.nil_append, Extent.insert, if_pos hlast, insert_of_le hafter]
  | cons first before ih =>
    rw [List.cons_append] at hfree
    obtain ⟨⟨hpos, -, hgap⟩, hrest⟩ := cons_iff.mp hfree
    have hfirst := contains_iff.mp (contains_base hpos)
    have hlt := hgap last (List.mem_append_right _ List.mem_cons_self)
    rw [List.cons_append, List.cons_append, Extent.insert, if_pos (by omega), ih hrest]
    apply join_of_lt
    intro f hf
    rcases List.mem_append.mp hf with hf | hf
    · exact hgap f (List.mem_append_left _ hf)
    rcases base_of_mem_join hf with hbase | ⟨g, hg, hbase⟩
    · omega
    rcases base_of_mem_join hg with hbase' | ⟨k, hk, hbase'⟩
    · omega
    · have hk := hafter k hk
      omega

/-- Where a run belongs in a list in order. -/
theorem Canonical.exists_split (h : Canonical free) (base : Nat) :
    ∃ before after, free = before ++ after ∧ (∀ f ∈ before, f.base < base) ∧
      ∀ f ∈ after, base ≤ f.base := by
  induction free with
  | nil => exact ⟨[], [], rfl, by simp, by simp⟩
  | cons first rest ih =>
    obtain ⟨⟨hpos, -, hgap⟩, hrest⟩ := cons_iff.mp h
    have hfirst := contains_iff.mp (contains_base hpos)
    by_cases hlt : first.base < base
    · obtain ⟨before, after, rfl, hbefore, hafter⟩ := ih hrest
      exact ⟨first :: before, after, rfl, List.forall_mem_cons.mpr ⟨hlt, hbefore⟩, hafter⟩
    · refine ⟨[], first :: rest, rfl, by simp, ?_⟩
      refine List.forall_mem_cons.mpr ⟨Nat.not_lt.mp hlt, fun f hf => ?_⟩
      have hbehind := hgap f hf
      omega

/-- What is put in between two parts stands behind the first. -/
theorem insertIdx_append (before after : List Extent) (e : Extent) :
    (before ++ after).insertIdx before.length e = before ++ e :: after := by
  induction before with
  | nil => rfl
  | cons first before ih =>
    rw [List.cons_append, List.length_cons, List.insertIdx_succ_cons, ih]
    rfl

/-- A run is joined with the one behind it, if they touch. -/
theorem joinBehind_append (hstop : e.stop < addressLimit)
    (hcount : e.pages + pageCount after < UInt64.size) :
    joinBehind before.length (before ++ e :: after) = some (before ++ e.join after) := by
  rw [joinBehind]
  cases after with
  | nil =>
    rw [if_neg (by simp)]
    rfl
  | cons next rest =>
    rw [pageCount_cons] at hcount
    rw [if_pos (by simp), joinAt_append hstop (by omega)]

/-- A run is joined with the one in front of it, if they touch. -/
theorem joinBefore_append {next : Extent} (hstop : e.stop < addressLimit)
    (hpages : e.pages + next.pages < UInt64.size) :
    joinBefore (before.length + 1) (before ++ e :: next :: after) =
      some (before ++ e.join (next :: after)) := by
  rw [joinBefore, if_pos (Nat.succ_pos _), checkedSub_of_le (Nat.succ_le_succ (Nat.zero_le _))]
  exact joinAt_append hstop hpages

/-- A run that others were joined to is the first of the list, with no more pages than those. -/
theorem exists_join_eq_cons (e : Extent) (free : List Extent) :
    ∃ next rest, e.join free = next :: rest ∧ next.pages ≤ e.pages + pageCount free := by
  cases free with
  | nil => exact ⟨e, [], rfl, Nat.le_add_right _ _⟩
  | cons next rest =>
    rw [join, pageCount_cons]
    split
    · exact ⟨⟨e.base, e.pages + next.pages⟩, rest, rfl, by dsimp only; omega⟩
    · exact ⟨e, next :: rest, rfl, Nat.le_add_right _ _⟩

/-- A run is put in by place as it is along the list. -/
theorem Canonical.insertAt_eq (hfree : Canonical free) (hstops : ∀ f ∈ free, f.stop < addressLimit)
    (hstop : e.stop < addressLimit) (hcount : e.pages + pageCount free < UInt64.size) :
    insertAt e free = some (e.insert free) := by
  obtain ⟨before, after, rfl, hbefore, hafter⟩ := hfree.exists_split e.base
  have hpassed : before.findIdx (e.base ≤ ·.base) = before.length :=
    List.findIdx_eq_length_of_false fun f hf => by simpa using hbefore f hf
  have hplace : (before ++ after).findIdx (e.base ≤ ·.base) = before.length := by
    rw [List.findIdx_append, hpassed, if_neg (Nat.lt_irrefl _)]
    cases after with
    | nil => simp
    | cons next rest =>
      have hnext := hafter next List.mem_cons_self
      simp [List.findIdx_cons, hnext]
  rw [pageCount_append] at hcount
  rw [insertAt, hplace, insertIdx_append, joinBehind_append hstop (by omega), Option.bind_eq_bind,
    Option.bind_some]
  rcases List.eq_nil_or_concat' before with rfl | ⟨init, last, rfl⟩
  · rw [List.nil_append, List.nil_append, insert_of_le hafter]
    rfl
  · obtain ⟨next, rest, hjoin, hpages⟩ := exists_join_eq_cons e after
    have hlast : last ∈ init ++ [last] := List.mem_append_right _ List.mem_cons_self
    rw [pageCount_append, pageCount_cons, pageCount_nil] at hcount
    rw [List.append_assoc, List.singleton_append] at hfree
    rw [List.append_assoc, List.append_assoc, List.singleton_append, List.singleton_append,
      hfree.insert_append (hbefore last hlast) hafter, hjoin, List.length_append]
    exact joinBefore_append (hstops last (List.mem_append_left _ hlast)) (by omega)

end Extent

/-! ## An allocator that fits -/

namespace PageAllocator

open Extent (Canonical coverage pageCount)

variable {a b : PageAllocator} {e : Extent} {lent : List Extent} {regions : List Region}

/-- An allocator whose runs are below 2⁶⁴, with no more pages free than it ever had. -/
structure Fits (a : PageAllocator) : Prop where
  canonical : Canonical a.free
  stop_lt : ∀ e ∈ a.free, e.stop < addressLimit
  free_le : a.freePages ≤ a.total
  total_lt : a.total < UInt64.size

/-- A range that ends below 2⁶⁴. -/
theorem Fits.of_range {base pages : Nat} (hpos : 0 < pages) (haligned : base % pageSize = 0)
    (hstop : base + pages * pageSize < addressLimit) : (ofRange base pages).Fits where
  canonical := Extent.Canonical.cons_iff.mpr ⟨⟨hpos, haligned, by simp⟩, .nil⟩
  stop_lt e he := by
    obtain rfl := List.mem_singleton.mp he
    exact hstop
  free_le := Nat.le_refl _
  total_lt := by
    have hpage : pages ≤ pages * pageSize := Nat.le_mul_of_pos_right _ (by decide)
    rw [addressLimit] at hstop
    show pages < UInt64.size
    omega

namespace Lends

/-- Whatever lies in an allocator's memory lies below 2⁶⁴ if that does. -/
theorem stop_lt (hfits : a.Fits) (h : a.Lends lent b) (hpos : 0 < e.pages)
    (hmem : e ∈ lent ∨ e ∈ b.free) : e.stop < addressLimit := by
  have hlast : e.contains (e.stop - 1) := by
    simp only [Extent.contains_iff, Extent.stop, pageSize]
    omega
  have hcovered : 0 < coverage b.free (e.stop - 1) + coverage lent (e.stop - 1) := by
    rcases hmem with hlent | hfree
    · exact Nat.add_pos_right _ (Extent.coverage_pos_iff.mpr ⟨e, hlent, hlast⟩)
    · exact Nat.add_pos_left (Extent.coverage_pos_iff.mpr ⟨e, hfree, hlast⟩) _
  rw [← h.covers, Extent.coverage_pos_iff] at hcovered
  obtain ⟨f, hf, hx⟩ := hcovered
  have hlt := (Extent.contains_iff.mp hx).2
  have hlimit := hfits.stop_lt f hf
  omega

/-- What an allocator lends leaves it in range. -/
theorem fits (hfits : a.Fits) (h : a.Lends lent b) : b.Fits where
  canonical := h.after
  stop_lt e he := h.stop_lt hfits (h.after.pages_pos e he) (.inr he)
  free_le := by
    have hcounts := h.counts
    have hfree := hfits.free_le
    rw [h.total]
    rw [freePages] at hfree ⊢
    omega
  total_lt := h.total ▸ hfits.total_lt

/-- A run that was lent is given back in range. -/
theorem giveAt_eq (hfits : a.Fits) (h : a.Lends (e :: lent) b) :
    b.giveAt e.base e.pages = some (b.give e.base e.pages) := by
  have hpos := h.lent_pos e List.mem_cons_self
  have hcount : e.pages + pageCount b.free < UInt64.size := by
    have hcounts := h.counts
    have hfree := hfits.free_le
    have htotal := hfits.total_lt
    rw [Extent.pageCount_cons] at hcounts
    rw [freePages] at hfree
    omega
  rw [giveAt, h.after.insertAt_eq (h.fits hfits).stop_lt
    (h.stop_lt hfits hpos (.inl List.mem_cons_self)) hcount]
  rfl

/-- Whatever was lent is taken back without a step out of range. -/
theorem unreserveAt_eq (hfits : a.Fits) (h : a.Lends (regions.map Region.extent ++ lent) b) :
    b.unreserveAt regions = some (b.unreserve regions) := by
  induction regions generalizing b with
  | nil => rfl
  | cons r rest ih =>
    have hgive : b.giveAt r.base r.pages = some (b.give r.base r.pages) := h.giveAt_eq hfits
    rw [unreserveAt, List.foldlM_cons, hgive]
    exact ih h.give

end Lends

namespace Fits

variable {pages : Nat} {permission : Permission} {kind : RegionKind}

/-- The pages in use are counted without going below zero. -/
theorem usedPages?_eq (h : a.Fits) : a.usedPages? = some a.usedPages := by
  rw [usedPages?, Extent.pageCount?_eq (Nat.lt_of_le_of_lt h.free_le h.total_lt)]
  exact checkedSub_of_le h.free_le

/-- Pages are taken in range. -/
theorem takeAt_eq (h : a.Fits) : a.takeAt pages = some (a.take? pages) := by
  rw [takeAt, take?]
  split
  · rfl
  · rw [Extent.cutAt_eq h.stop_lt]
    cases Extent.cutFirst pages a.free with
    | none => rfl
    | some cut => rfl

/-- A run that was taken can be addressed, to its end. -/
theorem stop_lt_of_take? (h : a.Fits) {base : Nat} (htake : a.take? pages = some (base, b)) :
    base + pages * pageSize < addressLimit := by
  have hlends := lends_of_take? h.canonical htake
  have hpos := hlends.lent_pos ⟨base, pages⟩ List.mem_cons_self
  exact hlends.stop_lt h hpos (.inl List.mem_cons_self)

/-- Pages that were taken make a region. -/
theorem make_eq (h : a.Fits) {base : Nat} (htake : a.take? pages = some (base, b)) :
    Region.make base (pages * pageSize) permission kind =
      .ok ⟨base, pages * pageSize, permission, kind⟩ := by
  have hlends := lends_of_take? h.canonical htake
  have hpos := hlends.lent_pos ⟨base, pages⟩ List.mem_cons_self
  have haligned := hlends.lent_aligned ⟨base, pages⟩ List.mem_cons_self
  refine Region.make_eq_ok_iff.mpr ⟨rfl, ?_, haligned, ?_, h.stop_lt_of_take? htake⟩
  · exact Nat.mul_pos hpos (by decide)
  · exact Nat.mul_mod_left _ _

/-- The checked way to build a region refuses none that is reserved. -/
theorem reserve_ne_region (h : a.Fits) (fault : RegionFault) :
    (a.reserve pages permission kind).1 ≠ .error (.region fault) := by
  rw [reserve]
  cases htake : a.take? pages with
  | none =>
    intro heq
    cases heq
  | some taken =>
    intro heq
    dsimp only at heq
    rw [h.make_eq htake] at heq
    cases heq

/-- A region is reserved in range. -/
theorem reserveAt_eq (h : a.Fits) :
    a.reserveAt pages permission kind = some (a.reserve pages permission kind) := by
  rw [reserveAt, h.takeAt_eq, reserve]
  cases htake : a.take? pages with
  | none =>
    rw [h.usedPages?_eq]
    rfl
  | some taken =>
    have hsize : pages * pageSize < UInt64.size :=
      Nat.lt_of_le_of_lt (Nat.le_add_left _ _) (h.stop_lt_of_take? htake)
    have hmake : Region.make taken.1 (pages * pageSize) permission kind =
        .ok ⟨taken.1, pages * pageSize, permission, kind⟩ := h.make_eq htake
    simp only [Option.bind_eq_bind, Option.bind_some, checkedMul_of_lt hsize, hmake]
    rfl

/-- Without a bound a step is out of range: behind the last page of all no run can start. -/
example : (ofRange 0xfffffffffffff000 2).reserveAt 1 .readWrite .connector = none := by decide

/-- A region that need not be is reserved in range. -/
theorem reserveOptionalAt_eq (h : a.Fits) :
    a.reserveOptionalAt pages permission kind = some (a.reserveOptional pages permission kind) := by
  rw [reserveOptionalAt, reserveOptional, h.reserveAt_eq]
  split
  · rfl
  · cases a.reserve pages permission kind with
    | mk answer left =>
      cases answer with
      | error shortage => rfl
      | ok region => rfl

/-- All three regions are reserved in range. -/
theorem reserveAllAt_eq (h : a.Fits) (forExclusive forUntrusted forConnector : Nat) :
    a.reserveAllAt forExclusive forUntrusted forConnector =
      some (a.reserveAll forExclusive forUntrusted forConnector) := by
  rw [reserveAllAt, reserveAll, h.reserveAt_eq]
  rcases hexclusive : a.reserve forExclusive .readWriteExecute .exclusive with
    ⟨shortage | exclusive, left⟩
  · rfl
  have hfirst := (lends_of_reserve h.canonical hexclusive).2
  have hleft := hfirst.fits h
  dsimp only [Option.bind_eq_bind, Option.bind_some]
  rw [hleft.reserveOptionalAt_eq, Option.bind_some]
  rcases huntrusted : left.reserveOptional forUntrusted .readWrite .untrusted with
    ⟨shortage | untrusted, second⟩
  · obtain rfl := eq_of_reserveOptional_error hfirst.after huntrusted
    have hone : a.Lends ([exclusive].map Region.extent ++ []) second := hfirst
    dsimp only
    rw [hone.unreserveAt_eq h]
    rfl
  have hsecond := (lends_of_reserveOptional hfirst.after huntrusted).2
  dsimp only
  rw [(hsecond.fits hleft).reserveOptionalAt_eq, Option.bind_some]
  rcases hconnector : second.reserveOptional forConnector .readWrite .connector with
    ⟨shortage | connector, third⟩
  · obtain rfl := eq_of_reserveOptional_error hsecond.after hconnector
    have hboth : a.Lends ((exclusive :: untrusted.toList).map Region.extent ++ []) third := by
      rw [List.append_nil, List.map_cons]
      exact (hfirst.trans hsecond).perm List.perm_append_comm
    dsimp only
    rw [hboth.unreserveAt_eq h]
    rfl
  · rfl

/-! What a reservation is refused for, it is refused for want of pages. -/

/-- Pages that were taken always make a region. -/
theorem reserveOptional_ne_region (h : a.Fits) (fault : RegionFault) :
    (a.reserveOptional pages permission kind).1 ≠ .error (.region fault) := by
  rw [reserveOptional]
  split
  · intro heq
    cases heq
  rcases hreserve : a.reserve pages permission kind with ⟨shortage | region, left⟩
  · intro heq
    cases heq
    exact h.reserve_ne_region fault (congrArg Prod.fst hreserve)
  · intro heq
    cases heq

/-- So none of the three is refused for the region that it would make. -/
theorem reserveAll_ne_region (h : a.Fits) (forExclusive forUntrusted forConnector : Nat)
    (fault : RegionFault) :
    (a.reserveAll forExclusive forUntrusted forConnector).1 ≠ .error (.region fault) := by
  rw [reserveAll]
  rcases hexclusive : a.reserve forExclusive .readWriteExecute .exclusive with
    ⟨shortage | exclusive, left⟩
  · intro heq
    cases heq
    exact h.reserve_ne_region fault (congrArg Prod.fst hexclusive)
  have hfirst := (lends_of_reserve h.canonical hexclusive).2
  dsimp only
  rcases huntrusted : left.reserveOptional forUntrusted .readWrite .untrusted with
    ⟨shortage | untrusted, second⟩
  · intro heq
    cases heq
    exact (hfirst.fits h).reserveOptional_ne_region fault (congrArg Prod.fst huntrusted)
  have hsecond := (lends_of_reserveOptional hfirst.after huntrusted).2
  dsimp only
  rcases hconnector : second.reserveOptional forConnector .readWrite .connector with
    ⟨shortage | connector, third⟩
  · intro heq
    cases heq
    exact (hsecond.fits (hfirst.fits h)).reserveOptional_ne_region fault
      (congrArg Prod.fst hconnector)
  · intro heq
    cases heq

end Fits

end PageAllocator

end Enclaves

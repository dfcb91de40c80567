import Enclaves.Region
/-!
# Page allocation

First fit over one range of pages. The free pages are kept as extents in order of address, no two of
them adjacent, so that the list is determined by the set of free pages: taking an extent and giving
it back restores it.

`take?` cuts from the front of the first extent that is long enough. `give` puts an extent in its
place and joins it with a neighbour it touches.
-/

namespace Enclaves

/-- A run of free pages. -/
structure Extent where
  base : Nat
  pages : Nat
  deriving DecidableEq, Repr

/-- One past the last address. -/
def Extent.stop (e : Extent) : Nat := e.base + e.pages * pageSize

/-- Cut pages from the first extent that has enough of them. -/
def Extent.cutFirst (pages : Nat) : List Extent → Option (Nat × List Extent)
  | [] => none
  | e :: rest =>
    if pages ≤ e.pages then
      if pages = e.pages then some (e.base, rest)
      else some (e.base, ⟨e.base + pages * pageSize, e.pages - pages⟩ :: rest)
    else
      match cutFirst pages rest with
      | none => none
      | some (base, rest) => some (base, e :: rest)

/-- An extent in front of others, joined with the first of them if they touch. -/
def Extent.join (e : Extent) : List Extent → List Extent
  | [] => [e]
  | next :: rest =>
    if e.stop = next.base then ⟨e.base, e.pages + next.pages⟩ :: rest else e :: next :: rest

/-- An extent put in its place among others. -/
def Extent.insert (e : Extent) : List Extent → List Extent
  | [] => [e]
  | first :: rest =>
    if first.base < e.base then first.join (e.insert rest) else e.join (first :: rest)

/-- The pages of some extents together. -/
def Extent.pageCount : List Extent → Nat
  | [] => 0
  | e :: rest => e.pages + pageCount rest

/-- The free pages of a range, and how many pages the range has. -/
structure PageAllocator where
  free : List Extent
  total : Nat
  deriving DecidableEq, Repr

namespace PageAllocator

/-- A range with all its pages free. -/
def ofRange (base pages : Nat) : PageAllocator := ⟨[⟨base, pages⟩], pages⟩

def freePages (a : PageAllocator) : Nat := Extent.pageCount a.free

def usedPages (a : PageAllocator) : Nat := a.total - a.freePages

/-- The lowest run of free pages that is long enough; no pages are not handed out. -/
def take? (a : PageAllocator) (pages : Nat) : Option (Nat × PageAllocator) :=
  if pages = 0 then none
  else
    match Extent.cutFirst pages a.free with
    | none => none
    | some (base, free) => some (base, { a with free })

/-- The pages of a run that was handed out are free again. -/
def give (a : PageAllocator) (base pages : Nat) : PageAllocator :=
  { a with free := Extent.insert ⟨base, pages⟩ a.free }

end PageAllocator

end Enclaves

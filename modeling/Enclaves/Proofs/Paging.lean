import Enclaves.Proofs.Cursor
import Enclaves.Proofs.Placement

/-!
# Loading and hashing page by page

The monitor's own definitions say which bytes lie in memory after loading, and which bytes are
hashed. A program gets there by steps. It zeroes memory that other images were in before, and copies
each segment to where a cursor is. It hashes a loaded image page by page, out of slices cut by
address, and an image that is only given as byte strings in pieces of a page, the last piece of a
segment copied onto an empty page. Here these are written as steps, each of them partial: a copy or
a slice out of range, a difference below zero and a sum beyond 64 bits answer `none`.

Loading leaves what `Image.loadInto` says, whatever was in memory before (`Image.place?_eq`). Both
ways of hashing come to what `Layout.measure` and `Image.measure` say (`Layout.feedAt_eq`,
`Image.feed?_eq`), so no step is ever out of range; and for an image that was loaded they hash the
same pieces (`Image.feedAt_layoutAt`).
-/

namespace Enclaves

/-- A difference, if there is no less to begin with. -/
def checkedSub (a b : Nat) : Option Nat := if b ≤ a then some (a - b) else none

/-- A sum that fits 64 bits. -/
def checkedAdd (a b : Nat) : Option Nat := if a + b < UInt64.size then some (a + b) else none

namespace Bytes

/-- A byte string with another copied over it from an offset on, if that one ends in range. -/
def copy? (b : Bytes) (start : Nat) (source : Bytes) : Option Bytes :=
  if start + source.length ≤ b.length then
    some (b.take start ++ (source ++ b.drop (start + source.length)))
  else none

/-- The first pieces of a page each. -/
def pieces : (count : Nat) → Bytes → List Bytes
  | 0, _ => []
  | count + 1, b => b.take pageSize :: pieces count (b.drop pageSize)

/-- A byte string in pieces of a page, the last one with what is left over. -/
def chunks (b : Bytes) : List Bytes := pieces (pagesFor b.length) b

/-- A piece as a page: a shorter one is copied to the start of an empty page. -/
def page? (piece : Bytes) : Option Bytes :=
  if piece.length = pageSize then some piece else (zeros pageSize).copy? 0 piece

end Bytes

/-- The digest of pieces that are hashed one after the other. -/
def Digest.ofFeed (feed : List Bytes) : Digest := .ofPreimage feed.flatten

namespace Image

/-- A segment copied to where the cursor is: its address, the cursor moved on to the next page, and
memory. -/
def placeSegment? (base cursor : Nat) (segment memory : Bytes) : Option (Nat × Nat × Bytes) := do
  let address ← checkedAdd base cursor
  let memory ← memory.copy? cursor segment
  return (address, cursor + pageRoundUp segment.length, memory)

/-- An image loaded into memory that begins at an address. -/
def place? (image : Image) (base : Nat) (memory : Bytes) : Option (Layout × Bytes) := do
  let memory := Bytes.zeros memory.length
  let (loader, cursor, memory) ← placeSegment? base 0 image.loader memory
  let (runtime, cursor, memory) ← placeSegment? base cursor image.runtime memory
  let (app, cursor, memory) ← placeSegment? base cursor image.app memory
  let free ← checkedAdd base cursor
  return (⟨loader, runtime, app, free⟩, memory)

/-- What is hashed of an image that is given as byte strings, piece by piece. -/
def feed? (image : Image) : Option (List Bytes) := do
  let pages ← (image.segments.flatMap Bytes.chunks).mapM Bytes.page?
  return (image.segments.map fun s => Bytes.littleEndian 8 (pageRoundUp s.length)) ++ pages

end Image

namespace Layout

def sizes? (l : Layout) : Option (List Nat) := do
  let loader ← checkedSub l.runtime l.loader
  let runtime ← checkedSub l.app l.runtime
  let app ← checkedSub l.free l.app
  return [loader, runtime, app]

/-- The memory of the three segments, cut out by address. -/
def segments? (l : Layout) (base : Nat) (memory : Bytes) : Option (List Bytes) := do
  let loader ← checkedSub l.loader base
  let runtime ← checkedSub l.runtime base
  let app ← checkedSub l.app base
  let free ← checkedSub l.free base
  let first ← memory.slice? loader runtime
  let second ← memory.slice? runtime app
  let third ← memory.slice? app free
  return [first, second, third]

/-- What is hashed of an image that was loaded into a region, piece by piece. -/
def feedAt (l : Layout) (region : Region) (memory : Bytes) : Ranged LayoutFault (List Bytes) :=
  match l.validate region [] with
  | .error fault => throw fault
  | .ok () =>
    if memory.length ≠ region.size then throw (.memorySize memory.length region.size)
    else do
      let segments ← l.segments? region.base memory
      let sizes ← l.sizes?
      return sizes.map (Bytes.littleEndian 8) ++ segments.flatMap Bytes.chunks

end Layout

/-! ## Pieces -/

/-- A difference in range is found. -/
theorem checkedSub_of_le {a b : Nat} (h : b ≤ a) : checkedSub a b = some (a - b) := if_pos h

/-- A sum in range is found. -/
theorem checkedAdd_of_lt {a b : Nat} (h : a + b < UInt64.size) : checkedAdd a b = some (a + b) :=
  if_pos h

/-- Rounding up adds no page. -/
theorem pagesFor_pageRoundUp (n : Nat) : pagesFor (pageRoundUp n) = pagesFor n := by
  simp only [pageRoundUp, pagesFor, pageSize]
  omega

namespace Bytes

variable {b piece : Bytes} {count : Nat}

/-- Pieces of a page each, put together again. -/
theorem flatten_pieces (count : Nat) (b : Bytes) :
    (pieces count b).flatten = b.take (count * pageSize) := by
  induction count generalizing b with
  | zero => simp [pieces]
  | succ count ih =>
    rw [pieces, List.flatten_cons, ih, Nat.succ_mul, Nat.add_comm, List.take_add]

/-- Nothing is lost. -/
theorem flatten_chunks (b : Bytes) : b.chunks.flatten = b := by
  rw [chunks, flatten_pieces]
  exact List.take_of_length_le (le_pageRoundUp b.length)

/-- Segments cut into chunks, put together again. -/
theorem flatten_flatMap_chunks (segments : List Bytes) :
    (segments.flatMap chunks).flatten = segments.flatten := by
  induction segments with
  | nil => rfl
  | cons segment rest ih =>
    rw [List.flatMap_cons, List.flatten_append, flatten_chunks, ih, List.flatten_cons]

/-- No piece is longer than a page. -/
theorem length_le_of_mem_pieces (h : piece ∈ pieces count b) : piece.length ≤ pageSize := by
  induction count generalizing b with
  | zero => cases h
  | succ count ih =>
    rcases List.mem_cons.mp h with rfl | hrest
    · exact List.length_take_le _ _
    · exact ih hrest

/-- Filling up before cutting or after it comes to the same. -/
theorem pieces_padTo (count : Nat) (b : Bytes) :
    pieces count (b.padTo (count * pageSize)) = (pieces count b).map (padTo pageSize) := by
  induction count generalizing b with
  | zero => rfl
  | succ count ih =>
    have hrest : (count + 1) * pageSize - pageSize = count * pageSize := by
      rw [Nat.succ_mul, Nat.add_sub_cancel]
    have hpage : pageSize ≤ (count + 1) * pageSize := Nat.le_mul_of_pos_left _ (Nat.succ_pos _)
    rw [pieces, pieces, List.map_cons, take_padTo hpage, drop_padTo, hrest, ih]

/-- Padding a segment pads the last of its chunks. -/
theorem chunks_pagePadded (segment : Bytes) :
    (pagePadded segment).chunks = segment.chunks.map (padTo pageSize) := by
  rw [chunks, length_pagePadded, pagesFor_pageRoundUp, pagePadded, pageRoundUp, pieces_padTo,
    chunks]

/-- A piece is copied over a page of zeros in range. -/
theorem page?_eq (h : piece.length ≤ pageSize) : piece.page? = some (piece.padTo pageSize) := by
  rw [page?, copy?, length_zeros, Nat.zero_add]
  split
  · rename_i hwhole
    rw [padTo, hwhole, Nat.sub_self, zeros, List.replicate_zero, List.append_nil]
  · rw [List.take_zero, List.nil_append, padTo, zeros, zeros, List.drop_replicate]

/-- So are all pieces. -/
theorem mapM_page?_eq {pieces : List Bytes} (h : ∀ piece ∈ pieces, piece.length ≤ pageSize) :
    pieces.mapM page? = some (pieces.map (padTo pageSize)) := by
  induction pieces with
  | nil => rfl
  | cons piece rest ih =>
    obtain ⟨hpiece, hrest⟩ := List.forall_mem_cons.mp h
    rw [List.mapM_cons, page?_eq hpiece, ih hrest]
    rfl

end Bytes

/-! ## Loading -/

namespace Image

variable (image : Image) {memory : Bytes} {region : Region}

/-- A segment onto what is still zero. -/
theorem placeSegment?_eq (base : Nat) {cursor free : Nat} (front segment : Bytes)
    (hfront : front.length = cursor) (hroom : pageRoundUp segment.length ≤ free)
    (haddress : base + cursor < UInt64.size) :
    placeSegment? base cursor segment (front ++ Bytes.zeros free) =
      some (base + cursor, cursor + pageRoundUp segment.length,
        (front ++ pagePadded segment) ++ Bytes.zeros (free - pageRoundUp segment.length)) := by
  have hle := le_pageRoundUp segment.length
  have hfits : cursor + segment.length ≤ (front ++ Bytes.zeros free).length := by
    rw [List.length_append, Bytes.length_zeros]
    omega
  have hwrite := Memory.toBytes_write_zeros (m := .ofBytes (front ++ Bytes.zeros free))
    (Memory.toBytes_ofBytes _) hfront hroom
  rw [Memory.toBytes_write _ hfits, Memory.toBytes_ofBytes] at hwrite
  rw [placeSegment?, checkedAdd_of_lt haddress, Bytes.copy?, if_pos hfits, hwrite]
  rfl

/-- An image is loaded where there is room for it, whatever was in memory before. -/
theorem place?_eq (hvalid : region.Valid) (hroom : image.pages ≤ region.pages)
    (hsize : memory.length = region.size) :
    image.place? region.base memory =
      some (image.layoutAt region.base, (image.loadInto region.size).toBytes) := by
  have hpages := image.pages_le_size hroom
  have hbytes := image.toBytes_loadInto hpages
  rw [pages_mul_pageSize] at hpages hbytes
  have hstop : region.base + region.size < UInt64.size := hvalid.stop_lt
  have hloader := placeSegment?_eq region.base [] image.loader List.length_nil
    (by omega : _ ≤ region.size) (by omega)
  have hruntime := placeSegment?_eq region.base ([] ++ pagePadded image.loader) image.runtime
    (by simp [length_pagePadded] : _ = 0 + pageRoundUp image.loader.length)
    (by omega : _ ≤ region.size - pageRoundUp image.loader.length) (by omega)
  have happ := placeSegment?_eq region.base
    ([] ++ pagePadded image.loader ++ pagePadded image.runtime) image.app
    (by simp [length_pagePadded] :
      _ = 0 + pageRoundUp image.loader.length + pageRoundUp image.runtime.length)
    (by omega : _ ≤ region.size - pageRoundUp image.loader.length -
      pageRoundUp image.runtime.length) (by omega)
  have hfree : region.base + (0 + pageRoundUp image.loader.length +
      pageRoundUp image.runtime.length + pageRoundUp image.app.length) < UInt64.size := by omega
  rw [List.nil_append] at hloader
  simp only [place?, hsize, hloader, Option.bind_eq_bind, Option.bind_some, hruntime, happ,
    checkedAdd_of_lt hfree, Option.pure_def, hbytes, Option.some.injEq, Prod.mk.injEq]
  refine ⟨?_, ?_⟩
  · simp only [layoutAt, Nat.zero_add, Nat.add_zero, Nat.add_assoc]
  · simp only [List.nil_append, Nat.sub_sub, Nat.add_assoc]

end Image

/-! ## Hashing -/

/-- The sizes and then segments in pieces are hashed as what they are together. -/
theorem Digest.ofFeed_eq (sizes : List Nat) (segments : List Bytes) :
    ofFeed (sizes.map (Bytes.littleEndian 8) ++ segments.flatMap Bytes.chunks) =
      .ofPreimage (sizesHeader sizes ++ segments.flatten) := by
  rw [ofFeed, List.flatten_append, Bytes.flatten_flatMap_chunks, sizesHeader, List.flatMap_def]

namespace Image

variable (image : Image) {region : Region}

/-- The last piece of every segment is filled up. -/
theorem feed?_eq_pages : image.feed? =
    some ((image.segments.map fun s => pageRoundUp s.length).map (Bytes.littleEndian 8) ++
      (image.segments.map pagePadded).flatMap Bytes.chunks) := by
  have hpages : ∀ piece ∈ image.segments.flatMap Bytes.chunks, piece.length ≤ pageSize := by
    intro piece hmem
    obtain ⟨segment, -, hpiece⟩ := List.mem_flatMap.mp hmem
    exact Bytes.length_le_of_mem_pieces hpiece
  rw [feed?, Bytes.mapM_page?_eq hpages, List.map_flatMap, List.flatMap_map, List.map_map]
  simp only [Bytes.chunks_pagePadded]
  rfl

/-- Hashing an image's byte strings piece by piece comes to its measurement. -/
theorem feed?_eq : image.feed?.map Digest.ofFeed = some image.measure := by
  rw [feed?_eq_pages, Option.map_some, Digest.ofFeed_eq, measure, preimage, List.flatMap_def]

end Image

namespace Layout

variable {l : Layout} {region : Region}

/-- The sizes of a well placed layout are found without going below zero. -/
theorem WellPlaced.sizes?_eq (h : l.WellPlaced region) : l.sizes? = some l.sizes := by
  rw [sizes?, checkedSub_of_le (Nat.le_of_lt h.loader_lt),
    checkedSub_of_le (Nat.le_of_lt h.runtime_lt), checkedSub_of_le (Nat.le_of_lt h.app_lt)]
  rfl

/-- Its segments are cut out of the memory in range. -/
theorem WellPlaced.segments?_eq (h : l.WellPlaced region) {memory : Bytes}
    (hsize : memory.length = region.size) : l.segments? region.base memory =
      some [memory.slice (l.loader - region.base) (l.runtime - region.base),
        memory.slice (l.runtime - region.base) (l.app - region.base),
        memory.slice (l.app - region.base) (l.free - region.base)] := by
  have hloader := h.loader_lt
  have hruntime := h.runtime_lt
  have happ := h.app_lt
  have hstarts := h.starts
  have hends := h.ends
  rw [Region.stop] at hends
  rw [segments?, checkedSub_of_le (by omega), checkedSub_of_le (by omega),
    checkedSub_of_le (by omega), checkedSub_of_le (by omega)]
  simp only [Option.bind_eq_bind, Option.bind_some]
  rw [Bytes.slice?_of_le (by omega) (by omega), Bytes.slice?_of_le (by omega) (by omega),
    Bytes.slice?_of_le (by omega) (by omega)]
  rfl

/-- A layout that is well placed has memory of the region's size hashed. -/
theorem WellPlaced.feedAt_eq (h : l.WellPlaced region) (hvalidate : l.validate region [] = .ok ())
    {memory : Bytes} (hsize : memory.length = region.size) : l.feedAt region memory =
      pure (l.sizes.map (Bytes.littleEndian 8) ++
        [memory.slice (l.loader - region.base) (l.runtime - region.base),
          memory.slice (l.runtime - region.base) (l.app - region.base),
          memory.slice (l.app - region.base) (l.free - region.base)].flatMap Bytes.chunks) := by
  rw [feedAt, hvalidate]
  dsimp only
  rw [if_neg (not_not_intro hsize), h.segments?_eq hsize, h.sizes?_eq, Ranged.some_bind,
    Ranged.some_bind]

/-- Hashing loaded memory piece by piece comes to its measurement, or to the same refusal. -/
theorem feedAt_eq (l : Layout) (region : Region) (memory : Memory) :
    (Digest.ofFeed <$> l.feedAt region memory.toBytes).run = some (l.measure region memory) := by
  rw [measure]
  cases hvalidate : l.validate region [] with
  | error fault =>
    rw [feedAt, hvalidate]
    rfl
  | ok =>
    dsimp only
    by_cases hsize : memory.size = region.size
    · have hplaced := wellPlaced_of_validate hvalidate
      have hstop : l.free - region.base ≤ memory.size := by
        have hends := hplaced.ends
        rw [Region.stop] at hends
        omega
      have hread {start stop : Nat} (h : stop ≤ memory.size) :
          memory.toBytes.slice start stop = memory.read start stop :=
        (memory.read_eq_slice h).symm
      have hruntime := hplaced.runtime_lt
      have happ := hplaced.app_lt
      rw [hplaced.feedAt_eq hvalidate (by rw [Memory.length_toBytes, hsize]), map_pure,
        Digest.ofFeed_eq, hread (by omega), hread (by omega), hread hstop,
        if_neg (not_not_intro hsize), preimage]
      simp only [List.flatten_cons, List.flatten_nil, List.append_nil, List.append_assoc]
      rfl
    · rw [feedAt, hvalidate]
      dsimp only
      rw [Memory.length_toBytes, if_pos hsize, if_pos hsize]
      rfl

end Layout

/-- Of an image that was loaded the same pieces are hashed as of its byte strings. -/
theorem Image.feedAt_layoutAt (image : Image) {region : Region}
    (hplaced : (image.layoutAt region.base).WellPlaced region) (hvalid : region.Valid)
    (hroom : image.pages ≤ region.pages) :
    (image.layoutAt region.base).feedAt region (image.loadInto region.size).toBytes =
      liftM image.feed? := by
  have hpages := image.pages_le_size hroom
  have hvalidate : (image.layoutAt region.base).validate region [] = .ok () :=
    (Layout.validate_eq_ok_iff hvalid (by simp)).mpr hplaced
  rw [hplaced.feedAt_eq hvalidate (Memory.length_toBytes _), image.sizes_layoutAt,
    image.loader_sub, image.runtime_sub, image.app_sub, image.free_sub, image.slice_loader hpages,
    image.slice_runtime hpages, image.slice_app hpages, image.feed?_eq_pages]
  rfl

end Enclaves

import Enclaves.Image

/-!
# Loading and measuring

An image that is loaded into memory measures there as it does from its byte strings alone, whatever
region it was loaded into and wherever that lies (`Image.preimage_layoutAt`). This is what lets
a verifier recompute a measurement that the monitor made of memory.

The three segments are written one behind the other, each to where the pages of the one before it
end, so that memory stays a filled part in front of a zeroed one (`Memory.toBytes_write_zeros`). The
order of the writes matters to the proof alone.
-/

namespace Enclaves

/-- A segment at the start of the zeroed part of memory takes whole pages of it. -/
theorem Memory.toBytes_write_zeros {m : Memory} {start free : Nat} {front segment : Bytes}
    (hm : m.toBytes = front ++ Bytes.zeros free) (hstart : front.length = start)
    (hroom : pageRoundUp segment.length ≤ free) :
    (m.write start segment).toBytes =
      (front ++ pagePadded segment) ++ Bytes.zeros (free - pageRoundUp segment.length) := by
  have hle := le_pageRoundUp segment.length
  have hsize := congrArg List.length hm
  rw [Memory.length_toBytes, List.length_append, Bytes.length_zeros] at hsize
  have hcount : free - segment.length =
      pageRoundUp segment.length - segment.length + (free - pageRoundUp segment.length) := by omega
  have hbehind : m.toBytes.drop (start + segment.length) =
      Bytes.zeros (pageRoundUp segment.length - segment.length) ++
        Bytes.zeros (free - pageRoundUp segment.length) := by
    rw [hm, ← List.drop_drop, List.drop_left' hstart, Bytes.zeros, List.drop_replicate, hcount,
      ← List.replicate_append_replicate]
    rfl
  rw [m.toBytes_write (by omega), hbehind, hm, List.take_left' hstart, pagePadded, Bytes.padTo]
  simp only [List.append_assoc]

namespace Image

variable (image : Image) {size : Nat}

/-- The pages of an image have room for its three segments, each rounded up. -/
theorem pages_mul_pageSize : image.pages * pageSize = pageRoundUp image.loader.length +
    pageRoundUp image.runtime.length + pageRoundUp image.app.length := by
  simp only [pages, segments, List.foldl_cons, List.foldl_nil, pageRoundUp, Nat.add_mul,
    Nat.zero_add]

/-- Pages enough are bytes enough. -/
theorem pages_le_size {region : Region} (h : image.pages ≤ region.pages) :
    image.pages * pageSize ≤ region.size :=
  Nat.le_trans (Nat.mul_le_mul_right _ h) (Nat.div_mul_le_self _ _)

/-- Memory that an image was loaded into: the segments, filled up, then nothing. -/
theorem toBytes_loadInto (h : image.pages * pageSize ≤ size) :
    (image.loadInto size).toBytes = pagePadded image.loader ++ pagePadded image.runtime ++
      pagePadded image.app ++ Bytes.zeros (size - image.pages * pageSize) := by
  rw [pages_mul_pageSize] at h ⊢
  have hzeroed : (Memory.zeroed size).toBytes = [] ++ Bytes.zeros size := by simp
  have hloader := Memory.toBytes_write_zeros hzeroed rfl
    (by omega : pageRoundUp image.loader.length ≤ size)
  rw [List.nil_append] at hloader
  have hruntime := Memory.toBytes_write_zeros hloader
    (by simp [length_pagePadded] : _ = 0 + pageRoundUp image.loader.length)
    (by omega : pageRoundUp image.runtime.length ≤ _)
  have happ := Memory.toBytes_write_zeros hruntime
    (by simp [length_pagePadded] :
      _ = 0 + pageRoundUp image.loader.length + pageRoundUp image.runtime.length)
    (by omega : pageRoundUp image.app.length ≤ _)
  rw [Nat.sub_sub, Nat.sub_sub, ← Nat.add_assoc] at happ
  exact happ

/-! Where the segments then are, each with its zeros. -/

/-- In the memory that was loaded the first piece is the loader, padded. -/
theorem slice_loader (h : image.pages * pageSize ≤ size) :
    (image.loadInto size).toBytes.slice 0 (pageRoundUp image.loader.length) =
      pagePadded image.loader := by
  rw [image.toBytes_loadInto h, List.append_assoc, List.append_assoc]
  exact Bytes.slice_append_left (length_pagePadded _)

/-- Behind it lies the runtime. -/
theorem slice_runtime (h : image.pages * pageSize ≤ size) :
    (image.loadInto size).toBytes.slice (pageRoundUp image.loader.length)
      (pageRoundUp image.loader.length + pageRoundUp image.runtime.length) =
        pagePadded image.runtime := by
  rw [image.toBytes_loadInto h, List.append_assoc, List.append_assoc]
  exact Bytes.slice_append_middle (length_pagePadded _) (by rw [length_pagePadded])

/-- Behind both lies the application. -/
theorem slice_app (h : image.pages * pageSize ≤ size) :
    (image.loadInto size).toBytes.slice
      (pageRoundUp image.loader.length + pageRoundUp image.runtime.length)
      (pageRoundUp image.loader.length + pageRoundUp image.runtime.length +
        pageRoundUp image.app.length) = pagePadded image.app := by
  rw [image.toBytes_loadInto h, List.append_assoc]
  exact Bytes.slice_append_middle (by rw [List.length_append, length_pagePadded, length_pagePadded])
    (by rw [length_pagePadded])

/-! The layout counts from where the image was loaded. -/

theorem loader_sub (base : Nat) : (image.layoutAt base).loader - base = 0 := Nat.sub_self base

/-- Where the runtime lies, seen from the base. -/
theorem runtime_sub (base : Nat) :
    (image.layoutAt base).runtime - base = pageRoundUp image.loader.length := by
  simp [layoutAt]

/-- Where the application lies, seen from the base. -/
theorem app_sub (base : Nat) : (image.layoutAt base).app - base =
    pageRoundUp image.loader.length + pageRoundUp image.runtime.length := by
  simp [layoutAt, Nat.add_assoc]

/-- Where the free memory begins, seen from the base. -/
theorem free_sub (base : Nat) : (image.layoutAt base).free - base =
    pageRoundUp image.loader.length + pageRoundUp image.runtime.length +
      pageRoundUp image.app.length := by
  simp [layoutAt, Nat.add_assoc]

/-- The layout of an image has the sizes of its segments, rounded up. -/
theorem sizes_layoutAt (base : Nat) : (image.layoutAt base).sizes =
    image.segments.map fun segment => pageRoundUp segment.length := by
  simp [Layout.sizes, layoutAt, segments]

/-- An image measures in memory as it does from its byte strings. -/
theorem preimage_layoutAt (h : image.pages * pageSize ≤ size) (base : Nat) :
    (image.layoutAt base).preimage base (image.loadInto size) = image.preimage := by
  have hread {start stop : Nat} (hstop : stop ≤ size) :
      (image.loadInto size).read start stop = (image.loadInto size).toBytes.slice start stop :=
    Memory.read_eq_slice _ hstop
  have hpages := h
  rw [pages_mul_pageSize] at hpages
  simp only [Layout.preimage, image.sizes_layoutAt, image.loader_sub, image.runtime_sub,
    image.app_sub, image.free_sub]
  rw [hread (by omega), hread (by omega), hread (by omega), image.slice_loader h,
    image.slice_runtime h, image.slice_app h]
  simp [preimage, segments]

end Image

namespace Layout

/-- A layout that is accepted measures what lies in memory under it. -/
theorem eq_of_measure {l : Layout} {region : Region} {memory : Memory} {digest : Digest}
    (h : l.measure region memory = .ok digest) :
    digest = .ofPreimage (l.preimage region.base memory) := by
  unfold measure at h
  split at h
  · cases h
  split at h
  · cases h
  · cases h
    rfl

end Layout

/-- The measurement of memory that an image was loaded into is the image's own. -/
theorem Image.eq_of_measure_layoutAt {image : Image} {region : Region} {digest : Digest}
    (hroom : image.pages ≤ region.pages)
    (h : (image.layoutAt region.base).measure region (image.loadInto region.size) = .ok digest) :
    digest = image.measure := by
  rw [Layout.eq_of_measure h, image.preimage_layoutAt (image.pages_le_size hroom)]
  rfl

end Enclaves

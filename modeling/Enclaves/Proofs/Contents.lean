import Enclaves.Proofs.Binding
import Enclaves.Proofs.Paging

/-!
# Contents and their bytes

A measurement hashes the sizes of three segments and then the segments (`framed`). Sizes in front
make the byte string unambiguous: as long as every size fits its eight bytes, what is hashed
determines the segments (`framed_inj`). Nothing about the hash is used.

Both ways of measuring come to this one form. Under a layout that is accepted the segments are what
lies in memory from its start up to where the layout is free (`Layout.WellPlaced.hashes`), so no
address enters and nothing behind is read. Of an image that is given as byte strings they are its
parts, filled up to whole pages (`Image.hashes_framed`). What is compared are the bytes that the
steps of hashing take in, piece by piece, and not the digests.
-/

namespace Enclaves

/-- Segments with their sizes in front. -/
def framed (segments : List Bytes) : Bytes :=
  sizesHeader (segments.map List.length) ++ segments.flatten

/-- As many segments, each with a size of 64 bits, are told apart by their framed form. -/
theorem framed_inj {segments segments' : List Bytes} (hcount : segments.length = segments'.length)
    (hfit : ∀ s ∈ segments, s.length < addressLimit)
    (hfit' : ∀ s ∈ segments', s.length < addressLimit) :
    framed segments = framed segments' ↔ segments = segments' := by
  refine ⟨fun h => ?_, congrArg framed⟩
  have hheader (sizes : List Nat) : (sizesHeader sizes).length = 8 * sizes.length := by
    simp [sizesHeader, List.length_flatMap, Nat.mul_comm]
  obtain ⟨hsizes, hflatten⟩ := List.append_inj h (by simp [hheader, hcount])
  have hlengths := sizesHeader_inj (by simp [hcount]) (List.forall_mem_map.mpr hfit)
    (List.forall_mem_map.mpr hfit') hsizes
  exact List.eq_iff_flatten_eq.mpr ⟨hflatten, hlengths⟩

/-! ## Memory under a layout -/

namespace Layout

variable {l l' : Layout} {region region' : Region} {memory memory' : Memory} {bytes bytes' : Bytes}

/-- The segments that a layout marks off, counted from the first byte of memory. -/
def segmentsIn (l : Layout) (memory : Bytes) : List Bytes :=
  [memory.slice 0 (l.runtime - l.loader),
    memory.slice (l.runtime - l.loader) (l.app - l.loader),
    memory.slice (l.app - l.loader) (l.free - l.loader)]

/-- The layout is accepted, and these are the bytes that measuring hashes. -/
def Hashes (l : Layout) (region : Region) (memory : Memory) (bytes : Bytes) : Prop :=
  ∃ feed, l.feedAt region memory.toBytes = pure feed ∧ feed.flatten = bytes

/-- What is free under a layout that is accepted starts below 2⁶⁴. -/
theorem free_lt_of_validate {exclusive : Region} {others : List Region}
    (h : l.validate exclusive others = .ok ()) : l.free < addressLimit := by
  have hplaced := wellPlaced_of_validate h
  unfold validate at h
  split at h
  · cases h
  split at h
  · cases h
  split at h
  · cases h
  split at h
  · cases h
  split at h
  · cases h
  rename_i hmake
  obtain ⟨rfl, hvalid⟩ := Region.make_eq_ok_iff.mp hmake
  have hstop : l.loader + (l.free - l.loader) < addressLimit := hvalid.stop_lt
  have hloader := hplaced.loader_lt
  have hruntime := hplaced.runtime_lt
  have happ := hplaced.app_lt
  omega

namespace WellPlaced

/-- The segments of a layout that is well placed have its sizes. -/
theorem map_length_segmentsIn (h : l.WellPlaced region) {memory : Bytes}
    (hsize : memory.length = region.size) :
    (l.segmentsIn memory).map List.length = l.sizes := by
  have hloader := h.loader_lt
  have hruntime := h.runtime_lt
  have happ := h.app_lt
  have hstarts := h.starts
  have hends := h.ends
  rw [Region.stop] at hends
  simp only [segmentsIn, sizes, List.map_cons, List.map_nil, List.cons.injEq, and_true]
  refine ⟨?_, ?_, ?_⟩
  · rw [Bytes.length_slice (by omega), Nat.sub_zero]
  · rw [Bytes.length_slice (by omega)]
    omega
  · rw [Bytes.length_slice (by omega)]
    omega

/-- Together they are what lies in memory up to where it is free. -/
theorem flatten_segmentsIn (h : l.WellPlaced region) (memory : Bytes) :
    (l.segmentsIn memory).flatten = memory.take (l.free - l.loader) := by
  have hloader := h.loader_lt
  have hruntime := h.runtime_lt
  have happ := h.app_lt
  have hjoin (middle stop : Nat) (hle : middle ≤ stop) :
      memory.take middle ++ memory.slice middle stop = memory.take stop := by
    rw [Bytes.slice, ← List.take_add, Nat.add_sub_cancel' hle]
  simp only [segmentsIn, List.flatten_cons, List.flatten_nil, List.append_nil]
  rw [← List.append_assoc]
  have hfirst : memory.slice 0 (l.runtime - l.loader) = memory.take (l.runtime - l.loader) := by
    rw [Bytes.slice, List.drop_zero, Nat.sub_zero]
  rw [hfirst, hjoin _ _ (by omega), hjoin _ _ (by omega)]

/-- Memory is hashed in framed form. -/
theorem hashes (h : l.WellPlaced region) (hvalidate : l.validate region [] = .ok ())
    (hsize : memory.size = region.size) :
    l.Hashes region memory (framed (l.segmentsIn memory.toBytes)) := by
  have hlength : memory.toBytes.length = region.size := by rw [Memory.length_toBytes, hsize]
  refine ⟨_, h.feedAt_eq hvalidate hlength, ?_⟩
  rw [framed, h.map_length_segmentsIn hlength, List.flatten_append, Bytes.flatten_flatMap_chunks,
    sizesHeader, List.flatMap_def, segmentsIn, ← h.starts, Nat.sub_self]

end WellPlaced

/-- Measuring that is not refused has checked the layout and the size of memory. -/
theorem checks_of_measure {digest : Digest} (h : l.measure region memory = .ok digest) :
    l.validate region [] = .ok () ∧ memory.size = region.size := by
  unfold measure at h
  split at h
  · cases h
  rename_i hvalidate
  split at h
  · cases h
  rename_i hsize
  exact ⟨hvalidate, Decidable.not_not.mp hsize⟩

/-- What was hashed is what is measured. -/
theorem Hashes.measure_eq (h : l.Hashes region memory bytes) :
    l.measure region memory = .ok (.ofPreimage bytes) := by
  obtain ⟨feed, hfeed, rfl⟩ := h
  have hmeasure := feedAt_eq l region memory
  rw [hfeed, map_pure] at hmeasure
  exact (Option.some.inj hmeasure).symm

/-- Memory has a measurement just when it is hashed, and then it is the hash of those bytes. -/
theorem measure_eq_ok_iff {digest : Digest} : l.measure region memory = .ok digest ↔
    ∃ bytes, l.Hashes region memory bytes ∧ digest = .ofPreimage bytes := by
  constructor
  · intro h
    obtain ⟨hvalidate, hsize⟩ := checks_of_measure h
    have hhashes := (wellPlaced_of_validate hvalidate).hashes hvalidate hsize
    rw [hhashes.measure_eq] at h
    exact ⟨_, hhashes, (Except.ok.inj h).symm⟩
  · rintro ⟨bytes, hhashes, rfl⟩
    exact hhashes.measure_eq

/-- The bytes that are hashed are the segments in framed form, all of 64-bit sizes. -/
theorem Hashes.eq_framed (h : l.Hashes region memory bytes) :
    l.WellPlaced region ∧ memory.size = region.size ∧
      bytes = framed (l.segmentsIn memory.toBytes) ∧
      ∀ s ∈ l.segmentsIn memory.toBytes, s.length < addressLimit := by
  obtain ⟨hvalidate, hsize⟩ := checks_of_measure h.measure_eq
  have hplaced := wellPlaced_of_validate hvalidate
  obtain ⟨feed, hfeed, rfl⟩ := h
  obtain ⟨feed', hfeed', hflatten⟩ := hplaced.hashes hvalidate hsize
  have hlength : memory.toBytes.length = region.size := by rw [Memory.length_toBytes, hsize]
  refine ⟨hplaced, hsize, ?_, ?_⟩
  · rw [hfeed] at hfeed'
    cases hfeed'
    exact hflatten
  · have hfree := free_lt_of_validate hvalidate
    have hloader := hplaced.loader_lt
    have hruntime := hplaced.runtime_lt
    have happ := hplaced.app_lt
    have hsizes : ∀ n ∈ l.sizes, n < addressLimit := by
      simp only [sizes, List.forall_mem_cons]
      exact ⟨by omega, by omega, by omega, by simp⟩
    rw [← hplaced.map_length_segmentsIn hlength] at hsizes
    exact List.forall_mem_map.mp hsizes

end Layout

/-! ## Byte strings -/

namespace Image

variable {image image' : Image} {bytes : Bytes}

/-- The bytes that measuring an image's byte strings hashes. -/
def Hashes (image : Image) (bytes : Bytes) : Prop :=
  ∃ feed, image.feed? = some feed ∧ feed.flatten = bytes

/-- An image is hashed in framed form, its segments filled up, and in no other. -/
theorem hashes_iff : image.Hashes bytes ↔ bytes = framed (image.segments.map pagePadded) := by
  have hflatten : ((image.segments.map fun s => pageRoundUp s.length).map (Bytes.littleEndian 8) ++
      (image.segments.map pagePadded).flatMap Bytes.chunks).flatten =
        framed (image.segments.map pagePadded) := by
    have hsizes : (image.segments.map pagePadded).map List.length =
        image.segments.map fun s => pageRoundUp s.length := by
      rw [List.map_map]
      exact List.map_congr_left fun s _ => length_pagePadded s
    rw [List.flatten_append, Bytes.flatten_flatMap_chunks, framed, sizesHeader, List.flatMap_def,
      hsizes]
  rw [Hashes, feed?_eq_pages]
  constructor
  · rintro ⟨feed, hfeed, rfl⟩
    cases hfeed
    exact hflatten
  · rintro rfl
    exact ⟨_, rfl, hflatten⟩

/-- A measurement is the digest of what is hashed. -/
theorem Hashes.measure_eq (h : image.Hashes bytes) : image.measure = .ofPreimage bytes := by
  obtain ⟨feed, hfeed, rfl⟩ := h
  have hmeasure := image.feed?_eq
  rw [hfeed, Option.map_some] at hmeasure
  exact (Option.some.inj hmeasure).symm

/-- Padding leaves an addressable segment below the limit. -/
theorem Addressable.pagePadded_lt (h : image.Addressable) :
    ∀ s ∈ image.segments.map pagePadded, s.length < addressLimit := by
  refine List.forall_mem_map.mpr fun s hs => ?_
  rw [length_pagePadded]
  exact h s hs

/-- An image that was loaded is hashed as it is from its byte strings. -/
theorem Hashes.layoutAt {region : Region} (h : image.Hashes bytes)
    (hsegments : image.segments.any List.isEmpty = false) (hvalid : region.Valid)
    (hroom : image.pages ≤ region.pages) :
    (image.layoutAt region.base).Hashes region (image.loadInto region.size) bytes := by
  obtain ⟨feed, hfeed, hflatten⟩ := h
  have hplaced := Image.wellPlaced_layoutAt hsegments hvalid hroom
  refine ⟨feed, ?_, hflatten⟩
  rw [image.feedAt_layoutAt hplaced hvalid hroom, hfeed]
  rfl

end Image

/-- Measurements are addressed by contents, without ambiguity. Whatever layout, region and memory
are accepted, the bytes that are hashed are the three sizes in eight bytes each and memory up to
where it is free. Two such calls, at whatever addresses, hash the same bytes just when the sizes of
their segments agree and so do the segments. Two images hash the same bytes just when their segments
agree once they are filled up to whole pages, and a call hashes what an image does just when its
segments are the image's, filled up. -/
theorem measurement_addresses_contents :
    (∀ (l : Layout) (region : Region) (memory : Memory) (digest : Digest),
      l.measure region memory = .ok digest ↔
        ∃ bytes, l.Hashes region memory bytes ∧ digest = .ofPreimage bytes) ∧
    (∀ (l : Layout) (region : Region) (memory : Memory) (bytes : Bytes),
      l.Hashes region memory bytes →
        bytes = Bytes.littleEndian 8 (l.runtime - l.loader) ++
          Bytes.littleEndian 8 (l.app - l.runtime) ++ Bytes.littleEndian 8 (l.free - l.app) ++
          memory.toBytes.take (l.free - l.loader)) ∧
    (∀ (l l' : Layout) (region region' : Region) (memory memory' : Memory) (bytes bytes' : Bytes),
      l.Hashes region memory bytes → l'.Hashes region' memory' bytes' →
        (bytes = bytes' ↔
          l.sizes = l'.sizes ∧ l.segmentsIn memory.toBytes = l'.segmentsIn memory'.toBytes)) ∧
    (∀ image : Image, ∃ bytes, image.Hashes bytes ∧ image.measure = .ofPreimage bytes) ∧
    (∀ (image image' : Image) (bytes bytes' : Bytes), image.Addressable → image'.Addressable →
      image.Hashes bytes → image'.Hashes bytes' →
        (bytes = bytes' ↔
          image.segments.map pagePadded = image'.segments.map pagePadded)) ∧
    ∀ (l : Layout) (region : Region) (memory : Memory) (image : Image) (bytes bytes' : Bytes),
      image.Addressable → l.Hashes region memory bytes → image.Hashes bytes' →
        (bytes = bytes' ↔ l.segmentsIn memory.toBytes = image.segments.map pagePadded) := by
  refine ⟨fun _ _ _ _ => Layout.measure_eq_ok_iff, ?_, ?_, ?_, ?_, ?_⟩
  · intro l region memory bytes h
    obtain ⟨hplaced, hsize, rfl, -⟩ := h.eq_framed
    rw [framed, hplaced.map_length_segmentsIn (by rw [Memory.length_toBytes, hsize]),
      hplaced.flatten_segmentsIn]
    simp [sizesHeader, Layout.sizes]
  · intro l l' region region' memory memory' bytes bytes' h h'
    obtain ⟨hplaced, hsize, rfl, hfit⟩ := h.eq_framed
    obtain ⟨hplaced', hsize', rfl, hfit'⟩ := h'.eq_framed
    have hcount : (l.segmentsIn memory.toBytes).length = (l'.segmentsIn memory'.toBytes).length :=
      rfl
    rw [framed_inj hcount hfit hfit']
    refine ⟨fun heq => ⟨?_, heq⟩, And.right⟩
    rw [← hplaced.map_length_segmentsIn (by rw [Memory.length_toBytes, hsize]), heq,
      hplaced'.map_length_segmentsIn (by rw [Memory.length_toBytes, hsize'])]
  · intro image
    have h : image.Hashes (framed (image.segments.map pagePadded)) := Image.hashes_iff.mpr rfl
    exact ⟨_, h, h.measure_eq⟩
  · intro image image' bytes bytes' haddressable haddressable' h h'
    obtain rfl := Image.hashes_iff.mp h
    obtain rfl := Image.hashes_iff.mp h'
    refine framed_inj ?_ haddressable.pagePadded_lt haddressable'.pagePadded_lt
    rw [List.length_map, List.length_map]
    rfl
  · intro l region memory image bytes bytes' haddressable h h'
    obtain ⟨-, -, rfl, hfit⟩ := h.eq_framed
    obtain rfl := Image.hashes_iff.mp h'
    refine framed_inj ?_ hfit haddressable.pagePadded_lt
    rw [List.length_map]
    rfl

/-- An image is hashed as the same bytes with a zero more in its runtime, and at two places in
memory. With a byte moved from its runtime into its loader it is not. -/
theorem measurement_addresses_contents_moved :
    let image : Image := ⟨[1], [2], [3]⟩
    let filled : Image := ⟨[1], [2, 0], [3]⟩
    let moved : Image := ⟨[1, 2], [], [3]⟩
    let low : Region := ⟨0x80000000, 4 * pageSize, .readWriteExecute, .exclusive⟩
    let high : Region := ⟨0x91234000, 5 * pageSize, .readWriteExecute, .exclusive⟩
    image.Addressable ∧ filled.Addressable ∧ moved.Addressable ∧
      ∃ bytes, image.Hashes bytes ∧ filled.Hashes bytes ∧ ¬ moved.Hashes bytes ∧
        (image.layoutAt low.base).Hashes low (image.loadInto low.size) bytes ∧
        (filled.layoutAt high.base).Hashes high (filled.loadInto high.size) bytes := by
  intro image filled moved low high
  obtain ⟨-, -, -, htotal, himages, -⟩ := measurement_addresses_contents
  have haddressable (a b c : Bytes) (ha : pageRoundUp a.length < addressLimit)
      (hb : pageRoundUp b.length < addressLimit) (hc : pageRoundUp c.length < addressLimit) :
      (Image.mk a b c).Addressable := by
    simpa [Image.Addressable, Image.segments] using ⟨ha, hb, hc⟩
  have himage : image.Addressable := haddressable _ _ _ (by decide) (by decide) (by decide)
  have hfilled : filled.Addressable := haddressable _ _ _ (by decide) (by decide) (by decide)
  have hmoved : moved.Addressable := haddressable _ _ _ (by decide) (by decide) (by decide)
  have hlow : low.Valid := ⟨by decide, by decide, by decide, by decide⟩
  have hhigh : high.Valid := ⟨by decide, by decide, by decide, by decide⟩
  obtain ⟨bytes, hhashes, -⟩ := htotal image
  obtain ⟨bytes', hhashes', -⟩ := htotal filled
  have hpadded : pagePadded [2] = pagePadded [2, 0] := rfl
  have hsame : image.segments.map pagePadded = filled.segments.map pagePadded := by
    simp only [Image.segments, image, filled, List.map_cons, hpadded]
  obtain rfl := (himages _ _ _ _ himage hfilled hhashes hhashes').mpr hsame
  refine ⟨himage, hfilled, hmoved, bytes, hhashes, hhashes', fun h => ?_, ?_, ?_⟩
  · have hequal := (himages _ _ _ _ himage hmoved hhashes h).mp rfl
    have hruntime : pagePadded [2] = pagePadded [] := (List.cons.inj (List.cons.inj hequal).2).1
    have hlength := congrArg List.length hruntime
    rw [length_pagePadded, length_pagePadded] at hlength
    exact absurd hlength (by decide)
  · exact hhashes.layoutAt (by decide) hlow (by decide)
  · exact hhashes'.layoutAt (by decide) hhigh (by decide)

end Enclaves

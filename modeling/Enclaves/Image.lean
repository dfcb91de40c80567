import Enclaves.Digest
import Enclaves.Layout
import Enclaves.Memory
/-!
# Images and their measurement

An image is three byte strings. Its measurement hashes the sizes of the three segments, each as
eight bytes, and then the segments themselves, every one filled up with zeros to whole pages. No
address enters, so an image measures the same wherever it is loaded.

The same bytes come about on two ways: `Image.preimage` from the byte strings alone, for a verifier,
and `Layout.preimage` from memory that an image was loaded into, for the monitor.
-/

namespace Enclaves

/-- Loader, runtime and application. -/
structure Image where
  loader : Bytes
  runtime : Bytes
  app : Bytes
  deriving DecidableEq

/-- An image and the name under which peers look up its application. -/
structure Bundle where
  reference : String
  image : Image

/-- The sizes of the segments in front of a measured byte string. -/
def sizesHeader (sizes : List Nat) : Bytes := sizes.flatMap (Bytes.littleEndian 8)

/-- A segment filled up to whole pages. -/
def pagePadded (segment : Bytes) : Bytes := segment.padTo (pageRoundUp segment.length)

/-- A padded segment takes as many bytes as its pages have. -/
theorem length_pagePadded (segment : Bytes) :
    (pagePadded segment).length = pageRoundUp segment.length := by
  have := le_pageRoundUp segment.length
  simp only [pagePadded, Bytes.length_padTo]
  omega

namespace Image

def segments (image : Image) : List Bytes := [image.loader, image.runtime, image.app]

/-- The pages of an image once its segments are filled up. -/
def pages (image : Image) : Nat := image.segments.foldl (fun n s => n + pagesFor s.length) 0

/-- What the measurement of an image hashes. -/
def preimage (image : Image) : Bytes :=
  sizesHeader (image.segments.map fun s => pageRoundUp s.length) ++
    image.segments.flatMap pagePadded

/-- The measurement of an image. -/
def measure (image : Image) : Digest := .ofPreimage image.preimage

/-- The layout of an image loaded from an address on. -/
def layoutAt (image : Image) (base : Nat) : Layout :=
  let runtime := base + pageRoundUp image.loader.length
  let app := runtime + pageRoundUp image.runtime.length
  ⟨base, runtime, app, app + pageRoundUp image.app.length⟩

/-- Zeroed memory of a size with the segments written to their places. -/
def loadInto (image : Image) (size : Nat) : Memory :=
  let layout := image.layoutAt 0
  (((Memory.zeroed size).write layout.loader image.loader).write layout.runtime
    image.runtime).write layout.app image.app

end Image

namespace Layout

/-- What the measurement of loaded memory hashes: the sizes, then the segments page by page. -/
def preimage (l : Layout) (base : Nat) (memory : Memory) : Bytes :=
  let segment (start stop : Nat) : Bytes := memory.read (start - base) (stop - base)
  sizesHeader l.sizes ++ segment l.loader l.runtime ++ segment l.runtime l.app ++
    segment l.app l.free

/-- The measurement of an image that was loaded into a region. The layout is checked before
anything is hashed. -/
def measure (l : Layout) (region : Region) (memory : Memory) : Except LayoutFault Digest :=
  match l.validate region [] with
  | .error fault => .error fault
  | .ok () =>
    if memory.size ≠ region.size then .error (.memorySize memory.size region.size)
    else .ok (.ofPreimage (l.preimage region.base memory))

end Layout

/-- What the digest of a platform image hashes: the image cut or filled up to its region. -/
def platformPreimage (image : Bytes) (regionSize : Nat) : Bytes :=
  Bytes.padTo regionSize (image.take regionSize)

/-- The digest of a platform image. -/
def measurePlatform (image : Bytes) (regionSize : Nat) : Digest :=
  .ofPreimage (platformPreimage image regionSize)

end Enclaves

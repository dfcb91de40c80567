import Enclaves.Console.Offline
import Enclaves.Proofs.Attestation
import Enclaves.Proofs.Binding
import Enclaves.Proofs.Paging
import Mathlib.Data.List.DropRight

/-!
# What a platform digest binds

The digest of a platform image is meant to be that of the image with zeros behind it, up to the size
of the region it is loaded into. An image that is longer than its region is cut, and nothing tells.
So two images have one preimage exactly if what lies inside the region is the same up to zeros at
the end (`BindsRegion.same_iff`). Of an image that fits, no byte but such zeros is left out; of one
that does not, every byte from the end of the region on is (`BindsRegion.cut`).

The command that prints a platform digest refuses an image that does not fit, so what it prints
binds the whole image. The identity of a monitor is made without that check, and what the identity
has is what every report carries.

What is hashed comes in pieces, the image and then zeros page by page. `platformFeed?` writes this
out, and none of its steps is out of range.
-/

namespace Enclaves

/-! ## Zeros at the end -/

namespace Bytes

/-- A byte string without the zeros at its end. -/
def trimmed (b : Bytes) : Bytes := b.rdropWhile (· = 0)

/-- Zeros behind a string do not count. -/
theorem trimmed_append_zeros (b : Bytes) (n : Nat) : (b ++ zeros n).trimmed = b.trimmed := by
  induction n with
  | zero => rw [zeros, List.replicate_zero, List.append_nil]
  | succ n ih =>
    rw [zeros, List.replicate_succ', ← List.append_assoc, trimmed,
      List.rdropWhile_concat_pos _ _ _ (by decide)]
    exact ih

/-- Padding does not count. -/
theorem trimmed_padTo (n : Nat) (b : Bytes) : (padTo n b).trimmed = b.trimmed :=
  trimmed_append_zeros b _

theorem zeros_add (i j : Nat) : zeros (i + j) = zeros i ++ zeros j :=
  List.replicate_add _ _ _

/-- The zeros that are left out are all there is at the end. -/
theorem exists_trimmed (b : Bytes) : ∃ n, b.trimmed ++ zeros n = b := by
  have hzeros : b.rtakeWhile (· = 0) = zeros (b.rtakeWhile (· = 0)).length := by
    refine List.eq_replicate_of_mem fun byte hbyte => ?_
    exact of_decide_eq_true (List.mem_rtakeWhile_imp (p := fun byte => decide (byte = 0)) hbyte)
  refine ⟨(b.rtakeWhile (· = 0)).length, ?_⟩
  rw [← hzeros]
  exact List.rdropWhile_append_rtakeWhile

/-- Padding puts back the zeros that were left out, and any others that are missing. -/
theorem padTo_trimmed {n : Nat} {b : Bytes} (h : b.length ≤ n) : padTo n b.trimmed = padTo n b := by
  obtain ⟨k, hk⟩ := b.exists_trimmed
  have hlength : b.trimmed.length + k = b.length := by
    rw [← congrArg List.length hk, List.length_append, length_zeros]
  have hcount : n - b.trimmed.length = k + (n - b.length) := by omega
  calc padTo n b.trimmed
    _ = b.trimmed ++ zeros (k + (n - b.length)) := by rw [padTo, hcount]
    _ = (b.trimmed ++ zeros k) ++ zeros (n - b.length) := by rw [zeros_add, List.append_assoc]
    _ = padTo n b := by rw [hk, padTo]

/-- Two byte strings that fit are filled up to the same exactly if they differ by zeros at the end
only. -/
theorem padTo_eq_iff {n : Nat} {a b : Bytes} (ha : a.length ≤ n) (hb : b.length ≤ n) :
    padTo n a = padTo n b ↔ a.trimmed = b.trimmed := by
  constructor
  · intro h
    rw [← trimmed_padTo n a, h, trimmed_padTo]
  · intro h
    rw [← padTo_trimmed ha, h, padTo_trimmed hb]

/-- Zeros in pieces of at most a page. -/
def zeroPieces (remaining : Nat) : List Bytes :=
  if remaining = 0 then []
  else
    let n := min remaining pageSize
    (zeros pageSize).take n :: zeroPieces (remaining - n)
  decreasing_by
    simp only [pageSize]
    omega

/-- Pieces of zeros, put together again. -/
theorem flatten_zeroPieces (n : Nat) : (zeroPieces n).flatten = zeros n := by
  induction n using zeroPieces.induct with
  | case1 => rw [zeroPieces, if_pos rfl, List.flatten_nil, zeros, List.replicate_zero]
  | case2 remaining hne n ih =>
    have hle : n ≤ remaining := Nat.min_le_left _ _
    have hpage : (zeros pageSize).take n = zeros n := by
      rw [zeros, List.take_replicate, Nat.min_eq_left (Nat.min_le_right _ _), zeros]
    rw [zeroPieces, if_neg hne, List.flatten_cons, ih, hpage, ← zeros_add, Nat.add_sub_cancel' hle]

end Bytes

/-! ## Piece by piece -/

/-- What is hashed of a platform image: as much of it as its region has room for, then zeros. -/
def platformFeed? (image : Bytes) (regionSize : Nat) : Option (List Bytes) := do
  let used := min image.length regionSize
  let loaded ← image.slice? 0 used
  let remaining ← checkedSub regionSize used
  return loaded :: Bytes.zeroPieces remaining

section

variable (image other : Bytes) (n : Nat)

/-- No step is out of range. -/
theorem platformFeed?_eq : (platformFeed? image n).map List.flatten =
    some (platformPreimage image n) := by
  have hloaded : image.slice? 0 (min image.length n) = some (image.take n) := by
    rw [Bytes.slice?_of_le (Nat.zero_le _) (Nat.min_le_left _ _), Bytes.slice, List.drop_zero,
      Nat.sub_zero, Nat.min_comm, ← List.take_take, List.take_length]
  have hremaining : checkedSub n (min image.length n) = some (n - (image.take n).length) := by
    rw [checkedSub_of_le (Nat.min_le_right _ _), List.length_take, Nat.min_comm]
  simp only [platformFeed?, hloaded, hremaining, Option.bind_eq_bind, Option.bind_some,
    Option.pure_def, Option.map_some, List.flatten_cons, Bytes.flatten_zeroPieces,
    platformPreimage, Bytes.padTo]

/-- The digest of what is fed is that of the image. -/
theorem platformFeed?_digest : (platformFeed? image n).map Digest.ofFeed =
    some (measurePlatform image n) := by
  rw [measurePlatform, ← Option.map_some, ← platformFeed?_eq, Option.map_map]
  rfl

/-- What is hashed has the length of the region. -/
theorem length_platformPreimage : (platformPreimage image n).length = n := by
  rw [platformPreimage, Bytes.length_padTo, List.length_take]
  omega

/-- What is hashed says what lies inside the region, up to zeros at the end. -/
theorem platformPreimage_eq_iff : platformPreimage image n = platformPreimage other n ↔
    Bytes.trimmed (image.take n) = Bytes.trimmed (other.take n) :=
  Bytes.padTo_eq_iff (List.length_take_le _ _) (List.length_take_le _ _)

variable {image other n}

/-- Of two images that fit all is hashed, up to zeros at the end. -/
theorem platformPreimage_eq_iff_of_fits (himage : image.length ≤ n) (hother : other.length ≤ n) :
    platformPreimage image n = platformPreimage other n ↔ image.trimmed = other.trimmed := by
  rw [platformPreimage_eq_iff, List.take_of_length_le himage, List.take_of_length_le hother]

/-- What lies beyond the region is left out. -/
theorem platformPreimage_take_append (h : n ≤ image.length) (rest : Bytes) :
    platformPreimage (image.take n ++ rest) n = platformPreimage image n := by
  have hlength : (image.take n).length = n := List.length_take_of_le h
  rw [platformPreimage, platformPreimage, List.take_left' hlength]

end

/-! ## Where the digest shows -/

/-- The command prints the digest of an image that fits, and refuses all others. -/
theorem Console.platformDigest_run {config : Config} {path : String} {bench : Bench} {image : Bytes}
    (h : bench.volume.read path = .ok image) :
    (platformDigest config path : Action (StateM Bench) Unit).run bench =
      if image.length ≤ config.platformRegionSize then
        (.ok (), { bench with
          printed := ("  Platform digest: " ++
            (measurePlatform image config.platformRegionSize).toHex ++ "\n") :: bench.printed })
      else (.error (.imageTooLarge image.length config.platformRegionSize), bench) := by
  have hread : (readFile path : Action (StateM Bench) Bytes).run bench = (.ok image, bench) := by
    show (Except.mapError ActionError.file (bench.volume.read path), bench) = _
    rw [h]
    rfl
  have hbind (f : Bytes → Action (StateM Bench) Unit) :
      (readFile path >>= f : Action (StateM Bench) Unit).run bench = (f image).run bench := by
    show ExceptT.bindCont f ((readFile path : Action (StateM Bench) Bytes).run bench).1
      ((readFile path : Action (StateM Bench) Bytes).run bench).2 = _
    rw [hread]
    rfl
  rw [platformDigest, hbind]
  by_cases hfits : image.length ≤ config.platformRegionSize
  · rw [if_pos hfits, if_neg (Nat.not_lt.mpr hfits)]
    rfl
  · rw [if_neg hfits, if_pos (Nat.lt_of_not_le hfits)]
    rfl

/-- Every report of a monitor carries the digest of the platform image it was started with. -/
theorem Monitor.platform_of_attest {config : Config} {platform : Platform} {key : DeviceKey}
    {image : Bytes} {n : Nat} {m : Monitor}
    (hstart : Monitor.start config platform (.ofImage key image n) = .ok m) (acts : List Act)
    {id : EnclaveId} {data : Bytes} {report : Report}
    (hattest : (m.perform acts).attest id data = .ok report) :
    report.platform = measurePlatform image n := by
  obtain ⟨e, digest, history, -, -, -, -, -, rfl⟩ := attest_eq_ok_iff.mp hattest
  show (m.perform acts).identity.platform = _
  rw [(Founded.of_start hstart acts).identity_eq]
  rfl

/-! ## What the digest binds -/

/-- What the digest of a platform image binds in a region of some size. -/
structure BindsRegion (image other : Bytes) (n : Nat) : Prop where
  /-- No step of the hashing is out of range, and the digest is that of the preimage. -/
  hashed : ∀ key, (platformFeed? image n).map Digest.ofFeed =
    some (Identity.ofImage key image n).platform
  filled : (platformFeed? image n).map List.flatten = some (platformPreimage image n) ∧
    (platformPreimage image n).length = n
  same_iff : platformPreimage image n = platformPreimage other n ↔
    Bytes.trimmed (image.take n) = Bytes.trimmed (other.take n)
  fitting_iff : image.length ≤ n → other.length ≤ n →
    (platformPreimage image n = platformPreimage other n ↔ image.trimmed = other.trimmed)
  binds : image.length ≤ n → other.length ≤ n → ∀ key key',
    (Identity.ofImage key image n).platform = (Identity.ofImage key' other n).platform →
    image.trimmed = other.trimmed ∨ Collides [platformPreimage image n, platformPreimage other n]
  /-- Beyond the region nothing is bound. -/
  cut : n ≤ image.length → ∀ rest,
    platformPreimage (image.take n ++ rest) n = platformPreimage image n
  carried : ∀ key config platform m acts id data report,
    Monitor.start config platform (.ofImage key image n) = .ok m →
    (m.perform acts).attest id data = .ok report →
    report.platform = .ofPreimage (platformPreimage image n)
  /-- The command prints no digest of an image that is cut. -/
  printed : ∀ (config : Config) path (bench : Console.Bench), config.platformRegionSize = n →
    bench.volume.read path = .ok image →
    (((Console.platformDigest (m := StateM Console.Bench) config path).run bench).1 = .ok () ↔
      image.length ≤ n)

/-- For every size of the region and every two images. -/
theorem platform_digest_binds_region (image other : Bytes) (n : Nat) :
    BindsRegion image other n where
  hashed _ := platformFeed?_digest image n
  filled := ⟨platformFeed?_eq image n, length_platformPreimage image n⟩
  same_iff := platformPreimage_eq_iff image other n
  fitting_iff := platformPreimage_eq_iff_of_fits
  binds himage hother _ _ hsame := by
    have hmem : platformPreimage image n ∈ [platformPreimage image n, platformPreimage other n] :=
      List.mem_cons_self
    have hmem' : platformPreimage other n ∈ [platformPreimage image n, platformPreimage other n] :=
      List.mem_cons_of_mem _ List.mem_cons_self
    exact (Digest.eq_or_collides hsame hmem hmem').imp_left
      (platformPreimage_eq_iff_of_fits himage hother).mp
  cut := platformPreimage_take_append
  carried _ _ _ _ acts _ _ _ hstart hattest := Monitor.platform_of_attest hstart acts hattest
  printed config path bench hsize hread := by
    rw [Console.platformDigest_run hread, hsize]
    split <;> simp_all

/-- Two images that differ in a byte that is not zero, and hash the same bytes in a region that ends
in front of it. -/
theorem long_images_are_cut :
    ¬ ∀ (n : Nat) (image other : Bytes),
      platformPreimage image n = platformPreimage other n → image.trimmed = other.trimmed := by
  intro h
  have hsame : Bytes.trimmed [1, 2] = Bytes.trimmed [1, 3] := h 1 [1, 2] [1, 3] rfl
  exact absurd hsame (by decide)

end Enclaves

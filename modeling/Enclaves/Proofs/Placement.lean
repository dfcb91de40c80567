import Enclaves.Proofs.Lending
import Enclaves.Proofs.Loading

/-!
# Where an image lies

Of the checks of a layout the last two cannot fail once the others passed, if the regions of the
enclave are valid and apart: an image inside its region is a region itself, and meets no other. So a
layout is accepted if it is well placed in the exclusive region, and for no other reason refused
(`Layout.validate_eq_ok_iff`). The layout of an image that has its three segments and pages enough
in the region is well placed (`Image.wellPlaced_layoutAt`).
-/

namespace Enclaves

namespace Layout

variable {l : Layout} {exclusive : Region} {others : List Region}

/-- No fault is found exactly if the four addresses ascend. -/
theorem firstDisorder_boundaries_eq_none_iff : firstDisorder l.boundaries = none ↔
    l.loader < l.runtime ∧ l.runtime < l.app ∧ l.app < l.free := by
  simp only [boundaries, firstDisorder]
  constructor
  · intro h
    split at h
    · split at h
      · split at h
        · exact ⟨‹_›, ‹_›, ‹_›⟩
        · cases h
      · cases h
    · cases h
  · rintro ⟨hloader, hruntime, happ⟩
    rw [if_pos hloader, if_pos hruntime, if_pos happ]

/-- An image that is well placed is a region inside the exclusive one. -/
theorem WellPlaced.make_eq (h : l.WellPlaced exclusive) (hvalid : exclusive.Valid) :
    ∃ image : Region, Region.make l.loader (l.free - l.loader) exclusive.permission .exclusive =
      .ok image ∧ exclusive.base = image.base ∧ image.stop ≤ exclusive.stop := by
  have hloader := h.loader_lt
  have hruntime := h.runtime_lt
  have happ := h.app_lt
  have hends := h.ends
  have hlimit := hvalid.stop_lt
  have hbase : l.loader % pageSize = 0 := h.aligned (.loader, l.loader) (by simp [boundaries])
  have hfree : l.free % pageSize = 0 := h.aligned (.free, l.free) (by simp [boundaries])
  refine ⟨_, Region.make_eq_ok_iff.mpr ⟨rfl, ?_, hbase, ?_, ?_⟩, h.starts.symm, ?_⟩
  · show 0 < l.free - l.loader
    omega
  · show (l.free - l.loader) % pageSize = 0
    simp only [pageSize] at hbase hfree ⊢
    omega
  · show l.loader + (l.free - l.loader) < addressLimit
    omega
  · show l.loader + (l.free - l.loader) ≤ exclusive.stop
    omega

/-- The checks before the last two are what being well placed comes to. -/
theorem wellPlaced_of_checks (haligned : l.boundaries.find? (fun b => b.2 % pageSize ≠ 0) = none)
    (horder : firstDisorder l.boundaries = none) (hstarts : ¬ l.loader ≠ exclusive.base)
    (hends : ¬ exclusive.stop < l.free) : l.WellPlaced exclusive := by
  obtain ⟨hloader, hruntime, happ⟩ := firstDisorder_boundaries_eq_none_iff.mp horder
  refine ⟨?_, hloader, hruntime, happ, Decidable.not_not.mp hstarts, Nat.not_lt.mp hends⟩
  intro b hb
  simpa using List.find?_eq_none.mp haligned b hb

/-- What is accepted is well placed. -/
theorem wellPlaced_of_validate (h : l.validate exclusive others = .ok ()) :
    l.WellPlaced exclusive := by
  unfold validate at h
  split at h
  · cases h
  rename_i haligned
  split at h
  · cases h
  rename_i horder
  split at h
  · cases h
  rename_i hstarts
  split at h
  · cases h
  rename_i hends
  exact wellPlaced_of_checks haligned horder hstarts hends

/-- A layout is accepted if and only if it is well placed, where other regions are apart. -/
theorem validate_eq_ok_iff (hvalid : exclusive.Valid)
    (hothers : ∀ other ∈ others, exclusive.Apart other) :
    l.validate exclusive others = .ok () ↔ l.WellPlaced exclusive := by
  constructor
  · exact wellPlaced_of_validate
  · intro h
    obtain ⟨image, hmake, hbase, hstop⟩ := h.make_eq hvalid
    have haligned : l.boundaries.find? (fun b => b.2 % pageSize ≠ 0) = none :=
      List.find?_eq_none.mpr fun b hb => by simp [h.aligned b hb]
    have hmeets : others.find? (·.overlaps image) = none := by
      apply List.find?_eq_none.mpr
      intro other hother hoverlaps
      simp only [Region.overlaps, Bool.and_eq_true, decide_eq_true_eq] at hoverlaps
      rcases hothers other hother with hbefore | hbehind
      · omega
      · omega
    rw [validate, haligned, firstDisorder_boundaries_eq_none_iff.mpr
      ⟨h.loader_lt, h.runtime_lt, h.app_lt⟩]
    dsimp only
    rw [if_neg (not_not_intro h.starts), if_neg (Nat.not_lt.mpr h.ends), hmake]
    dsimp only
    rw [hmeets]

/-- Memory of the region's size is measured under every layout that is well placed. -/
theorem WellPlaced.measure_eq (h : l.WellPlaced exclusive) (hvalid : exclusive.Valid)
    {memory : Memory} (hsize : memory.size = exclusive.size) :
    l.measure exclusive memory = .ok (.ofPreimage (l.preimage exclusive.base memory)) := by
  rw [measure, (validate_eq_ok_iff hvalid (by simp)).mpr h]
  dsimp only
  rw [if_neg (not_not_intro hsize)]

end Layout

/-- The layout of an image lies well wherever its pages do. -/
theorem Image.wellPlaced_layoutAt {image : Image} {exclusive : Region}
    (hsegments : image.segments.any List.isEmpty = false) (hvalid : exclusive.Valid)
    (hroom : image.pages ≤ exclusive.pages) :
    (image.layoutAt exclusive.base).WellPlaced exclusive := by
  have hlong {segment : Bytes} (hmem : segment ∈ image.segments) :
      0 < pageRoundUp segment.length := by
    have hne := List.any_eq_false.mp hsegments segment hmem
    cases segment with
    | nil => exact absurd rfl hne
    | cons byte rest => exact Nat.lt_of_lt_of_le (Nat.succ_pos _) (le_pageRoundUp _)
  have hloader : 0 < pageRoundUp image.loader.length := hlong (by simp [segments])
  have hruntime : 0 < pageRoundUp image.runtime.length := hlong (by simp [segments])
  have happ : 0 < pageRoundUp image.app.length := hlong (by simp [segments])
  have hsize := image.pages_le_size hroom
  rw [pages_mul_pageSize] at hsize
  have hwhole (n : Nat) : pageRoundUp n % pageSize = 0 := Nat.mul_mod_left _ _
  refine ⟨?_, ?_, ?_, ?_, rfl, ?_⟩
  · intro b hb
    simp only [Layout.boundaries, layoutAt, List.mem_cons, List.not_mem_nil, or_false] at hb
    rcases hb with rfl | rfl | rfl | rfl
    · exact hvalid.base_aligned
    · simp [Nat.add_mod, hvalid.base_aligned, hwhole]
    · simp [Nat.add_mod, hvalid.base_aligned, hwhole]
    · simp [Nat.add_mod, hvalid.base_aligned, hwhole]
  · simp only [layoutAt]
    omega
  · simp only [layoutAt]
    omega
  · simp only [layoutAt]
    omega
  · simp only [layoutAt, Region.stop]
    omega

end Enclaves

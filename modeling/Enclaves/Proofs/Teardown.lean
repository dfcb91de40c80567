import Enclaves.Proofs.Handles

/-!
# Tearing an enclave down

The loop that goes over the table when an enclave leaves does two things side by side: it takes
links out of records and mappings out of the platform. `unlinkFrom_eq` separates them. The slots
come out as a `map`, and of the platform only the mappings change, by a filter that is determined
before the loop starts.

`teardown_eq` writes the whole operation as one update of the monitor; everything else that is said
about a teardown is read off it.
-/

namespace Enclaves

namespace Monitor

/-- The regions that are unmapped from `other` while the loop goes over some slots, the first of
them in place `index`. -/
def unmappedFrom (gone other : EnclaveId) : (index : Nat) → List Slot → List Region
  | _, [] => []
  | index, slot :: rest =>
    let here :=
      if (⟨.ofNat index, slot.generation⟩ : EnclaveId) = other then
        slot.occupant.bind (·.linkTo? gone)
      else none
    (here.map Link.region).toList ++ unmappedFrom gone other (index + 1) rest

/-- What a teardown unmaps from a handle is what the slots of that name link to the one who goes. -/
theorem mem_unmappedFrom_iff {gone other : EnclaveId} {index : Nat} {slots : List Slot}
    {r : Region} :
    r ∈ unmappedFrom gone other index slots ↔ ∃ k slot e link, slots[k]? = some slot ∧
      (⟨.ofNat (index + k), slot.generation⟩ : EnclaveId) = other ∧ slot.occupant = some e ∧
      e.linkTo? gone = some link ∧ link.region = r := by
  induction slots generalizing index with
  | nil => simp [unmappedFrom]
  | cons slot rest ih =>
    simp only [unmappedFrom, List.mem_append, ih]
    constructor
    · rintro (h | ⟨k, slot', e, link, hslot, hid, hrest⟩)
      · split at h
        · rename_i hid
          simp only [Option.mem_toList, Option.map_eq_some_iff, Option.bind_eq_some_iff] at h
          obtain ⟨link, ⟨e, hocc, hlink⟩, rfl⟩ := h
          exact ⟨0, slot, e, link, rfl, hid, hocc, hlink, rfl⟩
        · simp at h
      · refine ⟨k + 1, slot', e, link, hslot, ?_, hrest⟩
        rw [← hid, Nat.add_right_comm, Nat.add_assoc]
    · rintro ⟨_ | k, slot', e, link, hslot, hid, hocc, hlink, hregion⟩
      · obtain rfl : slot = slot' := by simpa using hslot
        refine .inl ?_
        rw [if_pos (by simpa using hid)]
        simp [hocc, hlink, hregion]
      · refine .inr ⟨k, slot', e, link, hslot, ?_, hocc, hlink, hregion⟩
        rw [← hid, Nat.add_right_comm, Nat.add_assoc]

/-- One step of the loop: the slot loses its link, and its handle the mapping of it. -/
theorem unlinkSlot_eq (gone : EnclaveId) (index : Nat) (slot : Slot) (p : Platform) :
    unlinkSlot gone index slot p = (slot.unlink gone,
      { p with mappings := fun other =>
          (p.mappings other).filter (· ∉ unmappedFrom gone other index [slot]) }) := by
  obtain ⟨generation, occupant⟩ := slot
  cases occupant with
  | none => simp [unlinkSlot, Slot.unlink, unmappedFrom]
  | some e =>
    cases hlink : e.linkTo? gone with
    | none =>
      simp [unlinkSlot, Slot.unlink, unmappedFrom, hlink, Enclave.unlink_of_linkTo?_eq_none hlink]
    | some link =>
      simp only [unlinkSlot, hlink, Slot.unlink, Option.map_some, Platform.unmap, Prod.mk.injEq,
        Platform.mk.injEq, true_and, and_true]
      refine ⟨rfl, funext fun other => ?_⟩
      by_cases hother : other = ⟨.ofNat index, generation⟩
      · simp [Platform.set, unmappedFrom, hlink, hother]
      · simp [Platform.set, unmappedFrom, hother, Ne.symm hother]

/-- The loop, its two effects apart. -/
theorem unlinkFrom_eq (gone : EnclaveId) (index : Nat) (slots : List Slot) (p : Platform) :
    unlinkFrom gone index slots p = (slots.map (Slot.unlink gone),
      { p with mappings := fun other =>
          (p.mappings other).filter (· ∉ unmappedFrom gone other index slots) }) := by
  induction slots generalizing index p with
  | nil => simp [unlinkFrom, unmappedFrom]
  | cons slot rest ih =>
    simp only [unlinkFrom, unlinkSlot_eq, ih, List.map_cons, Prod.mk.injEq, Platform.mk.injEq,
      true_and, and_true]
    funext other
    rw [List.filter_filter]
    refine List.filter_congr fun r _ => ?_
    simp only [unmappedFrom, List.append_nil, List.mem_append, not_or, Bool.decide_and]
    rw [Bool.and_comm]

variable {m : Monitor} {id other : EnclaveId} {e f : Enclave}

/-- The table with the slot of a handle cleared. -/
def cleared (m : Monitor) (id : EnclaveId) : List Slot :=
  m.slots.set id.index.toNat ⟨EnclaveId.nextGeneration id.generation, none⟩

/-- The slot of the one who goes is vacant in its next generation. -/
theorem getElem?_cleared_self (h : m.enclave? id = some e) :
    (m.cleared id)[id.index.toNat]? =
      some ⟨EnclaveId.nextGeneration id.generation, none⟩ :=
  List.getElem?_set_self (List.getElem?_eq_some_iff.mp (enclave?_eq_some_iff.mp h)).1

/-- The other slots are as they were. -/
theorem getElem?_cleared_of_ne {k : Nat} (h : id.index.toNat ≠ k) :
    (m.cleared id)[k]? = m.slots[k]? :=
  List.getElem?_set_ne h

/-- The table after an enclave is gone. -/
def slotsWithout (m : Monitor) (id : EnclaveId) : List Slot :=
  (m.cleared id).map (Slot.unlink id)

/-- The mappings after an enclave is gone. -/
def mappingsWithout (m : Monitor) (id : EnclaveId) : EnclaveId → List Region :=
  Platform.set
    (fun other => (m.platform.mappings other).filter
      (· ∉ unmappedFrom id other 0 (m.cleared id)))
    id []

/-- A teardown written as one change of the table, the platform and the pages. -/
theorem teardown_eq (h : m.enclave? id = some e) :
    m.teardown id =
      { m with
        slots := m.slotsWithout id
        freeSlots := id.index :: m.freeSlots
        platform := { m.platform with
          script := Platform.set m.platform.script id []
          mappings := m.mappingsWithout id }
        pages := m.pages.unreserve e.regions } := by
  simp only [teardown, h, unlinkFrom_eq]
  rfl

/-- After a teardown one handle reaches nothing, and the others what they did, without the link. -/
theorem enclave?_teardown (h : m.enclave? id = some e) (other : EnclaveId) :
    (m.teardown id).enclave? other =
      if other = id then none else (m.enclave? other).map (Enclave.unlink id) := by
  have hslot := enclave?_eq_some_iff.mp h
  simp only [teardown_eq h, enclave?, slotsWithout, List.getElem?_map]
  by_cases hindex : other.index = id.index
  · rw [hindex, getElem?_cleared_self h, hslot]
    by_cases hid : other = id
    · simp [hid, Slot.unlink]
    · -- the same slot under another generation: empty now, and out of reach before
      have hgen : id.generation ≠ other.generation := fun hgen => by
        cases other; cases id; simp_all
      simp [Slot.unlink, hgen, hid]
  · have hne : id.index.toNat ≠ other.index.toNat := fun h =>
      hindex (UInt32.toNat_inj.mp h).symm
    have hid : other ≠ id := fun h => hindex (h ▸ rfl)
    rw [getElem?_cleared_of_ne hne, if_neg hid]
    cases m.slots[other.index.toNat]? with
    | none => rfl
    | some slot => by_cases hgen : slot.generation = other.generation <;> simp [Slot.unlink, hgen]

/-- The handle of an enclave that is gone reaches nothing, since the generation has moved on. -/
theorem enclave?_teardown_self (h : m.enclave? id = some e) :
    (m.teardown id).enclave? id = none := by
  rw [enclave?_teardown h, if_pos rfl]

/-- The memory of the one who goes is out no more. -/
theorem regions_teardown (h : m.enclave? id = some e) :
    m.regions.Perm (e.regions ++ (m.teardown id).regions) := by
  have hslot := enclave?_eq_some_iff.mp h
  have hafter : (m.teardown id).regions =
      ((m.cleared id).filterMap Slot.occupant).flatMap Enclave.regions := by
    have hocc : Slot.occupant ∘ Slot.unlink id =
        fun slot => slot.occupant.map (Enclave.unlink id) := rfl
    simp only [teardown_eq h, regions, enclaves, slotsWithout, List.filterMap_map, hocc,
      ← List.map_filterMap, List.flatMap_map, Enclave.regions_unlink]
  rw [hafter]
  have hcleared := (enclaves_set hslot
    ⟨EnclaveId.nextGeneration id.generation, none⟩).flatMap_right Enclave.regions
  exact (regions_perm h).trans (hcleared.symm.append_left _)

/-- The slot that was cleared goes on the stack, which it was not on as long as it was taken. -/
theorem StackSound.teardown (hstack : m.StackSound) (h : m.enclave? id = some e) :
    (m.teardown id).StackSound := by
  have hslot := enclave?_eq_some_iff.mp h
  have hfresh : id.index ∉ m.freeSlots := fun hmem => by
    obtain ⟨generation, hvacant⟩ := hstack.vacant _ hmem
    rw [hslot] at hvacant
    cases hvacant
  rw [teardown_eq h]
  refine ⟨List.nodup_cons.mpr ⟨hfresh, hstack.nodup⟩, ?_⟩
  intro i hi
  simp only [slotsWithout, List.getElem?_map]
  rcases List.mem_cons.mp hi with rfl | hi
  · exact ⟨_, by rw [getElem?_cleared_self h]; rfl⟩
  · obtain ⟨generation, hvacant⟩ := hstack.vacant i hi
    have hne : id.index.toNat ≠ i.toNat := fun h => hfresh (UInt32.toNat_inj.mp h ▸ hi)
    exact ⟨generation, by rw [getElem?_cleared_of_ne hne, hvacant]; rfl⟩

end Monitor

end Enclaves

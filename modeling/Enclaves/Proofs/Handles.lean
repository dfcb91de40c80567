import Enclaves.Monitor.Call
import Enclaves.Proofs.Lending
import Mathlib.Data.List.Perm.Basic

/-!
# The table and its handles

What a change of the table does to every handle, and to the live enclaves as a list. There are three
changes: `put` replaces the enclave behind a handle, `settle` takes a slot for a new one, `teardown`
clears a slot and takes the links to its enclave away from all others.

Handles are looked up, never slots: two handles that reach enclaves in one slot are the same handle,
and a handle has 32 bits for a slot whatever the length of the table. A slot that no handle reaches
takes part in the lists here all the same.
-/

namespace Enclaves

/-- An enclave without its link to one that is gone. -/
def Enclave.unlink (gone : EnclaveId) (e : Enclave) : Enclave :=
  { e with links := e.links.eraseP (·.peer = gone) }

/-- Losing a link is no loss of memory. -/
@[simp] theorem Enclave.regions_unlink (gone : EnclaveId) (e : Enclave) :
    (e.unlink gone).regions = e.regions := rfl

/-- Without a link there is none to lose. -/
theorem Enclave.unlink_of_linkTo?_eq_none {gone : EnclaveId} {e : Enclave}
    (h : e.linkTo? gone = none) : e.unlink gone = e := by
  have hnone : e.links.eraseP (·.peer = gone) = e.links :=
    List.eraseP_of_forall_not (List.find?_eq_none.mp h)
  simp only [unlink, hnone]

/-- A slot after an enclave is gone. -/
def Slot.unlink (gone : EnclaveId) (slot : Slot) : Slot :=
  { slot with occupant := slot.occupant.map (Enclave.unlink gone) }

namespace Monitor

variable {m : Monitor} {id other : EnclaveId} {e f : Enclave}

/-! ## Looking up -/

/-- A handle reaches what its slot holds in its generation. -/
theorem enclave?_eq_some_iff :
    m.enclave? id = some e ↔ m.slots[id.index.toNat]? = some ⟨id.generation, some e⟩ := by
  unfold enclave?
  constructor
  · intro h
    split at h
    · rename_i slot hslot
      split at h
      · rename_i hgen
        rw [hslot, ← h, ← hgen]
      · cases h
    · cases h
  · intro h
    simp [h]

/-- A lookup answers the enclave that the handle reaches. -/
theorem lookup_eq_ok_iff : m.lookup id = .ok e ↔ m.enclave? id = some e := by
  unfold lookup
  split <;> simp_all

/-- A handle that reaches nothing is refused. -/
theorem lookup_of_gone (h : m.enclave? id = none) : m.lookup id = .error (.invalidHandle id) := by
  rw [lookup, h]

/-- A requirement is met by an enclave in the right state, and by nothing else. -/
theorem require_eq_ok_iff {state : EnclaveState} {refusal : Refusal} :
    m.require id state refusal = .ok e ↔ m.enclave? id = some e ∧ e.state = state := by
  unfold require
  constructor
  · intro h
    split at h
    · cases h
    · rename_i hlookup
      split at h
      · rename_i hstate
        cases h
        exact ⟨lookup_eq_ok_iff.mp hlookup, hstate⟩
      · cases h
  · rintro ⟨hlive, hstate⟩
    simp [lookup_eq_ok_iff.mpr hlive, hstate]

/-- Two handles on one slot that both reach an enclave are the same. -/
theorem eq_of_index_eq (h : m.enclave? id = some e) (hother : m.enclave? other = some f)
    (hindex : id.index = other.index) : id = other := by
  rw [enclave?_eq_some_iff] at h hother
  rw [hindex, hother] at h
  simp only [Option.some.injEq, Slot.mk.injEq] at h
  cases id
  cases other
  simp_all

/-- Two live enclaves have different slots. -/
theorem index_toNat_ne (h : m.enclave? id = some e) (hother : m.enclave? other = some f)
    (hne : other ≠ id) : other.index.toNat ≠ id.index.toNat := fun hindex =>
  hne (eq_of_index_eq hother h (UInt32.toNat_inj.mp hindex))

/-! ## Replacing an enclave -/

/-- Writing a record back changes what its own handle reaches, and nothing else. -/
theorem enclave?_put (h : m.enclave? id = some e) (f : Enclave) (other : EnclaveId) :
    (m.put id f).enclave? other = if other = id then some f else m.enclave? other := by
  have hslot := enclave?_eq_some_iff.mp h
  have hlt := (List.getElem?_eq_some_iff.mp hslot).1
  split
  · subst other
    exact enclave?_eq_some_iff.mpr (List.getElem?_set_self hlt)
  · rename_i hne
    simp only [enclave?, put]
    by_cases hindex : other.index = id.index
    · -- the same slot, so another generation: neither reaches anything
      have hgen : id.generation ≠ other.generation := fun hgen => by
        cases other; cases id; simp_all
      rw [hindex, List.getElem?_set_self hlt, hslot]
      simp [hgen]
    · have hne' : id.index.toNat ≠ other.index.toNat := fun h =>
        hindex (UInt32.toNat_inj.mp h).symm
      rw [List.getElem?_set_ne hne']

theorem enclave?_put_self (h : m.enclave? id = some e) (f : Enclave) :
    (m.put id f).enclave? id = some f := by
  rw [enclave?_put h, if_pos rfl]

theorem enclave?_put_of_ne (h : m.enclave? id = some e) (f : Enclave) (hne : other ≠ id) :
    (m.put id f).enclave? other = m.enclave? other := by
  rw [enclave?_put h, if_neg hne]

/-- Putting an enclave where it is changes nothing. -/
theorem put_eq_self (h : m.enclave? id = some e) : m.put id e = m := by
  have hslot := enclave?_eq_some_iff.mp h
  have hlt := (List.getElem?_eq_some_iff.mp hslot).1
  have hset : m.slots.set id.index.toNat ⟨id.generation, some e⟩ = m.slots := by
    rw [← (List.getElem?_eq_some_iff.mp hslot).2, List.set_getElem_self hlt]
  rw [put, hset]

/-- Of two records written to one slot the last one stays. -/
@[simp] theorem put_put (m : Monitor) (id : EnclaveId) (e f : Enclave) :
    (m.put id e).put id f = m.put id f := by
  simp only [put, List.set_set]

/-- What is read off the enclave behind a handle, once one enclave was replaced. -/
theorem elim_enclave?_put {α : Type} (h : m.enclave? id = some e) (f : Enclave) (none : α)
    (read : Enclave → α) (other : EnclaveId) : ((m.put id f).enclave? other).elim none read =
      if other = id then read f else (m.enclave? other).elim none read := by
  rw [enclave?_put h]
  split
  · rfl
  · rfl

/-! ## The live enclaves -/

/-- The live enclaves, slot by slot. -/
def enclaves (m : Monitor) : List Enclave := m.slots.filterMap Slot.occupant

/-- The regions of the live enclaves. -/
def regions (m : Monitor) : List Region := m.enclaves.flatMap Enclave.regions

/-- The enclaves in all slots but one. -/
def enclavesBut (m : Monitor) (index : Nat) : List Enclave :=
  (m.slots.eraseIdx index).filterMap Slot.occupant

/-- The live enclaves after a slot is replaced: the others, and whoever it holds now. -/
theorem enclaves_set {index : Nat} {slot : Slot} (h : m.slots[index]? = some slot) (slot' : Slot) :
    ((m.slots.set index slot').filterMap Slot.occupant).Perm
      (slot'.occupant.toList ++ m.enclavesBut index) := by
  have hperm := (List.set_perm_cons_eraseIdx (List.getElem?_eq_some_iff.mp h).1 slot').filterMap
    Slot.occupant
  cases hocc : slot'.occupant <;> simpa [enclavesBut, hocc] using hperm

/-- The live enclaves, with one slot set apart. -/
theorem enclaves_perm {index : Nat} {slot : Slot} (h : m.slots[index]? = some slot) :
    m.enclaves.Perm (slot.occupant.toList ++ m.enclavesBut index) := by
  have hset := enclaves_set h slot
  obtain ⟨hlt, rfl⟩ := List.getElem?_eq_some_iff.mp h
  rwa [List.set_getElem_self] at hset

/-- Other handles reach other slots. -/
theorem mem_enclavesBut (h : m.enclave? id = some e) (hother : m.enclave? other = some f)
    (hne : other ≠ id) : f ∈ m.enclavesBut id.index.toNat := by
  refine List.mem_filterMap.mpr ⟨⟨other.generation, some f⟩, ?_, rfl⟩
  exact List.mem_eraseIdx_iff_getElem?.mpr
    ⟨_, index_toNat_ne h hother hne, enclave?_eq_some_iff.mp hother⟩

/-- The memory that is out, with that of one enclave set apart. -/
theorem regions_perm (h : m.enclave? id = some e) :
    m.regions.Perm (e.regions ++ (m.enclavesBut id.index.toNat).flatMap Enclave.regions) :=
  (enclaves_perm (enclave?_eq_some_iff.mp h)).flatMap_right _

/-- Writing a record back replaces its memory, and no other. -/
theorem regions_put (h : m.enclave? id = some e) (f : Enclave) :
    (m.put id f).regions.Perm
      (f.regions ++ (m.enclavesBut id.index.toNat).flatMap Enclave.regions) :=
  (enclaves_set (enclave?_eq_some_iff.mp h) ⟨id.generation, some f⟩).flatMap_right _

/-! ## Taking a slot -/

/-- The stack of cleared slots: all empty, none twice. -/
structure StackSound (m : Monitor) : Prop where
  nodup : m.freeSlots.Nodup
  vacant : ∀ index ∈ m.freeSlots, ∃ generation, m.slots[index.toNat]? = some ⟨generation, none⟩

/-- The slot for a new enclave is a cleared one or a new one at the end. -/
theorem settle_cases (hstack : m.StackSound) (e : Enclave) :
    (∃ index generation rest, m.freeSlots = index :: rest ∧
      m.slots[index.toNat]? = some ⟨generation, none⟩ ∧
      m.settle e = (⟨index, generation⟩,
        { m with slots := m.slots.set index.toNat ⟨generation, some e⟩, freeSlots := rest })) ∨
    (m.freeSlots = [] ∧ m.settle e = (⟨.ofNat m.slots.length, EnclaveId.firstGeneration⟩,
      { m with slots := m.slots ++ [⟨EnclaveId.firstGeneration, some e⟩] })) := by
  unfold settle
  split
  · rename_i index rest hfree
    obtain ⟨generation, hvacant⟩ := hstack.vacant index (by simp [hfree])
    refine .inl ⟨index, generation, rest, hfree, hvacant, ?_⟩
    simp [hvacant, put]
  · rename_i hfree
    exact .inr ⟨hfree, rfl⟩

theorem config_settle (m : Monitor) (e : Enclave) : (m.settle e).2.config = m.config := by
  unfold settle
  split <;> rfl

theorem identity_settle (m : Monitor) (e : Enclave) : (m.settle e).2.identity = m.identity := by
  unfold settle
  split <;> rfl

theorem platform_settle (m : Monitor) (e : Enclave) : (m.settle e).2.platform = m.platform := by
  unfold settle
  split <;> rfl

theorem mailboxes_settle (m : Monitor) (e : Enclave) :
    (m.settle e).2.mailboxes = m.mailboxes := by
  unfold settle
  split <;> rfl

/-- A new enclave has had its pages reserved before, so it takes none on settling. -/
theorem pages_settle (hstack : m.StackSound) (e : Enclave) : (m.settle e).2.pages = m.pages := by
  rcases settle_cases hstack e with ⟨_, _, _, -, -, hsettle⟩ | ⟨-, hsettle⟩ <;> rw [hsettle]

/-- A new enclave is behind at most one handle, which reached nothing before. -/
theorem enclave?_settle (hstack : m.StackSound) (e : Enclave) (other : EnclaveId) :
    (m.settle e).2.enclave? other = m.enclave? other ∨
      m.enclave? other = none ∧ (m.settle e).2.enclave? other = some e := by
  rcases settle_cases hstack e with ⟨index, generation, rest, -, hvacant, hsettle⟩ | ⟨-, hsettle⟩
  · have hlt := (List.getElem?_eq_some_iff.mp hvacant).1
    simp only [hsettle, enclave?]
    by_cases hindex : index.toNat = other.index.toNat
    · rw [← hindex, List.getElem?_set_self hlt, hvacant]
      by_cases hgen : generation = other.generation <;> simp [hgen]
    · rw [List.getElem?_set_ne hindex]
      exact .inl rfl
  · simp only [hsettle, enclave?]
    rcases Nat.lt_trichotomy other.index.toNat m.slots.length with hlt | heq | hgt
    · rw [List.getElem?_append_left hlt]
      exact .inl rfl
    · rw [heq, List.getElem?_concat_length, List.getElem?_eq_none (Nat.le_refl _)]
      by_cases hgen : EnclaveId.firstGeneration = other.generation <;> simp [hgen]
    · have hbeyond : (m.slots ++ [(⟨EnclaveId.firstGeneration, some e⟩ : Slot)]).length ≤
          other.index.toNat := by
        rw [List.length_append]
        exact hgt
      rw [List.getElem?_eq_none hbeyond, List.getElem?_eq_none (Nat.le_of_lt hgt)]
      exact .inl rfl

/-- Who lives stays where it is when another one settles. -/
theorem enclave?_settle_of_live (hstack : m.StackSound) (h : m.enclave? id = some f) (e : Enclave) :
    (m.settle e).2.enclave? id = some f := by
  rcases enclave?_settle hstack e id with hsame | ⟨hnone, -⟩
  · rw [hsame, h]
  · rw [h] at hnone
    cases hnone

/-- What a new enclave has not is read off as before. -/
theorem elim_enclave?_settle {α : Type} (hstack : m.StackSound) {none : α} {read : Enclave → α}
    (h : read e = none) (id : EnclaveId) :
    ((m.settle e).2.enclave? id).elim none read = (m.enclave? id).elim none read := by
  rcases enclave?_settle hstack e id with hsame | ⟨hnone, hnew⟩
  · rw [hsame]
  · rw [hnew, hnone, Option.elim_some, Option.elim_none, h]

/-- A new enclave brings its memory along. -/
theorem regions_settle (hstack : m.StackSound) (e : Enclave) :
    (m.settle e).2.regions.Perm (e.regions ++ m.regions) := by
  rcases settle_cases hstack e with ⟨index, generation, rest, -, hvacant, hsettle⟩ | ⟨-, hsettle⟩
  · have hafter := (enclaves_set hvacant ⟨generation, some e⟩).flatMap_right Enclave.regions
    have hbefore := (enclaves_perm hvacant).flatMap_right Enclave.regions
    rw [hsettle]
    exact hafter.trans (hbefore.symm.append_left e.regions)
  · have : (m.settle e).2.regions = m.regions ++ e.regions := by
      simp [hsettle, regions, enclaves]
    rw [this]
    exact List.perm_append_comm

/-- Taking the top of the stack, or adding a slot at the end, keeps the stack sound. -/
theorem StackSound.settle (hstack : m.StackSound) (e : Enclave) : (m.settle e).2.StackSound := by
  rcases settle_cases hstack e with
    ⟨index, generation, rest, hfree, hvacant, hsettle⟩ | ⟨hfree, hsettle⟩
  · have hnodup := hstack.nodup
    rw [hfree, List.nodup_cons] at hnodup
    rw [hsettle]
    refine ⟨hnodup.2, ?_⟩
    intro i hi
    have hne : index.toNat ≠ i.toNat := fun h => hnodup.1 (UInt32.toNat_inj.mp h ▸ hi)
    rw [List.getElem?_set_ne hne]
    exact hstack.vacant i (by simp [hfree, hi])
  · rw [hsettle]
    refine ⟨hstack.nodup, ?_⟩
    intro i hi
    simp [hfree] at hi

/-- Writing a record back leaves its slot taken. -/
theorem StackSound.put (hstack : m.StackSound) (h : m.enclave? id = some e) (f : Enclave) :
    (m.put id f).StackSound := by
  refine ⟨hstack.nodup, ?_⟩
  intro i hi
  obtain ⟨generation, hvacant⟩ := hstack.vacant i hi
  have hne : id.index.toNat ≠ i.toNat := fun hindex => by
    rw [enclave?_eq_some_iff, hindex, hvacant] at h
    cases h
  exact ⟨generation, by rw [Monitor.put, List.getElem?_set_ne hne, hvacant]⟩

end Monitor

end Enclaves

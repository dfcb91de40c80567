import Enclaves.Proofs.Preparation
import Mathlib.Logic.Function.Iterate

/-!
# Slots and generations

What handles see of the table is its register: for each slot the generation, and whether the slot is
taken. An act leaves the register alone, or it takes a slot, or it clears one (`Turnover`).

A generation counts how often its slot was cleared, as long as the word for it does not run over,
and a slot is only added while all others are taken, so that there are as many slots as enclaves
were ever live together (`Numbered`). Under these two bounds a handle that once reached an enclave
is never behind its slot: either it reaches that enclave, or the slot has a later generation
(`Known`), and no act takes that back (`Known.step`).
-/

namespace Enclaves

namespace EnclaveId

/-- After the last generation comes the first. -/
theorem toNat_nextGeneration_mod (generation : UInt32) :
    (nextGeneration generation).toNat = generation.toNat % (UInt32.size - 1) + 1 := by
  have hlt := generation.toNat_lt
  have hadd : (generation + 1).toNat = (generation.toNat + 1) % UInt32.size :=
    UInt32.toNat_add generation 1
  simp only [UInt32.size] at hadd ⊢
  rw [nextGeneration]
  split
  · rename_i hzero
    rw [hzero] at hadd
    have hlast : generation.toNat = 4294967295 := by
      change 0 = _ at hadd
      omega
    rw [hlast]
    rfl
  · rename_i hne
    have hne : (generation + 1).toNat ≠ 0 := fun hzero => hne (UInt32.toNat_inj.mp hzero)
    omega

/-- The generation after another one, if the word has room for it. -/
theorem toNat_nextGeneration {generation : UInt32} (h : generation.toNat + 1 < UInt32.size) :
    (nextGeneration generation).toNat = generation.toNat + 1 := by
  rw [toNat_nextGeneration_mod, Nat.mod_eq_of_lt (Nat.lt_sub_of_add_lt h)]

/-- How far the generations of a slot have come when it was cleared some number of times. -/
theorem toNat_iterate (n : Nat) :
    (nextGeneration^[n] firstGeneration).toNat = n % (UInt32.size - 1) + 1 := by
  induction n with
  | zero => rfl
  | succ n ih =>
    rw [Function.iterate_succ_apply', toNat_nextGeneration_mod, ih, Nat.mod_add_mod]

/-- The generations of a slot start over. -/
theorem iterate_round : nextGeneration^[UInt32.size - 1] firstGeneration = firstGeneration := by
  apply UInt32.toNat_inj.mp
  rw [toNat_iterate, Nat.mod_self]
  rfl

end EnclaveId

/-- A slot as handles see it: the generation, and whether it is taken. -/
def Slot.sign (slot : Slot) : UInt32 × Bool := (slot.generation, slot.occupant.isSome)

namespace Monitor

variable {m m' : Monitor} {act : Act} {id : EnclaveId} {e : Enclave} {index : UInt32}
  {generation : UInt32}

/-- The table as handles see it. -/
def register (m : Monitor) : List (UInt32 × Bool) := m.slots.map Slot.sign

/-- The register of a place, in terms of its slot. -/
theorem register_eq_some_iff {i : Nat} {taken : Bool} : m.register[i]? = some (generation, taken) ↔
    ∃ occupant, m.slots[i]? = some ⟨generation, occupant⟩ ∧ occupant.isSome = taken := by
  rw [register, List.getElem?_map, Option.map_eq_some_iff]
  constructor
  · rintro ⟨⟨generation, occupant⟩, hslot, hsign⟩
    cases hsign
    exact ⟨occupant, hslot, rfl⟩
  · rintro ⟨occupant, hslot, rfl⟩
    exact ⟨_, hslot, rfl⟩

/-- A handle reaches an enclave if its slot is taken in its generation. -/
theorem isSome_enclave?_iff :
    (m.enclave? id).isSome = true ↔ m.register[id.index.toNat]? = some (id.generation, true) := by
  rw [register_eq_some_iff, Option.isSome_iff_exists]
  constructor
  · rintro ⟨e, hlive⟩
    exact ⟨some e, enclave?_eq_some_iff.mp hlive, rfl⟩
  · rintro ⟨occupant, hslot, htaken⟩
    obtain ⟨e, rfl⟩ := Option.isSome_iff_exists.mp htaken
    exact ⟨e, enclave?_eq_some_iff.mpr hslot⟩

/-- The enclaves that live are the slots that are taken. -/
theorem count_eq_register (m : Monitor) : m.count = m.register.countP Prod.snd := by
  rw [count, register, List.countP_map]
  rfl

/-! ## Taking and clearing -/

/-- A slot is taken, and this is the handle for it: the slot on top of the stack of cleared ones, or
a new one at the end if the stack is empty. -/
inductive Takes (m m' : Monitor) (id : EnclaveId) : Prop
  | again (rest : List UInt32) (hfree : m.freeSlots = id.index :: rest)
      (hvacant : m.register[id.index.toNat]? = some (id.generation, false))
      (hregister : m'.register = m.register.set id.index.toNat (id.generation, true))
      (hrest : m'.freeSlots = rest)
  | first (hfree : m.freeSlots = [])
      (hid : id = ⟨.ofNat m.register.length, EnclaveId.firstGeneration⟩)
      (hregister : m'.register = m.register ++ [(id.generation, true)]) (hrest : m'.freeSlots = [])

/-- What an act does to the register. -/
inductive Turnover (m m' : Monitor) : Prop
  | same (hregister : m'.register = m.register) (hfree : m'.freeSlots = m.freeSlots)
  | take (id : EnclaveId) (htakes : m.Takes m' id)
  | clear (id : EnclaveId) (hlive : m.register[id.index.toNat]? = some (id.generation, true))
      (hregister : m'.register =
        m.register.set id.index.toNat (EnclaveId.nextGeneration id.generation, false))
      (hfree : m'.freeSlots = id.index :: m.freeSlots)

/-- Writing a record back changes no sign. -/
theorem register_put (h : m.enclave? id = some e) (f : Enclave) :
    (m.put id f).register = m.register := by
  have hplace : m.register[id.index.toNat]? = some (id.generation, true) :=
    isSome_enclave?_iff.mp (by rw [h]; rfl)
  obtain ⟨hlt, hget⟩ := List.getElem?_eq_some_iff.mp hplace
  have hset : (m.put id f).register = m.register.set id.index.toNat (id.generation, true) := by
    simp only [register, put, List.map_set, Slot.sign, Option.isSome_some]
  rw [hset, ← hget, List.set_getElem_self]

/-- An enclave that settles takes the slot on top of the free list, or a new one at the end. -/
theorem takes_settle (hstack : m.StackSound) (e : Enclave) :
    m.Takes (m.settle e).2 (m.settle e).1 := by
  rcases settle_cases hstack e with ⟨index, generation, rest, hfree, hvacant, hsettle⟩ |
    ⟨hfree, hsettle⟩
  · rw [hsettle]
    refine .again rest hfree (register_eq_some_iff.mpr ⟨none, hvacant, rfl⟩) ?_ rfl
    simp only [register, List.map_set, Slot.sign, Option.isSome_some]
  · rw [hsettle]
    refine .first hfree (by simp [register]) ?_ hfree
    simp [register, Slot.sign]

/-- So does an enclave that is enrolled. -/
theorem takes_enroll (hstack : m.StackSound) (exclusive : Region)
    (untrusted connector : Option Region) (pages : PageAllocator) :
    m.Takes (m.enroll exclusive untrusted connector pages).2
      (m.enroll exclusive untrusted connector pages).1 := by
  cases takes_settle (hstack.supply pages (m.newcomer exclusive untrusted connector))
    (m.newcomer exclusive untrusted connector) with
  | again rest hfree hvacant hregister hrest => exact .again rest hfree hvacant hregister hrest
  | first hfree hid hregister hrest => exact .first hfree hid hregister hrest

/-- A handle that an allocation answers is the one for the slot that was taken. -/
theorem takes_of_allocated {minPages : Nat} (hstack : m.StackSound)
    (h : (m.step (.allocate minPages)).1 = .ok (.allocated id)) :
    m.Takes (m.step (.allocate minPages)).2 id := by
  obtain ⟨exclusive, untrusted, connector, pages, rfl, hafter⟩ := enroll_of_allocated h
  rw [hafter]
  exact takes_enroll hstack exclusive untrusted connector pages

/-- A teardown vacates one slot and moves it to its next generation. -/
theorem register_teardown (h : m.enclave? id = some e) : (m.teardown id).register =
    m.register.set id.index.toNat (EnclaveId.nextGeneration id.generation, false) := by
  have hsign : Slot.sign ∘ Slot.unlink id = Slot.sign := by
    funext slot
    simp [Slot.sign, Slot.unlink]
  rw [teardown_eq h]
  simp only [register, slotsWithout, cleared, List.map_map, hsign, List.map_set]
  rfl

/-- Every act takes one slot, clears one or leaves the register as it is. -/
theorem turnover_of_effect (hstack : m.StackSound) (h : m.Effect act m') : m.Turnover m' := by
  cases h with
  | idle => exact .same rfl rfl
  | around => exact .same rfl rfl
  | short => exact .same rfl rfl
  | enroll => exact .take _ (takes_enroll hstack _ _ _ _)
  | update hlive => exact .same (register_put hlive _) rfl
  | @remove _ id e entries hlive =>
    refine .clear id (isSome_enclave?_iff.mp (by rw [hlive]; rfl)) (register_teardown hlive) ?_
    show (m.teardown id).freeSlots = _
    rw [teardown_eq hlive]
  | retract => exact .same rfl rfl
  | @meet event sideA sideB eA eB hne hA hB =>
    have hB' := (enclave?_put_of_ne hA.live (eA.meet event sideA sideB) hne.symm).trans hB.live
    exact .same ((register_put hB' _).trans (register_put hA.live _)) rfl

/-! ## Counting -/

/-- Whether the slot in some place is taken. -/
def taken (m : Monitor) (i : Nat) : Bool := m.slots[i]?.any (·.occupant.isSome)

/-- Whether the slot in some place is cleared from one monitor to the next. -/
def clears (m m' : Monitor) (i : Nat) : Bool := m.taken i && !m'.taken i

/-- Whether a slot is taken, read off the register. -/
theorem taken_eq (m : Monitor) (i : Nat) : m.taken i = m.register[i]?.any Prod.snd := by
  rw [taken, register, List.getElem?_map, Option.any_map]
  rfl

/-- A place whose sign stays is not cleared. -/
theorem clears_of_same {i : Nat} (h : m'.register[i]? = m.register[i]?) :
    m.clears m' i = false := by
  rw [clears, taken_eq, taken_eq, h, Bool.and_not_self]

/-- A place that was taken and is marked as vacant is cleared. -/
theorem clears_of_set {i : Nat} {sign : UInt32} (hlive : m.register[i]? = some (generation, true))
    (hregister : m'.register = m.register.set i (sign, false)) : m.clears m' i = true := by
  have hafter : m'.register[i]? = some (sign, false) := by
    rw [hregister, List.getElem?_set_self (List.getElem?_eq_some_iff.mp hlive).1]
  rw [clears, taken_eq, taken_eq, hlive, hafter]
  rfl

/-- Taking a slot clears none. -/
theorem Takes.clears_eq (h : m.Takes m' id) (i : Nat) : m.clears m' i = false := by
  cases h with
  | again rest _ hvacant hregister _ =>
    by_cases hi : id.index.toNat = i
    · rw [clears, taken_eq, ← hi, hvacant]
      rfl
    · exact clears_of_same (by rw [hregister, List.getElem?_set_ne hi])
  | first _ _ hregister _ =>
    by_cases hi : i < m.register.length
    · exact clears_of_same (by rw [hregister, List.getElem?_append_left hi])
    · rw [clears, taken_eq, List.getElem?_eq_none (Nat.not_lt.mp hi)]
      rfl

/-- Every vacant slot is on the stack. -/
def Stacked (m : Monitor) : Prop :=
  ∀ i generation, m.register[i]? = some (generation, false) → ∃ index ∈ m.freeSlots, index.toNat = i

namespace Stacked

/-- A slot that is taken again leaves the free list, and one that is added never was on it. -/
theorem take (h : m.Stacked) (htakes : m.Takes m' id) : m'.Stacked := by
  intro i generation hget
  cases htakes with
  | again rest hfree hvacant hregister hrest =>
    have hi : id.index.toNat ≠ i := by
      rintro rfl
      rw [hregister, List.getElem?_set_self (List.getElem?_eq_some_iff.mp hvacant).1] at hget
      cases hget
    rw [hregister, List.getElem?_set_ne hi] at hget
    obtain ⟨index, hindex, hplace⟩ := h i generation hget
    rw [hfree] at hindex
    obtain rfl | hindex := List.mem_cons.mp hindex
    · exact absurd hplace hi
    · exact ⟨index, hrest ▸ hindex, hplace⟩
  | first hfree _ hregister _ =>
    rw [hregister, List.getElem?_append] at hget
    split at hget
    · obtain ⟨index, hindex, -⟩ := h i generation hget
      rw [hfree] at hindex
      cases hindex
    · obtain ⟨_, hsign⟩ := List.getElem?_eq_some_iff.mp hget
      rw [List.getElem_singleton] at hsign
      cases hsign

/-- A slot that is cleared is put on the free list. -/
theorem clear (h : m.Stacked) {sign : UInt32 × Bool}
    (hregister : m'.register = m.register.set index.toNat sign)
    (hfree : m'.freeSlots = index :: m.freeSlots) : m'.Stacked := by
  intro i generation hget
  rw [hfree]
  by_cases hi : index.toNat = i
  · exact ⟨index, List.mem_cons_self, hi⟩
  · rw [hregister, List.getElem?_set_ne hi] at hget
    obtain ⟨other, hother, hplace⟩ := h i generation hget
    exact ⟨other, List.mem_cons_of_mem _ hother, hplace⟩

/-- Words may run over, no act takes a vacant slot off the stack. -/
theorem step (h : m.Stacked) (hturnover : m.Turnover m') : m'.Stacked := by
  cases hturnover with
  | same hregister hfree =>
    intro i generation hget
    rw [hfree]
    exact h i generation (hregister ▸ hget)
  | take id htakes => exact h.take htakes
  | clear id _ hregister hfree => exact h.clear hregister hfree

/-- A slot is only added while all others are taken. -/
theorem length_eq_count (h : m.Stacked) (hfree : m.freeSlots = []) :
    m.register.length = m.count := by
  rw [count_eq_register, eq_comm, List.countP_eq_length]
  rintro ⟨generation, taken⟩ hmem
  obtain ⟨i, hget⟩ := List.mem_iff_getElem?.mp hmem
  cases taken with
  | true => rfl
  | false =>
    obtain ⟨index, hindex, -⟩ := h i generation hget
    rw [hfree] at hindex
    cases hindex

end Stacked

/-- The table with its generations as they should be: every vacant slot is on the stack, each
generation says how often its slot was cleared, and there are no more slots than indices. -/
structure Numbered (m : Monitor) (cleared : Nat → Nat) : Prop where
  stacked : ∀ {i generation}, m.register[i]? = some (generation, false) →
    ∃ index ∈ m.freeSlots, index.toNat = i
  generation_eq : ∀ {i generation taken}, m.register[i]? = some (generation, taken) →
    generation.toNat = cleared i + 1
  unused : ∀ {i}, m.register.length ≤ i → cleared i = 0
  length_le : m.register.length ≤ UInt32.size

namespace Numbered

variable {cleared cleared' : Nat → Nat}

/-- The place of a slot that is added fits an index. -/
theorem index_eq_length (h : m'.Numbered cleared) {sign : UInt32 × Bool}
    (hid : id = ⟨.ofNat m.register.length, EnclaveId.firstGeneration⟩)
    (hregister : m'.register = m.register ++ [sign]) : id.index.toNat = m.register.length := by
  have hle := h.length_le
  rw [hregister, List.length_append, List.length_singleton] at hle
  rw [hid]
  exact UInt32.toNat_ofNat_of_lt' hle

/-- Slots that are numbered are stacked. -/
theorem all_stacked (h : m.Numbered cleared) : m.Stacked := fun _ _ => h.stacked

theorem take (h : m.Numbered cleared) (htakes : m.Takes m' id) (hcount : m'.count ≤ UInt32.size) :
    m'.Numbered cleared := by
  have hstacked := h.all_stacked.take htakes
  cases htakes with
  | again rest hfree hvacant hregister hrest =>
    have hlt := (List.getElem?_eq_some_iff.mp hvacant).1
    refine ⟨fun {i generation} => hstacked i generation, ?_, ?_, ?_⟩
    · intro i generation taken hget
      by_cases hi : id.index.toNat = i
      · subst hi
        rw [hregister, List.getElem?_set_self hlt] at hget
        cases hget
        exact h.generation_eq hvacant
      · rw [hregister, List.getElem?_set_ne hi] at hget
        exact h.generation_eq hget
    · intro i hi
      rw [hregister, List.length_set] at hi
      exact h.unused hi
    · rw [hregister, List.length_set]
      exact h.length_le
  | first hfree hid hregister hrest =>
    have hlength : m'.register.length = m'.count := by
      rw [count_eq_register, hregister, List.countP_append, List.length_append,
        h.all_stacked.length_eq_count hfree, count_eq_register]
      rfl
    refine ⟨fun {i generation} => hstacked i generation, ?_, ?_, by rw [hlength]; exact hcount⟩
    · intro i generation taken hget
      rw [hregister, List.getElem?_append] at hget
      split at hget
      · exact h.generation_eq hget
      · rename_i hi
        obtain ⟨_, hsign⟩ := List.getElem?_eq_some_iff.mp hget
        rw [List.getElem_singleton] at hsign
        cases hsign
        rw [h.unused (Nat.not_lt.mp hi), hid]
        rfl
    · intro i hi
      rw [hregister, List.length_append] at hi
      exact h.unused (Nat.le_trans (Nat.le_add_right _ _) hi)

theorem clear (h : m.Numbered cleared)
    (hlive : m.register[id.index.toNat]? = some (id.generation, true))
    (hregister : m'.register =
      m.register.set id.index.toNat (EnclaveId.nextGeneration id.generation, false))
    (hfree : m'.freeSlots = id.index :: m.freeSlots)
    (hcleared : ∀ i, cleared' i = cleared i + if m.clears m' i then 1 else 0)
    (hbound : ∀ i, cleared' i + 1 < UInt32.size) : m'.Numbered cleared' := by
  have hlt := (List.getElem?_eq_some_iff.mp hlive).1
  have hother {i : Nat} (hi : id.index.toNat ≠ i) : m'.register[i]? = m.register[i]? := by
    rw [hregister, List.getElem?_set_ne hi]
  have hself : m'.register[id.index.toNat]? =
      some (EnclaveId.nextGeneration id.generation, false) := by
    rw [hregister, List.getElem?_set_self hlt]
  have hone : cleared' id.index.toNat = cleared id.index.toNat + 1 := by
    rw [hcleared, clears_of_set hlive hregister, if_pos rfl]
  have hsame {i : Nat} (hi : id.index.toNat ≠ i) : cleared' i = cleared i := by
    rw [hcleared, clears_of_same (hother hi)]
    rfl
  refine ⟨fun {i generation} => h.all_stacked.clear hregister hfree i generation, ?_, ?_, ?_⟩
  · intro i generation taken hget
    by_cases hi : id.index.toNat = i
    · subst hi
      rw [hself] at hget
      cases hget
      have hgeneration := h.generation_eq hlive
      have hroom := hbound id.index.toNat
      rw [EnclaveId.toNat_nextGeneration (by omega), hone, hgeneration]
    · rw [hother hi] at hget
      rw [hsame hi]
      exact h.generation_eq hget
  · intro i hi
    rw [hregister, List.length_set] at hi
    rw [hsame (by omega)]
    exact h.unused hi
  · rw [hregister, List.length_set]
    exact h.length_le

/-- An act keeps the table numbered, unless a word runs over. -/
theorem step (h : m.Numbered cleared) (hturnover : m.Turnover m')
    (hcount : m'.count ≤ UInt32.size)
    (hcleared : ∀ i, cleared' i = cleared i + if m.clears m' i then 1 else 0)
    (hbound : ∀ i, cleared' i + 1 < UInt32.size) : m'.Numbered cleared' := by
  cases hturnover with
  | same hregister hfree =>
    have hsame : cleared' = cleared := by
      funext i
      rw [hcleared, clears_of_same (by rw [hregister])]
      rfl
    rw [hsame]
    refine ⟨?_, ?_, ?_, ?_⟩
    · rw [hregister, hfree]
      exact h.stacked
    · rw [hregister]
      exact h.generation_eq
    · rw [hregister]
      exact h.unused
    · rw [hregister]
      exact h.length_le
  | take id htakes =>
    have hsame : cleared' = cleared := by
      funext i
      rw [hcleared, htakes.clears_eq i]
      rfl
    rw [hsame]
    exact h.take htakes hcount
  | clear id hlive hregister hfree => exact h.clear hlive hregister hfree hcleared hbound

end Numbered

/-! ## Handles that once reached an enclave -/

/-- A handle that reaches an enclave, or whose slot has a later generation. -/
def Known (m : Monitor) (id : EnclaveId) : Prop :=
  ∃ generation taken, m.register[id.index.toNat]? = some (generation, taken) ∧
    (id.generation.toNat < generation.toNat ∨ generation = id.generation ∧ taken = true)

/-- The handle of a live enclave is known. -/
theorem known_of_live (h : (m.enclave? id).isSome = true) : m.Known id :=
  ⟨id.generation, true, isSome_enclave?_iff.mp h, .inr ⟨rfl, rfl⟩⟩

/-- The handle for a slot that was taken reaches the new enclave. -/
theorem Takes.live {cleared : Nat → Nat} (h : m.Takes m' id) (hnumbered : m'.Numbered cleared) :
    (m'.enclave? id).isSome = true := by
  rw [isSome_enclave?_iff]
  cases h with
  | again rest _ hvacant hregister _ =>
    rw [hregister, List.getElem?_set_self (List.getElem?_eq_some_iff.mp hvacant).1]
  | first _ hid hregister _ =>
    rw [hregister, hnumbered.index_eq_length hid hregister, List.getElem?_concat_length]

/-- The handle for a slot that is taken never reached anything. -/
theorem Takes.not_known {cleared : Nat → Nat} (h : m.Takes m' id)
    (hnumbered : m'.Numbered cleared) : ¬ m.Known id := by
  rintro ⟨generation, taken, hget, hlater⟩
  cases h with
  | again rest _ hvacant _ _ =>
    rw [hvacant] at hget
    cases hget
    obtain hlt | ⟨-, htaken⟩ := hlater
    · exact Nat.lt_irrefl _ hlt
    · cases htaken
  | first _ hid hregister _ =>
    rw [hnumbered.index_eq_length hid hregister, List.getElem?_eq_none (Nat.le_refl _)] at hget
    cases hget

namespace Known

variable {cleared cleared' : Nat → Nat}

/-- A handle stays known as long as its place stays as it is. -/
theorem of_register_eq (h : m.Known id)
    (hregister : m'.register[id.index.toNat]? = m.register[id.index.toNat]?) : m'.Known id := by
  obtain ⟨generation, taken, hget, hlater⟩ := h
  exact ⟨generation, taken, hregister.trans hget, hlater⟩

/-- No act takes that back, unless a word runs over. -/
theorem step (h : m.Known id) (hnumbered : m.Numbered cleared) (hturnover : m.Turnover m')
    (hcleared : ∀ i, cleared' i = cleared i + if m.clears m' i then 1 else 0)
    (hbound : ∀ i, cleared' i + 1 < UInt32.size) : m'.Known id := by
  cases hturnover with
  | same hregister _ => exact h.of_register_eq (by rw [hregister])
  | take other htakes =>
    cases htakes with
    | again rest _ hvacant hregister _ =>
      by_cases hindex : other.index.toNat = id.index.toNat
      · -- the slot was vacant, so its generation had moved on, and it keeps that one
        obtain ⟨generation, taken, hget, hlater⟩ := h
        rw [← hindex, hvacant] at hget
        cases hget
        refine ⟨other.generation, true, ?_, ?_⟩
        · rw [hregister, ← hindex, List.getElem?_set_self (List.getElem?_eq_some_iff.mp hvacant).1]
        · exact hlater.imp_right fun hsame => ⟨hsame.1, rfl⟩
      · exact h.of_register_eq (by rw [hregister, List.getElem?_set_ne hindex])
    | first _ _ hregister _ =>
      obtain ⟨generation, taken, hget, hlater⟩ := h
      have hlt := (List.getElem?_eq_some_iff.mp hget).1
      exact ⟨generation, taken, by rw [hregister, List.getElem?_append_left hlt, hget], hlater⟩
  | clear other hlive hregister _ =>
    by_cases hindex : other.index.toNat = id.index.toNat
    · obtain ⟨generation, taken, hget, hlater⟩ := h
      rw [← hindex, hlive] at hget
      cases hget
      have hself : m'.register[other.index.toNat]? =
          some (EnclaveId.nextGeneration other.generation, false) := by
        rw [hregister, List.getElem?_set_self (List.getElem?_eq_some_iff.mp hlive).1]
      have hgeneration := hnumbered.generation_eq hlive
      have hroom := hbound other.index.toNat
      rw [hcleared, clears_of_set hlive hregister, if_pos rfl] at hroom
      refine ⟨_, false, hindex ▸ hself, .inl ?_⟩
      rw [EnclaveId.toNat_nextGeneration (by omega)]
      obtain hlt | ⟨hsame, -⟩ := hlater
      · omega
      · rw [hsame]
        omega
    · exact h.of_register_eq (by rw [hregister, List.getElem?_set_ne hindex])

end Known

/-! ## Runs -/

/-- How often the slot in some place was cleared before some moment of a run. -/
def departures (m : Monitor) (acts : List Act) (i moment : Nat) : Nat :=
  (List.range moment).countP fun t => (m.upTo acts t).clears (m.upTo acts (t + 1)) i

/-- One more act adds the departure that it brings about. -/
theorem departures_succ (m : Monitor) (acts : List Act) (i moment : Nat) :
    m.departures acts i (moment + 1) = m.departures acts i moment +
      if (m.upTo acts moment).clears (m.upTo acts (moment + 1)) i then 1 else 0 := by
  rw [departures, departures, List.range_succ, List.countP_append, List.countP_singleton]

/-- Departures only become more. -/
theorem departures_mono (m : Monitor) (acts : List Act) (i : Nat) {moment later : Nat}
    (h : moment ≤ later) : m.departures acts i moment ≤ m.departures acts i later := by
  induction h with
  | refl => exact Nat.le_refl _
  | step _ ih =>
    rw [departures_succ]
    exact Nat.le_trans ih (Nat.le_add_right _ _)

/-- A run in which neither word runs over: never are more enclaves live than there are indices, and
no slot is cleared so often that its generation starts over. -/
structure Bounded (m : Monitor) (acts : List Act) : Prop where
  count_le : ∀ moment, (m.upTo acts moment).count ≤ UInt32.size
  departures_lt : ∀ i moment, m.departures acts i moment + 1 < UInt32.size

section Run

variable {config : Config} {platform : Platform} {identity : Identity} {acts : List Act}
  {moment : Nat}

/-- From one moment to the next there is one turnover. -/
theorem turnover_upTo (hmemory : MemorySound config m) (acts : List Act) (moment : Nat) :
    (m.upTo acts moment).Turnover (m.upTo acts (moment + 1)) := by
  rcases m.upTo_succ_cases acts moment with ⟨act, -, hsucc⟩ | hover
  · rw [hsucc]
    exact turnover_of_effect (hmemory.perform _).stack (effect_act _ act)
  · rw [hover]
    exact .same rfl rfl

/-- At the start there are no slots. -/
theorem register_start (hstart : Monitor.start config platform identity = .ok m) :
    m.register = [] := by
  unfold Monitor.start at hstart
  split at hstart
  · cases hstart
  · cases hstart
    rfl

/-- In a run that stays inside the two words, generations count the departures. -/
theorem numbered_upTo (hstart : Monitor.start config platform identity = .ok m)
    (hbounded : m.Bounded acts) (moment : Nat) :
    (m.upTo acts moment).Numbered (m.departures acts · moment) := by
  induction moment with
  | zero =>
    have hempty : (m.upTo acts 0).register = [] := register_start hstart
    refine ⟨?_, ?_, fun _ => rfl, ?_⟩
    · intro i generation hget
      rw [hempty] at hget
      cases hget
    · intro i generation taken hget
      rw [hempty] at hget
      cases hget
    · rw [hempty]
      exact Nat.zero_le _
  | succ moment ih =>
    exact ih.step (turnover_upTo (.start hstart) acts moment) (hbounded.count_le _)
      (m.departures_succ acts · moment) (hbounded.departures_lt · _)

/-- What a handle once reached, it reaches later, or its slot has gone on. -/
theorem known_upTo (hstart : Monitor.start config platform identity = .ok m)
    (hbounded : m.Bounded acts) {earlier : Nat} (h : (m.upTo acts earlier).Known id)
    (hle : earlier ≤ moment) : (m.upTo acts moment).Known id := by
  induction hle with
  | refl => exact h
  | @step moment _ ih =>
    exact ih.step (numbered_upTo hstart hbounded moment)
      (turnover_upTo (.start hstart) acts moment) (m.departures_succ acts · moment)
      (hbounded.departures_lt · _)

/-- The slot of a handle that reaches nothing any more has gone on, and does not come back. -/
theorem gone_upTo (hstart : Monitor.start config platform identity = .ok m)
    (hbounded : m.Bounded acts) {gone : Nat} (hknown : (m.upTo acts gone).Known id)
    (hgone : (m.upTo acts gone).enclave? id = none) (hle : gone ≤ moment) :
    (m.upTo acts moment).enclave? id = none := by
  obtain ⟨generation, taken, hget, hlt | ⟨rfl, rfl⟩⟩ := hknown
  · rw [← Option.not_isSome_iff_eq_none, isSome_enclave?_iff]
    intro hlive
    have hthen := (numbered_upTo hstart hbounded gone).generation_eq hget
    have hnow := (numbered_upTo hstart hbounded moment).generation_eq hlive
    have hmono := m.departures_mono acts id.index.toNat hle
    omega
  · have hlive := isSome_enclave?_iff.mpr hget
    rw [hgone] at hlive
    cases hlive

/-- An act brings one enclave into being at most. -/
theorem Turnover.count_le (h : m.Turnover m') : m'.count ≤ m.count + 1 := by
  rw [count_eq_register, count_eq_register]
  cases h with
  | same hregister _ =>
    rw [hregister]
    exact Nat.le_add_right _ _
  | take id htakes =>
    cases htakes with
    | again rest _ hvacant hregister _ =>
      rw [hregister, List.countP_set (List.getElem?_eq_some_iff.mp hvacant).1, if_pos rfl]
      omega
    | first _ _ hregister _ =>
      rw [hregister, List.countP_append]
      exact Nat.add_le_add_left List.countP_le_length _
  | clear id hlive hregister _ =>
    rw [hregister, List.countP_set (List.getElem?_eq_some_iff.mp hlive).1,
      if_neg Bool.false_ne_true]
    omega

/-- A run that has no more acts than a word counts stays inside both words. -/
theorem bounded_of_length (hstart : Monitor.start config platform identity = .ok m)
    (h : acts.length + 1 < UInt32.size) : m.Bounded acts := by
  have hcount (moment : Nat) : (m.upTo acts moment).count ≤ moment := by
    induction moment with
    | zero =>
      have hempty : (m.upTo acts 0).register = [] := register_start hstart
      rw [count_eq_register, hempty]
      exact Nat.le_refl _
    | succ moment ih =>
      exact Nat.le_trans (turnover_upTo (.start hstart) acts moment).count_le (Nat.succ_le_succ ih)
  have hdepartures (i moment : Nat) : m.departures acts i moment ≤ acts.length := by
    rcases Nat.le_total moment acts.length with hle | hge
    · refine Nat.le_trans List.countP_le_length ?_
      rwa [List.length_range]
    · induction hge with
      | refl => exact Nat.le_trans List.countP_le_length (Nat.le_of_eq List.length_range)
      | @step moment hend ih =>
        rw [departures_succ, upTo_of_length_le m hend, upTo_of_length_le m (Nat.le_succ_of_le hend),
          clears_of_same rfl]
        exact ih
  refine ⟨?_, ?_⟩
  · intro moment
    rcases Nat.le_total moment acts.length with hle | hge
    · exact Nat.le_trans (hcount moment) (by omega)
    · rw [upTo_of_length_le m hge, ← upTo_length]
      exact Nat.le_trans (hcount acts.length) (by omega)
  · intro i moment
    have hle := hdepartures i moment
    omega

end Run

end Monitor

end Enclaves

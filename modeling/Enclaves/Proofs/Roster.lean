import Enclaves.Proofs.Issuing
import Mathlib.Data.List.Nodup

/-!
# Who is who

What the monitor says of a handle is read off its slot: nothing is written down about the handles
that were given out. In a run that stays inside the words of a handle it is right all the same
(`Roster`). A handle was given out if and only if it is known to the table (`issued_iff_known`), and
its enclave has ended if and only if it is known and reaches nothing.

The configured limit keeps the count of enclaves, and with it the length of the table, inside the
word for a place (`Bounded.of_departures`): a slot is only added while all others are taken.
-/

namespace Enclaves

namespace Monitor

variable {m m' : Monitor} {act : Act} {id : EnclaveId} {e : Enclave} {i : Nat}

/-! ## The list of handles -/

/-- The handles are those of the slots that are taken, in the order of the table. -/
theorem idsFrom_eq (start : Nat) (slots : List Slot) :
    idsFrom start slots =
      ((slots.zipIdx start).filter (·.1.occupant.isSome)).map
        fun (slot, i) => ⟨.ofNat i, slot.generation⟩ := by
  induction slots generalizing start with
  | nil => rfl
  | cons slot rest ih =>
    rw [idsFrom, List.zipIdx_cons]
    cases hoccupant : slot.occupant with
    | none =>
      rw [List.filter_cons_of_neg (by simp [hoccupant])]
      exact ih (start + 1)
    | some e =>
      rw [List.filter_cons_of_pos (by simp [hoccupant]), List.map_cons]
      exact congrArg _ (ih (start + 1))

/-- As many handles are listed as enclaves are live. -/
theorem length_ids (m : Monitor) : m.ids.length = m.count := by
  rw [ids, idsFrom_eq, List.length_map, ← List.countP_eq_length_filter, count]
  conv_rhs => rw [← List.zipIdx_map_fst 0 m.slots, List.countP_map]
  rfl

/-- The places of a table that is not too long fit an index. -/
theorem toNat_place (hlength : m.slots.length ≤ UInt32.size) (hi : i < m.slots.length) :
    (UInt32.ofNat i).toNat = i :=
  UInt32.toNat_ofNat_of_lt' (Nat.lt_of_lt_of_le hi hlength)

/-- The handles on the list are those that reach an enclave. -/
theorem mem_ids_iff (hlength : m.slots.length ≤ UInt32.size) :
    id ∈ m.ids ↔ (m.enclave? id).isSome = true := by
  rw [ids, idsFrom_eq, List.mem_map, isSome_enclave?_iff]
  constructor
  · rintro ⟨⟨slot, i⟩, hmem, rfl⟩
    obtain ⟨hslot, htaken⟩ := List.mem_filter.mp hmem
    have hget := List.mk_mem_zipIdx_iff_getElem?.mp hslot
    have hi := toNat_place hlength (List.getElem?_eq_some_iff.mp hget).1
    refine register_eq_some_iff.mpr ⟨slot.occupant, ?_, htaken⟩
    show m.slots[(UInt32.ofNat i).toNat]? = _
    rw [hi, hget]
  · intro hregister
    obtain ⟨occupant, hslot, htaken⟩ := register_eq_some_iff.mp hregister
    refine ⟨(⟨id.generation, occupant⟩, id.index.toNat), ?_, ?_⟩
    · exact List.mem_filter.mpr ⟨List.mk_mem_zipIdx_iff_getElem?.mpr hslot, htaken⟩
    · obtain ⟨index, generation⟩ := id
      simp

/-- No handle is on the list twice. -/
theorem nodup_ids (hlength : m.slots.length ≤ UInt32.size) : m.ids.Nodup := by
  have hplaces : (m.slots.zipIdx).Nodup := by
    apply List.Nodup.of_map Prod.snd
    rw [List.zipIdx_map_snd]
    exact List.nodup_range'
  rw [ids, idsFrom_eq]
  refine List.Nodup.map_on ?_ (hplaces.filter _)
  rintro ⟨slot, i⟩ hslot ⟨slot', j⟩ hslot' heq
  have hget := List.mk_mem_zipIdx_iff_getElem?.mp (List.mem_filter.mp hslot).1
  have hget' := List.mk_mem_zipIdx_iff_getElem?.mp (List.mem_filter.mp hslot').1
  have hi := toNat_place hlength (List.getElem?_eq_some_iff.mp hget).1
  have hj := toNat_place hlength (List.getElem?_eq_some_iff.mp hget').1
  have hindex : UInt32.ofNat i = UInt32.ofNat j := congrArg EnclaveId.index heq
  obtain rfl : i = j := hi.symm.trans ((congrArg UInt32.toNat hindex).trans hj)
  rw [hget] at hget'
  cases hget'
  rfl

/-! ## How many there are -/

/-- Without an arrival there are no more enclaves than before. -/
theorem Turnover.count_le_of_kept (h : m.Turnover m')
    (hkept : ∀ i, m'.taken i = true → m.taken i = true) : m'.count ≤ m.count := by
  rw [count_eq_register, count_eq_register]
  cases h with
  | same hregister _ => exact Nat.le_of_eq (by rw [hregister])
  | clear id hlive hregister _ =>
    rw [hregister, List.countP_set (List.getElem?_eq_some_iff.mp hlive).1,
      if_neg Bool.false_ne_true]
    omega
  | take id htakes =>
    cases htakes with
    | again rest _ hvacant hregister _ =>
      have htaken := hkept id.index.toNat (by
        rw [taken_eq, hregister, List.getElem?_set_self (List.getElem?_eq_some_iff.mp hvacant).1]
        rfl)
      rw [taken_eq, hvacant] at htaken
      cases htaken
    | first _ _ hregister _ =>
      have htaken := hkept m.register.length (by
        rw [taken_eq, hregister, List.getElem?_concat_length]
        rfl)
      rw [taken_eq, List.getElem?_eq_none (Nat.le_refl _)] at htaken
      cases htaken

/-- The count stays inside the configured limit. -/
theorem count_act_le (hstack : m.StackSound) (act : Act)
    (h : m.count ≤ m.config.maxEnclaves) : (m.act act).count ≤ m.config.maxEnclaves := by
  have hturnover := turnover_of_effect hstack (effect_act m act)
  by_cases hallocate : ∃ minPages, act = .call (.allocate minPages)
  · obtain ⟨minPages, rfl⟩ := hallocate
    by_cases hroom : m.count < m.config.maxEnclaves
    · exact Nat.le_trans hturnover.count_le hroom
    · have hrefused : m.act (.call (.allocate minPages)) = m := by
        show (m.allocate minPages).2 = m
        unfold allocate
        split
        · rfl
        · rw [if_pos (Nat.not_lt.mp hroom)]
      rwa [hrefused]
  · refine Nat.le_trans (hturnover.count_le_of_kept fun i htaken => ?_) h
    obtain ⟨generation, e, hafter⟩ := exists_holds_of_taken htaken
    rcases holds_act hstack hafter with ⟨-, minPages, _, _, _, hact, -⟩ | ⟨f, hbefore, -⟩
    · exact absurd ⟨minPages, hact⟩ hallocate
    · exact taken_of_holds hbefore

section Run

variable {config : Config} {platform : Platform} {identity : Identity} {acts : List Act}
  {moment : Nat}

/-- There are never more enclaves than are allowed. -/
theorem count_upTo_le (hstart : Monitor.start config platform identity = .ok m)
    (acts : List Act) (moment : Nat) : (m.upTo acts moment).count ≤ config.maxEnclaves := by
  induction moment with
  | zero =>
    have hempty : (m.upTo acts 0).register = [] := register_start hstart
    rw [count_eq_register, hempty]
    exact Nat.zero_le _
  | succ moment ih =>
    have hconfig : (m.upTo acts moment).config = config :=
      (Founded.of_start hstart (acts.take moment)).config_eq
    rcases m.upTo_succ_cases acts moment with ⟨act, -, hsucc⟩ | hover
    · rw [← hconfig] at ih ⊢
      rw [hsucc]
      exact count_act_le (stackSound_upTo hstart acts moment) act ih
    · rw [hover]
      exact ih

/-- With no more enclaves than indices, only the generations can run over. -/
theorem Bounded.of_departures (hstart : Monitor.start config platform identity = .ok m)
    (hmax : config.maxEnclaves ≤ UInt32.size)
    (hdepartures : ∀ i moment, m.departures acts i moment + 1 < UInt32.size) : m.Bounded acts :=
  ⟨fun moment => Nat.le_trans (count_upTo_le hstart acts moment) hmax, hdepartures⟩

/-- There never are more slots than enclaves may be live. -/
theorem length_register_le (hstart : Monitor.start config platform identity = .ok m)
    (hbounded : m.Bounded acts) (moment : Nat) :
    (m.upTo acts moment).register.length ≤ config.maxEnclaves := by
  induction moment with
  | zero =>
    have hempty : (m.upTo acts 0).register = [] := register_start hstart
    rw [hempty]
    exact Nat.zero_le _
  | succ moment ih =>
    cases turnover_upTo (.start hstart) acts moment with
    | same hregister _ => rwa [hregister]
    | clear id _ hregister _ => rwa [hregister, List.length_set]
    | take id htakes =>
      cases htakes with
      | again rest _ _ hregister _ => rwa [hregister, List.length_set]
      | first hfree _ hregister _ =>
        have hcount := count_upTo_le hstart acts (moment + 1)
        rw [count_eq_register, hregister, List.countP_append] at hcount
        have hall := (numbered_upTo hstart hbounded moment).all_stacked.length_eq_count hfree
        rw [count_eq_register] at hall
        rw [hregister, List.length_append, hall]
        exact hcount

end Run

/-! ## What is said of a handle -/

/-- Of a live enclave its state is told. -/
theorem state_of_live (h : m.enclave? id = some e) : m.state id = .ok e.state := by
  simp only [state, enclave?_eq_some_iff.mp h, ↓reduceIte]

/-- A handle that was never known is refused. -/
theorem state_of_unknown (h : m.enclave? id = none)
    (hunknown : ¬ (EnclaveId.firstGeneration ≤ id.generation ∧ m.Known id)) :
    m.state id = .error (.invalidHandle id) := by
  unfold state
  split
  · rfl
  rename_i slot hslot
  split
  · rename_i hsame
    split
    · rename_i e hoccupant
      simp [enclave?, hslot, hsame, hoccupant] at h
    · rfl
  · split
    · rename_i hpassed
      refine absurd ⟨hpassed.1, slot.generation, slot.occupant.isSome, ?_, .inl ?_⟩ hunknown
      · exact register_eq_some_iff.mpr ⟨slot.occupant, hslot, rfl⟩
      · exact UInt32.lt_iff_toNat_lt.mp hpassed.2
    · rfl

/-- A handle that is known after an act was known before it, or has come to reach an enclave. -/
theorem Known.before {cleared cleared' : Nat → Nat} (h : m'.Known id)
    (hfirst : EnclaveId.firstGeneration ≤ id.generation) (hnumbered : m.Numbered cleared)
    (hturnover : m.Turnover m')
    (hcleared : ∀ i, cleared' i = cleared i + if m.clears m' i then 1 else 0)
    (hbound : ∀ i, cleared' i + 1 < UInt32.size) :
    m.Known id ∨ (m'.enclave? id).isSome = true := by
  cases hturnover with
  | same hregister _ => exact .inl (h.of_register_eq (by rw [hregister]))
  | take other htakes =>
    obtain ⟨generation, taken, hget, hlater⟩ := h
    cases htakes with
    | again rest _ hvacant hregister _ =>
      by_cases hindex : other.index.toNat = id.index.toNat
      · rw [hregister, ← hindex,
          List.getElem?_set_self (List.getElem?_eq_some_iff.mp hvacant).1] at hget
        obtain ⟨rfl, rfl⟩ := Prod.mk.inj (Option.some.inj hget)
        rcases hlater with hlt | ⟨hsame, -⟩
        · exact .inl ⟨other.generation, false, hindex ▸ hvacant, .inl hlt⟩
        · refine .inr (isSome_enclave?_iff.mpr ?_)
          rw [hregister, ← hindex, hsame,
            List.getElem?_set_self (List.getElem?_eq_some_iff.mp hvacant).1]
      · rw [hregister, List.getElem?_set_ne hindex] at hget
        exact .inl ⟨generation, taken, hget, hlater⟩
    | first _ hid hregister _ =>
      have hget' := hget
      rw [hregister] at hget'
      rcases getElem?_concat_cases hget' with ⟨-, hold⟩ | ⟨-, hsign⟩
      · exact .inl ⟨generation, taken, hold, hlater⟩
      · obtain ⟨rfl, rfl⟩ := Prod.mk.inj hsign
        rcases hlater with hlt | ⟨hsame, -⟩
        · -- the new slot has the first generation, which is behind none
          rw [hid] at hlt
          exact absurd (UInt32.lt_iff_toNat_lt.mpr hlt) (UInt32.not_lt.mpr hfirst)
        · exact .inr (isSome_enclave?_iff.mpr (hsame ▸ hget))
  | clear other hlive hregister _ =>
    by_cases hindex : other.index.toNat = id.index.toNat
    · obtain ⟨generation, taken, hget, hlater⟩ := h
      have hgeneration := hnumbered.generation_eq hlive
      have hroom := hbound other.index.toNat
      rw [hcleared, clears_of_set hlive hregister, if_pos rfl] at hroom
      rw [hregister, ← hindex,
        List.getElem?_set_self (List.getElem?_eq_some_iff.mp hlive).1] at hget
      obtain ⟨rfl, rfl⟩ := Prod.mk.inj (Option.some.inj hget)
      rcases hlater with hlt | ⟨-, htaken⟩
      · rw [EnclaveId.toNat_nextGeneration (by omega)] at hlt
        refine .inl ⟨other.generation, true, hindex ▸ hlive, ?_⟩
        rcases Nat.lt_or_eq_of_le (Nat.le_of_lt_succ hlt) with hearlier | hsame
        · exact .inl hearlier
        · exact .inr ⟨UInt32.toNat_inj.mp hsame.symm, rfl⟩
      · cases htaken
    · exact .inl (h.of_register_eq (by rw [hregister, List.getElem?_set_ne hindex]))

/-! ## Whole runs -/

/-- A handle was given out, and its enclave has ended, before some moment of a run. -/
def EndedBy (m : Monitor) (acts : List Act) (moment : Nat) (id : EnclaveId) : Prop :=
  ∃ issued ended, issued < ended ∧ ended < moment ∧ m.Issues acts issued id ∧ m.EndsAt acts ended id

section Run

variable {config : Config} {platform : Platform} {identity : Identity} {acts : List Act}
  {moment : Nat}

/-- The handles that were given out are those that are known. -/
theorem issued_iff_known (hstart : Monitor.start config platform identity = .ok m)
    (hbounded : m.Bounded acts) :
    m.IssuedBy acts moment id ↔
      EnclaveId.firstGeneration ≤ id.generation ∧ (m.upTo acts moment).Known id := by
  constructor
  · rintro ⟨earlier, hlt, hissues⟩
    have hlive := hissues.live hstart hbounded
    exact ⟨first_le_of_live hstart hbounded hlive,
      known_upTo hstart hbounded (known_of_live hlive) hlt⟩
  · rintro ⟨hfirst, hknown⟩
    induction moment with
    | zero =>
      obtain ⟨generation, taken, hget, -⟩ := hknown
      have hempty : (m.upTo acts 0).register = [] := register_start hstart
      rw [hempty] at hget
      cases hget
    | succ moment ih =>
      rcases hknown.before hfirst (numbered_upTo hstart hbounded moment)
        (turnover_upTo (.start hstart) acts moment) (m.departures_succ acts · moment)
        (hbounded.departures_lt · _) with hbefore | hlive
      · exact (ih hbefore).succ
      · exact issuedBy_of_live hstart hlive

/-- The enclaves that ended are those that were and are gone. -/
theorem endedBy_iff (hstart : Monitor.start config platform identity = .ok m)
    (hbounded : m.Bounded acts) :
    m.EndedBy acts moment id ↔
      m.IssuedBy acts moment id ∧ (m.upTo acts moment).enclave? id = none := by
  constructor
  · rintro ⟨issued, ended, hlt, hto, hissues, hends⟩
    obtain ⟨hlive, hgone⟩ := hends.live
    have hknown := known_upTo hstart hbounded (known_of_live hlive) (Nat.le_succ ended)
    exact ⟨⟨issued, Nat.lt_trans hlt hto, hissues⟩, gone_upTo hstart hbounded hknown hgone hto⟩
  · rintro ⟨⟨issued, hlt, hissues⟩, hgone⟩
    obtain ⟨ended, hfrom, hto, hends⟩ :=
      exists_endsAt_of_gone hstart hlt (hissues.live hstart hbounded) hgone
    exact ⟨issued, ended, hfrom, hto, hissues, hends⟩

/-- What became of a handle by some moment of a run, and what the monitor says of it. -/
inductive Told (m : Monitor) (acts : List Act) (moment : Nat) (id : EnclaveId) : Prop
  | live {e : Enclave} (hlive : (m.upTo acts moment).enclave? id = some e)
      (hanswer : (m.upTo acts moment).state id = .ok e.state) (hstate : e.state ≠ .destroyed)
      (hissued : m.IssuedBy acts moment id) (hended : ¬ m.EndedBy acts moment id)
  | ended (hgone : (m.upTo acts moment).enclave? id = none)
      (hanswer : (m.upTo acts moment).state id = .ok .destroyed)
      (hissued : m.IssuedBy acts moment id) (hended : m.EndedBy acts moment id)
  | unknown (hgone : (m.upTo acts moment).enclave? id = none)
      (hanswer : (m.upTo acts moment).state id = .error (.invalidHandle id))
      (hissued : ¬ m.IssuedBy acts moment id) (hended : ¬ m.EndedBy acts moment id)

/-- What the monitor tells of any handle at any moment of a run. -/
theorem told (hstart : Monitor.start config platform identity = .ok m)
    (hbounded : m.Bounded acts) (moment : Nat) (id : EnclaveId) : m.Told acts moment id := by
  have hended := @endedBy_iff m id config platform identity acts moment hstart hbounded
  have hknown := @issued_iff_known m id config platform identity acts moment hstart hbounded
  cases hlive : (m.upTo acts moment).enclave? id with
  | some e =>
    have hsome : ((m.upTo acts moment).enclave? id).isSome = true := by rw [hlive]; rfl
    have hstaged := staged_upTo hstart acts ((holds_iff_enclave? ⟨rfl, rfl⟩).mpr hlive)
    refine .live hlive (state_of_live hlive) hstaged.state_ne (issuedBy_of_live hstart hsome) ?_
    rw [hended, hlive]
    rintro ⟨-, hnone⟩
    cases hnone
  | none =>
    by_cases hissued : m.IssuedBy acts moment id
    · obtain ⟨hfirst, hthere⟩ := hknown.mp hissued
      exact .ended hlive (hthere.state_of_gone hfirst hlive) hissued (hended.mpr ⟨hissued, hlive⟩)
    · exact .unknown hlive (state_of_unknown hlive (mt hknown.mpr hissued)) hissued
        fun h => hissued (hended.mp h).1

/-- What the monitor says at some moment of a run, of any handle and of the table. -/
structure Roster (m : Monitor) (maxEnclaves : Nat) (acts : List Act) (moment : Nat) : Prop where
  live_iff : ∀ id, ((m.upTo acts moment).enclave? id).isSome = true ↔
    m.IssuedBy acts moment id ∧ ¬ m.EndedBy acts moment id
  state_live_iff : ∀ id, (∃ state, state ≠ .destroyed ∧ (m.upTo acts moment).state id = .ok state) ↔
    ((m.upTo acts moment).enclave? id).isSome = true
  state_destroyed_iff : ∀ id, (m.upTo acts moment).state id = .ok .destroyed ↔
    m.EndedBy acts moment id
  state_invalid_iff : ∀ id, (m.upTo acts moment).state id = .error (.invalidHandle id) ↔
    ¬ m.IssuedBy acts moment id
  ids_nodup : (m.upTo acts moment).ids.Nodup
  mem_ids_iff : ∀ id, id ∈ (m.upTo acts moment).ids ↔
    ((m.upTo acts moment).enclave? id).isSome = true
  count_eq : (m.upTo acts moment).count = (m.upTo acts moment).ids.length
  count_le : (m.upTo acts moment).count ≤ maxEnclaves
  free_nodup : (m.upTo acts moment).freeSlots.Nodup
  free_iff : ∀ i, (∃ index ∈ (m.upTo acts moment).freeSlots, index.toNat = i) ↔
    ∃ generation, (m.upTo acts moment).slots[i]? = some ⟨generation, none⟩
  slots_le : (m.upTo acts moment).slots.length ≤ maxEnclaves

/-- In a run of a monitor with no more enclaves than indices, in which no slot was cleared as often
as there are generations, the monitor always says what became of a handle, and its table has no slot
too many. -/
theorem roster_is_right (hstart : Monitor.start config platform identity = .ok m)
    (hmax : config.maxEnclaves ≤ UInt32.size)
    (hdepartures : ∀ i moment, m.departures acts i moment + 1 < UInt32.size) (moment : Nat) :
    m.Roster config.maxEnclaves acts moment := by
  have hbounded := Bounded.of_departures hstart hmax hdepartures
  have hnumbered := numbered_upTo hstart hbounded moment
  have hstack := stackSound_upTo hstart acts moment
  have hslots : (m.upTo acts moment).slots.length = (m.upTo acts moment).register.length :=
    (List.length_map _).symm
  have hlength : (m.upTo acts moment).slots.length ≤ UInt32.size := hslots ▸ hnumbered.length_le
  refine ⟨?_, ?_, ?_, ?_, nodup_ids hlength, fun _ => mem_ids_iff hlength, (length_ids _).symm,
    count_upTo_le hstart acts moment, hstack.nodup, ?_,
    hslots ▸ length_register_le hstart hbounded moment⟩
  · intro id
    cases told hstart hbounded moment id with
    | live hlive _ _ hissued hended => simp [hlive, hissued, hended]
    | ended hgone _ _ hended => simp [hgone, hended]
    | unknown hgone _ hissued _ => simp [hgone, hissued]
  · intro id
    cases told hstart hbounded moment id with
    | live hlive hanswer hstate _ _ =>
      refine iff_of_true ⟨_, hstate, hanswer⟩ ?_
      rw [hlive]
      rfl
    | ended hgone hanswer _ _ => simp [hgone, hanswer]
    | unknown hgone hanswer _ _ => simp [hgone, hanswer]
  · intro id
    cases told hstart hbounded moment id with
    | live _ hanswer hstate _ hended => simp [hanswer, hstate, hended]
    | ended _ hanswer _ hended => exact iff_of_true hanswer hended
    | unknown _ hanswer _ hended => simp [hanswer, hended]
  · intro id
    cases told hstart hbounded moment id with
    | live _ hanswer _ hissued _ => simp [hanswer, hissued]
    | ended _ hanswer hissued _ => simp [hanswer, hissued]
    | unknown _ hanswer hissued _ => exact iff_of_true hanswer hissued
  · intro i
    constructor
    · rintro ⟨index, hindex, rfl⟩
      exact hstack.vacant index hindex
    · rintro ⟨generation, hvacant⟩
      exact hnumbered.stacked (register_eq_some_iff.mpr ⟨none, hvacant, rfl⟩)

/-- Three enclaves come into being and one of them fails, so that its slot is taken again. -/
theorem roster_is_right_default :
    let acts : List Act := [.call (.allocate 3), .call (.allocate 3),
      .call (.finalize ⟨0, 1⟩ ⟨0x80000000, 0x80001000, 0x80002000, 0x80003000⟩),
      .happening (.scriptEntry ⟨0, 1⟩ (.error (.enter "fault"))), .call (.run ⟨0, 1⟩),
      .call (.allocate 3), .call (.destroy ⟨1, 1⟩)]
    ∃ m, Monitor.start {} .initial
        ⟨⟨⟨List.replicate 32 7, rfl⟩⟩, ⟨⟨List.replicate 64 9, rfl⟩⟩⟩ = .ok m ∧
      (m.upTo acts 7).state ⟨0, 2⟩ = .ok .allocated ∧
      (m.upTo acts 7).state ⟨0, 1⟩ = .ok .destroyed ∧
      (m.upTo acts 7).state ⟨0, 3⟩ = .error (.invalidHandle ⟨0, 3⟩) ∧
      (m.upTo acts 7).ids = [⟨0, 2⟩] ∧ (m.upTo acts 7).freeSlots = [1] ∧
      ({} : Config).maxEnclaves ≤ UInt32.size ∧
      (∀ i moment, m.departures acts i moment + 1 < UInt32.size) ∧
      ∀ moment, m.Roster 16 acts moment := by
  intro acts
  obtain ⟨m, hstart⟩ : ∃ m, Monitor.start {} .initial
    ⟨⟨⟨List.replicate 32 7, rfl⟩⟩, ⟨⟨List.replicate 64 9, rfl⟩⟩⟩ = .ok m := ⟨_, rfl⟩
  have hmax : ({} : Config).maxEnclaves ≤ UInt32.size := by decide
  have hdepartures : ∀ i moment, m.departures acts i moment + 1 < UInt32.size :=
    (bounded_of_length hstart (by decide)).departures_lt
  refine ⟨m, hstart, ?_, ?_, ?_, ?_, ?_, hmax, hdepartures,
    roster_is_right hstart hmax hdepartures⟩
  all_goals
    cases hstart
    rfl

end Run

end Monitor

end Enclaves

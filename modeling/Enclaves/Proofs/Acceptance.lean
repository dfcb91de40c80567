import Enclaves.Proofs.Arithmetic
import Enclaves.Proofs.Contents

/-!
# Which layouts are accepted

Finalizing checks a layout twice: against the exclusive region and the other regions of the enclave,
and once more when memory is measured, together with the size of memory. All that ever decides is
what `Layout.WellPlaced` says of the four addresses, which may be any (`finalize_decides`). A
refusal names one of these conditions that fails (`Layout.Defect`).

The other ways out are dead. An image that is well placed is a region inside the exclusive one, and
that is apart from every other region of the enclave by `MemorySound`; memory is as large as its
region by `Housed`. With the same invariants no difference that is taken on the way is below zero.
-/

namespace Enclaves

namespace Layout

variable {l : Layout} {exclusive : Region} {others : List Region} {fault : LayoutFault}

/-- What can be wrong with a layout, and how a refusal names it. -/
inductive Defect (l : Layout) (exclusive : Region) : LayoutFault → Prop
  | misaligned {boundary : Boundary} {address : Nat} : (boundary, address) ∈ l.boundaries →
    address % pageSize ≠ 0 → Defect l exclusive (.misaligned boundary address)
  | outOfOrder {low high : Boundary} {lowAddress highAddress : Nat} :
    [(low, lowAddress), (high, highAddress)] <:+: l.boundaries → highAddress ≤ lowAddress →
    Defect l exclusive (.outOfOrder low lowAddress high highAddress)
  | startsElsewhere : l.loader ≠ exclusive.base →
    Defect l exclusive (.startsElsewhere l.loader exclusive.base)
  | endsBeyond : exclusive.stop < l.free → Defect l exclusive (.endsBeyond l.free exclusive.stop)

/-- The fault that is told names two neighbours, and the higher one is not the higher address. -/
theorem outOfOrder_of_firstDisorder {boundaries : List (Boundary × Nat)}
    (h : firstDisorder boundaries = some fault) : ∃ low lowAddress high highAddress,
      fault = .outOfOrder low lowAddress high highAddress ∧
        [(low, lowAddress), (high, highAddress)] <:+: boundaries ∧ highAddress ≤ lowAddress := by
  fun_induction firstDisorder boundaries with
  | case1 low lowAddress high highAddress rest hlt ih =>
    obtain ⟨low', lowAddress', high', highAddress', hfault, hmem, hle⟩ := ih h
    exact ⟨low', lowAddress', high', highAddress', hfault,
      hmem.trans (List.suffix_cons _ _).isInfix, hle⟩
  | case2 low lowAddress high highAddress rest hle =>
    exact ⟨low, lowAddress, high, highAddress, (Option.some.inj h).symm, ⟨[], rest, rfl⟩,
      Nat.not_lt.mp hle⟩
  | case3 => cases h

/-- Whatever other regions there are, if they are apart they do not matter. -/
theorem validate_eq_alone (hvalid : exclusive.Valid)
    (hothers : ∀ other ∈ others, exclusive.Apart other) :
    l.validate exclusive others = l.validate exclusive [] := by
  by_cases hplaced : l.WellPlaced exclusive
  · rw [(validate_eq_ok_iff hvalid hothers).mpr hplaced,
      (validate_eq_ok_iff hvalid (by simp)).mpr hplaced]
  · -- one of the checks before the last two has failed, and they do not look at other regions
    rw [validate, validate]
    split
    · rfl
    rename_i haligned
    split
    · rfl
    rename_i horder
    split
    · rfl
    rename_i hstarts
    split
    · rfl
    rename_i hends
    exact absurd (wellPlaced_of_checks haligned horder hstarts hends) hplaced

/-- A layout that is not well placed is refused for a reason that it has. -/
theorem exists_defect (others : List Region) (h : ¬ l.WellPlaced exclusive) :
    ∃ fault, l.Defect exclusive fault ∧ l.validate exclusive others = .error fault := by
  rw [validate]
  split
  · rename_i hfind
    have hmisaligned := List.find?_some hfind
    exact ⟨_, .misaligned (List.mem_of_find?_eq_some hfind) (by simpa using hmisaligned), rfl⟩
  rename_i haligned
  split
  · rename_i hdisorder
    obtain ⟨low, lowAddress, high, highAddress, rfl, hmem, hle⟩ :=
      outOfOrder_of_firstDisorder hdisorder
    exact ⟨_, .outOfOrder hmem hle, rfl⟩
  rename_i horder
  split
  · rename_i hstarts
    exact ⟨_, .startsElsewhere hstarts, rfl⟩
  rename_i hstarts
  split
  · rename_i hends
    exact ⟨_, .endsBeyond hends, rfl⟩
  rename_i hends
  exact absurd (wellPlaced_of_checks haligned horder hstarts hends) h

end Layout

namespace Monitor

variable {m m' : Monitor} {config : Config} {platform : Platform} {identity : Identity}
  {id : EnclaveId} {e : Enclave} {layout : Layout}

/-- How a layout is judged when an allocated enclave is finalized with it. -/
structure Judges (m : Monitor) (id : EnclaveId) (e : Enclave) (layout : Layout) : Prop where
  accepts : (∃ digest, (m.finalize id layout).1 = .ok digest) ↔ layout.WellPlaced e.exclusive
  refuses : ¬ layout.WellPlaced e.exclusive → ∃ fault, layout.Defect e.exclusive fault ∧
    m.finalize id layout = (.error (.layoutInvalid (.layout fault)), m)
  measures : layout.WellPlaced e.exclusive → ∃ bytes digest m',
    layout.Hashes e.exclusive e.memory bytes ∧ digest = .ofPreimage bytes ∧
    m.finalize id layout = (.ok digest, m') ∧ m'.measurement id = .ok digest ∧
    m'.history id = .ok digest ∧ m'.state id = .ok .finalized
  /-- That there are other regions makes no difference. -/
  alone : layout.validate e.exclusive (e.regions.filter (·.kind ≠ .exclusive)) =
    layout.validate e.exclusive []
  /-- Measuring refuses nothing that was not refused before, -/
  measurable : layout.validate e.exclusive (e.regions.filter (·.kind ≠ .exclusive)) = .ok () →
    ∃ digest, layout.measure e.exclusive e.memory = .ok digest
  /-- and the size of memory is never the reason. -/
  sized : e.memory.size = e.exclusive.size
  /-- No step is out of range. -/
  inRange : m.finalizeAt id layout = some (m.finalize id layout)

/-- An enclave that is not well placed is refused with a defect that it has, and stays as it was. -/
theorem finalize_eq_error (hlive : m.enclave? id = some e) (hstate : e.state = .allocated)
    (hplaced : ¬ layout.WellPlaced e.exclusive) :
    ∃ fault, layout.Defect e.exclusive fault ∧
      m.finalize id layout = (.error (.layoutInvalid (.layout fault)), m) := by
  obtain ⟨fault, hdefect, hvalidate⟩ :=
    Layout.exists_defect (e.regions.filter (·.kind ≠ .exclusive)) hplaced
  refine ⟨fault, hdefect, ?_⟩
  rw [finalize, require_eq_ok_iff.mpr ⟨hlive, hstate⟩]
  dsimp only
  rw [hvalidate]

/-- The decision at any enclave that awaits it, where the memory is divided and the buffers fit
their regions. -/
theorem MemorySound.judges (h : MemorySound config m) (hlive : m.enclave? id = some e)
    (hhoused : e.Housed) (hstate : e.state = .allocated) (layout : Layout) :
    m.Judges id e layout := by
  have hvalid := h.exclusive_valid hlive
  have hothers := h.exclusive_apart hlive hhoused
  refine ⟨⟨?_, fun hplaced => ?_⟩, finalize_eq_error hlive hstate, fun hplaced => ?_,
    Layout.validate_eq_alone hvalid hothers, fun hvalidate => ?_, hhoused.size_eq,
    h.finalizeAt_eq layout⟩
  · rintro ⟨digest, hdigest⟩
    by_contra hplaced
    obtain ⟨fault, -, hrefused⟩ := finalize_eq_error hlive hstate hplaced
    rw [hrefused] at hdigest
    cases hdigest
  · obtain ⟨digest, -, hfinalize⟩ := h.finalize_eq hlive hhoused hstate hplaced
    exact ⟨digest, by rw [hfinalize]⟩
  · obtain ⟨digest, hmeasure, hfinalize⟩ := h.finalize_eq hlive hhoused hstate hplaced
    obtain ⟨bytes, hhashes, hdigest⟩ := Layout.measure_eq_ok_iff.mp hmeasure
    have hfinal := enclave?_put_self hlive { e with
      layout := some layout, digest := some digest, history := some digest, state := .finalized }
    refine ⟨bytes, digest, _, hhashes, hdigest, hfinalize, ?_, ?_, state_of_enclave? hfinal⟩
    · exact measurement_eq_ok_iff.mpr ⟨_, hfinal, rfl⟩
    · rw [history, lookup_eq_ok_iff.mpr hfinal]
  · have hplaced := Layout.wellPlaced_of_validate hvalidate
    exact ⟨_, hplaced.measure_eq hvalid hhoused.size_eq⟩

/-- Finalizing accepts the layouts that are well placed, and no others. Whatever happened before, a
live enclave that is allocated is finalized with four addresses just when all of them are aligned
and in order, the first is where its exclusive region starts and the last is not past its end; then
it is measured as what lies in its memory, and otherwise the layout is refused. -/
theorem finalize_decides (hstart : Monitor.start config platform identity = .ok m)
    (acts : List Act) (hlive : (m.perform acts).enclave? id = some e)
    (hstate : e.state = .allocated) (layout : Layout) : (m.perform acts).Judges id e layout :=
  ((MemorySound.start hstart).perform acts).judges hlive (housed_of_start hstart acts id e hlive)
    hstate layout

/-- Of two layouts of an enclave with regions beside its own one is accepted, and one that leaves
its runtime empty is refused. -/
theorem finalize_decides_default :
    let identity : Identity := ⟨⟨⟨List.replicate 32 7, rfl⟩⟩, ⟨⟨List.replicate 64 9, rfl⟩⟩⟩
    let acts : List Act := [.call (.allocate 3), .call (.allocate 4)]
    let layout : Layout := ⟨0x80045000, 0x80046000, 0x80047000, 0x80049000⟩
    let empty : Layout := ⟨0x80045000, 0x80046000, 0x80046000, 0x80049000⟩
    ∃ m e, Monitor.start {} .initial identity = .ok m ∧
      (m.perform acts).enclave? ⟨1, 1⟩ = some e ∧ e.state = .allocated ∧
      (m.perform acts).Judges ⟨1, 1⟩ e layout ∧ (m.perform acts).Judges ⟨1, 1⟩ e empty ∧
      layout.WellPlaced e.exclusive ∧ ¬ empty.WellPlaced e.exclusive := by
  intro identity acts layout empty
  obtain ⟨m, hstart⟩ : ∃ m, Monitor.start {} .initial identity = .ok m := ⟨_, rfl⟩
  have hrecord : ((m.perform acts).enclave? ⟨1, 1⟩).map (fun e => (e.state, e.exclusive)) =
      some (.allocated, ⟨0x80045000, 4 * pageSize, .readWriteExecute, .exclusive⟩) := by
    cases hstart
    decide
  obtain ⟨e, hlive, hpair⟩ := Option.map_eq_some_iff.mp hrecord
  obtain ⟨hstate, hexclusive⟩ := Prod.mk.inj hpair
  refine ⟨m, e, hstart, hlive, hstate, finalize_decides hstart acts hlive hstate layout,
    finalize_decides hstart acts hlive hstate empty, ?_, fun h => ?_⟩
  · rw [hexclusive]
    exact ⟨by decide, by decide, by decide, by decide, rfl, by decide⟩
  · exact absurd h.runtime_lt (by decide)

end Monitor

end Enclaves

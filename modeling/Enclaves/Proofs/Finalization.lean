import Enclaves.Proofs.Attestation
import Enclaves.Proofs.Paging
import Enclaves.Proofs.Preparation

/-!
# Finalizing what was loaded

An enclave that an image was loaded into is finalized with the layout that loading answered, and
gets the image's own measurement, the one that a verifier computes from the byte strings.
`LoadedLast` is the part of a run that this depends on. What happens to other enclaves meanwhile
does not matter, nor what was in memory before, nor how the enclave is called.

That finalizing succeeds takes two invariants: the regions of all enclaves are apart
(`MemorySound`), so that no other region is in the image's way, and memory is as large as its region
(`Housed`).
-/

namespace Enclaves

/-- A record whose region is for its own use, with memory as large as the region. -/
structure Enclave.Housed (e : Enclave) : Prop where
  kind_eq : e.exclusive.kind = .exclusive
  size_eq : e.memory.size = e.exclusive.size

namespace Enclave.Housed

variable {e e' : Enclave}

/-- Buffers keep fitting their regions, whatever a record goes through. -/
theorem carried (h : e.Housed) (hcarried : e.Carried e') : e'.Housed := by
  cases hcarried with
  | same => exact h
  | unlink gone => exact ⟨h.kind_eq, h.size_eq⟩
  | update hupdate =>
    cases hupdate with
    | load image reference _ => exact ⟨h.kind_eq, rfl⟩
    | _ => exact ⟨h.kind_eq, h.size_eq⟩

end Enclave.Housed

namespace Monitor

variable {m m' : Monitor} {config : Config} {platform : Platform} {identity : Identity}
  {acts : List Act} {act : Act} {id : EnclaveId} {e e' : Enclave} {bundle : Bundle}
  {layout : Layout} {moment loaded : Nat}

/-! ## Allocated enclaves -/

/-- Every enclave is housed. -/
theorem housed_of_start (h : Monitor.start config platform identity = .ok m) (acts : List Act) :
    ∀ id e, (m.perform acts).enclave? id = some e → e.Housed := by
  refine (perform_induction
    (P := fun m => MemorySound config m ∧ ∀ id e, m.enclave? id = some e → e.Housed)
    ?_ ⟨.start h, ?_⟩ acts).2
  · rintro m m' act ⟨hmemory, hhoused⟩ heffect
    refine ⟨hmemory.step heffect, forall_of_effect hmemory.stack heffect hhoused ?_ ?_ ?_⟩
    · intro minPages exclusive untrusted connector pages hreserve
      have hserves := (PageAllocator.lends_of_reserveAll hmemory.lends.after hreserve).1
      exact ⟨hserves.kind_eq, rfl⟩
    · intro e e' hbefore hcarried
      exact hbefore.carried hcarried
    · intro event side peer e hbefore _
      exact ⟨hbefore.kind_eq, hbefore.size_eq⟩
  · intro id e hlive
    rw [enclave?_start h] at hlive
    cases hlive

namespace MemorySound

/-- The region of a live enclave is a valid one. -/
theorem exclusive_valid (h : MemorySound config m) (hlive : m.enclave? id = some e) :
    e.exclusive.Valid :=
  h.valid _ ((regions_perm hlive).mem_iff.mpr (List.mem_append_left _ List.mem_cons_self))

/-- The exclusive region of an enclave is apart from all its others. -/
theorem exclusive_apart (h : MemorySound config m) (hlive : m.enclave? id = some e)
    (hhoused : e.Housed) :
    ∀ other ∈ e.regions.filter (·.kind ≠ .exclusive), e.exclusive.Apart other := by
  intro other hother
  obtain ⟨hmem, hkind⟩ := List.mem_filter.mp hother
  have hpair := (List.pairwise_append.mp
    (h.apart.perm (regions_perm hlive) Region.Apart.symm)).1
  obtain rfl | htail := List.mem_cons.mp hmem
  · simp [hhoused.kind_eq] at hkind
  · exact (List.pairwise_cons.mp hpair).1 other htail

/-- An allocated enclave is finalized with every layout that is well placed. -/
theorem finalize_eq (h : MemorySound config m) (hlive : m.enclave? id = some e)
    (hhoused : e.Housed) (hstate : e.state = .allocated) (hplaced : layout.WellPlaced e.exclusive) :
    ∃ digest, layout.measure e.exclusive e.memory = .ok digest ∧
      m.finalize id layout = (.ok digest,
        m.put id { e with
          layout := some layout, digest := some digest, history := some digest,
          state := .finalized }) := by
  have hvalid := h.exclusive_valid hlive
  have hvalidate := (Layout.validate_eq_ok_iff hvalid (h.exclusive_apart hlive hhoused)).mpr hplaced
  have hmeasure := hplaced.measure_eq hvalid hhoused.size_eq
  refine ⟨_, hmeasure, ?_⟩
  rw [finalize, require_eq_ok_iff.mpr ⟨hlive, hstate⟩]
  dsimp only
  rw [hvalidate]
  dsimp only
  rw [hmeasure]

end MemorySound

/-- The state that is told is that of the record. -/
theorem state_of_enclave? (h : m.enclave? id = some e) : m.state id = .ok e.state := by
  rw [state, enclave?_eq_some_iff.mp h]
  dsimp only
  rw [if_pos rfl]

/-- An image that is loaded has all three segments. -/
theorem segments_of_load {m' : Monitor} (h : m.load id bundle = (.ok layout, m')) :
    bundle.image.segments.any List.isEmpty = false := by
  unfold load at h
  split at h
  · cases h
  split at h
  · cases h
  · rename_i hsegments
    exact eq_false_of_ne_true hsegments

/-! ## Loaded last -/

/-- The image that was loaded last into an enclave, at some moment of a run; the layout is what
loading answered. -/
structure LoadedLast (m : Monitor) (acts : List Act) (id : EnclaveId) (moment loaded : Nat)
    (bundle : Bundle) (layout : Layout) : Prop where
  before : loaded < moment
  load : acts[loaded]? = some (.call (.load id bundle))
  answer : ((m.upTo acts loaded).step (.load id bundle)).1 = .ok (.loaded layout)
  /-- It is the same enclave until then. -/
  lives : ∀ t, loaded < t → t ≤ moment → ((m.upTo acts t).enclave? id).isSome = true
  /-- No image is loaded after that one. -/
  last_load : ∀ t bundle' layout', loaded < t → t < moment →
    acts[t]? = some (.call (.load id bundle')) →
    ((m.upTo acts t).step (.load id bundle')).1 ≠ .ok (.loaded layout')

/-- The image is still there, under whatever reference and in the region it was loaded into. -/
theorem LoadedLast.exists_loaded (h : m.LoadedLast acts id moment loaded bundle layout)
    (hstack : ∀ t, (m.upTo acts t).StackSound) :
    ∃ before e text, (m.upTo acts loaded).enclave? id = some before ∧
      (m.upTo acts moment).enclave? id = some e ∧ e.exclusive = before.exclusive ∧
      e.Loaded ⟨text, bundle.image⟩ layout := by
  obtain ⟨before, first, hbefore, hlive, hregion, hloaded⟩ := exists_before_of_load h.answer
  have hbegins : ∃ e, (m.upTo acts (loaded + 1)).enclave? id = some e ∧
      e.exclusive = before.exclusive ∧ ∃ text, e.Loaded ⟨text, bundle.image⟩ layout :=
    ⟨first, (congrArg (·.enclave? id) (upTo_succ h.load)).trans hlive, hregion, _, hloaded⟩
  obtain ⟨e, hlast, hexclusive, text, hstill⟩ := exists_of_deeds hstack hbegins h.before
    (fun t hfrom hto => h.lives t (by omega) hto) (by
      rintro t act e e' hfrom hto hact ⟨hexclusive, hstill⟩ hdeed
      refine ⟨hdeed.exclusive_eq.trans hexclusive, hdeed.keeps_image hstill ?_⟩
      intro bundle' layout' heq
      exact h.last_load t bundle' layout' (by omega) hto (heq ▸ hact))
  exact ⟨before, e, text, hbefore, hlast, hexclusive, hstill⟩

/-- Finalizing measures what was loaded. Take any run in which loading an image answered a layout,
and in which the enclave is still allocated at some later moment and no other image was loaded into
it. Then finalizing it with that layout succeeds, and both its measurement and its history are what
the image's byte strings measure as. What lies in memory is what the steps of loading leave of
whatever was there before, and the same pieces are hashed of it as of the byte strings. -/
theorem finalizing_measures_the_image
    (hstart : Monitor.start config platform identity = .ok m)
    (hlast : m.LoadedLast acts id moment loaded bundle layout)
    (hstate : (m.upTo acts moment).state id = .ok .allocated) :
    ((m.upTo acts moment).step (.finalize id layout)).1 =
        .ok (.finalized bundle.image.measure) ∧
      ((m.upTo acts moment).act (.call (.finalize id layout))).measurement id =
        .ok bundle.image.measure ∧
      ((m.upTo acts moment).act (.call (.finalize id layout))).history id =
        .ok bundle.image.measure ∧
      ∃ before e feed, (m.upTo acts loaded).enclave? id = some before ∧
        (m.upTo acts moment).enclave? id = some e ∧
        bundle.image.place? before.exclusive.base before.memory.toBytes =
          some (layout, e.memory.toBytes) ∧
        layout.feedAt e.exclusive e.memory.toBytes = pure feed ∧
        bundle.image.feed? = some feed := by
  have hmemory (t : Nat) : MemorySound config (m.upTo acts t) :=
    (MemorySound.start hstart).perform (acts.take t)
  have hhoused (t : Nat) := housed_of_start hstart (acts.take t) id
  obtain ⟨before, e, text, hbefore, hlive, hregion, hloaded⟩ :=
    hlast.exists_loaded fun t => (hmemory t).stack
  have hallocated : e.state = .allocated :=
    Except.ok.inj ((state_of_enclave? hlive).symm.trans hstate)
  have hvalid := (hmemory moment).exclusive_valid hlive
  have hroom : bundle.image.pages ≤ e.exclusive.pages := hloaded.room
  have hlayout : layout = bundle.image.layoutAt e.exclusive.base := hloaded.layout_eq
  have hplaced : layout.WellPlaced e.exclusive := by
    rw [hlayout]
    exact Image.wellPlaced_layoutAt (segments_of_load (load_eq_of_loaded hlast.answer)) hvalid hroom
  obtain ⟨digest, hmeasure, hfinalize⟩ :=
    (hmemory moment).finalize_eq hlive (hhoused moment e hlive) hallocated hplaced
  obtain rfl := hloaded.measure_eq hmeasure
  have hstep : (m.upTo acts moment).step (.finalize id layout) =
      answer .finalized ((m.upTo acts moment).finalize id layout) := rfl
  have hafter : ((m.upTo acts moment).act (.call (.finalize id layout))) =
      ((m.upTo acts moment).finalize id layout).2 := rfl
  have hfinal := enclave?_put_self hlive { e with
    layout := some layout, digest := some bundle.image.measure,
    history := some bundle.image.measure, state := .finalized }
  refine ⟨?_, ?_, ?_, before, e, _, hbefore, hlive, ?_, ?_, bundle.image.feed?_eq_pages⟩
  · rw [hstep, hfinalize]
    rfl
  · rw [hafter, hfinalize]
    exact measurement_eq_ok_iff.mpr ⟨_, hfinal, rfl⟩
  · rw [hafter, hfinalize, history, lookup_eq_ok_iff.mpr hfinal]
  · have hsize : before.memory.toBytes.length = e.exclusive.size := by
      rw [Memory.length_toBytes, (hhoused loaded before hbefore).size_eq, hregion]
    rw [← hregion, bundle.image.place?_eq hvalid hroom hsize, hlayout, hloaded.memory_eq]
  · rw [hlayout] at hplaced ⊢
    rw [hloaded.memory_eq, bundle.image.feedAt_layoutAt hplaced hvalid hroom,
      bundle.image.feed?_eq_pages]
    rfl

/-- A longer image is loaded before, and another enclave comes and goes after it. -/
theorem finalizing_measures_the_image_default :
    let identity : Identity := ⟨⟨⟨List.replicate 32 7, rfl⟩⟩, ⟨⟨List.replicate 64 9, rfl⟩⟩⟩
    let longer : Image := ⟨[1, 2, 3], [4, 5], [6, 7, 8]⟩
    let image : Image := ⟨[1], [2], [3]⟩
    let acts : List Act := [.call (.allocate 3), .call (.load ⟨0, 1⟩ ⟨"a", longer⟩),
      .call (.load ⟨0, 1⟩ ⟨"b", image⟩), .call (.allocate 3), .call (.destroy ⟨1, 1⟩),
      .call (.setReference ⟨0, 1⟩ "c")]
    ∃ m, Monitor.start {} .initial identity = .ok m ∧
      m.LoadedLast acts ⟨0, 1⟩ 6 2 ⟨"b", image⟩ (image.layoutAt 0x80000000) ∧
      (m.upTo acts 6).state ⟨0, 1⟩ = .ok .allocated ∧
      ((m.upTo acts 6).act (.call (.finalize ⟨0, 1⟩ (image.layoutAt 0x80000000)))).measurement
        ⟨0, 1⟩ = .ok image.measure := by
  intro identity longer image acts
  obtain ⟨m, hstart⟩ : ∃ m, Monitor.start {} .initial identity = .ok m := ⟨_, rfl⟩
  have hload : ((m.upTo acts 2).load ⟨0, 1⟩ ⟨"b", image⟩).1 = .ok (image.layoutAt 0x80000000) := by
    cases hstart
    decide
  have hlives : ((m.upTo acts 3).enclave? ⟨0, 1⟩).isSome = true ∧
      ((m.upTo acts 4).enclave? ⟨0, 1⟩).isSome = true ∧
      ((m.upTo acts 5).enclave? ⟨0, 1⟩).isSome = true ∧
      ((m.upTo acts 6).enclave? ⟨0, 1⟩).isSome = true := by
    cases hstart
    decide
  have hstate : (m.upTo acts 6).state ⟨0, 1⟩ = .ok .allocated := by
    cases hstart
    decide
  have hlast : m.LoadedLast acts ⟨0, 1⟩ 6 2 ⟨"b", image⟩ (image.layoutAt 0x80000000) := by
    refine ⟨by decide, rfl, congrArg (Except.map Reply.loaded) hload, ?_, ?_⟩
    · intro t hfrom hto
      obtain rfl | rfl | rfl | rfl : t = 3 ∨ t = 4 ∨ t = 5 ∨ t = 6 := by omega
      · exact hlives.1
      · exact hlives.2.1
      · exact hlives.2.2.1
      · exact hlives.2.2.2
    · intro t bundle' layout' hfrom hto hact
      obtain rfl | rfl | rfl : t = 3 ∨ t = 4 ∨ t = 5 := by omega
      · cases hact
      · cases hact
      · cases hact
  exact ⟨m, hstart, hlast, hstate, (finalizing_measures_the_image hstart hlast hstate).2.1⟩

end Monitor

end Enclaves

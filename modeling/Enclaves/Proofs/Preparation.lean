import Enclaves.Proofs.Fate
import Enclaves.Proofs.Loading
import Enclaves.Proofs.Replay

/-!
# How an enclave is prepared

What an enclave is measured as and called is settled before it is finalized, by three calls under
its own handle and by nothing else: `Deed` tells them from all other acts, and names the call. It is
a coarser view of what becomes of an enclave (`Fate.deed`).

What every deed keeps stays as long as the enclave lives (`exists_of_deeds`). `Prepared` says how an
enclave came to be what it is at some moment of a run: an image was loaded into it, and after that
no other image was loaded and no other reference given. At that moment the image and its reference
are still there (`Prepared.exists_loaded`), so that the enclave, finalized with the layout that
loading answered, has the image's own measurement (`Loaded.measure_eq`).
-/

namespace Enclaves

namespace Enclave

/-- A record in which nothing changed that a measurement depends on. -/
structure Kept (e e' : Enclave) : Prop where
  exclusive_eq : e'.exclusive = e.exclusive
  memory_eq : e'.memory = e.memory
  reference_eq : e'.reference = e.reference
  digest_eq : e'.digest = e.digest
  allocated_iff : e'.state = .allocated ↔ e.state = .allocated

theorem Kept.refl (e : Enclave) : e.Kept e := ⟨rfl, rfl, rfl, rfl, Iff.rfl⟩

/-- Losing a link changes nothing that was prepared. -/
theorem Kept.unlink (e : Enclave) (gone : EnclaveId) : e.Kept (e.unlink gone) :=
  ⟨rfl, rfl, rfl, rfl, Iff.rfl⟩

/-- An event changes nothing that was prepared. -/
theorem Kept.meet (e : Enclave) (event : Event) (side peer : Side) :
    e.Kept (e.meet event side peer) :=
  ⟨rfl, rfl, rfl, rfl, Iff.rfl⟩

/-- A record after its enclave was entered. -/
theorem Kept.enter {e : Enclave} {state : EnclaveState} (h : e.state ≠ .allocated)
    (hstate : state ≠ .allocated) (value : Nat) :
    e.Kept { e with state, lastExit := some value } :=
  ⟨rfl, rfl, rfl, rfl, iff_of_false hstate h⟩

end Enclave

namespace Monitor

variable {m : Monitor} {act : Act} {id : EnclaveId} {e e' : Enclave}

/-! ## Act by act -/

/-- What an act does to what an enclave is measured as and called. -/
inductive Deed (m : Monitor) (act : Act) (id : EnclaveId) (e : Enclave) : Enclave → Prop
  | kept {e' : Enclave} : e.Kept e' → m.Deed act id e e'
  | setReference {text : String} {reference : Reference} : act = .call (.setReference id text) →
    (m.step (.setReference id text)).1 = .ok .done → e.state = .allocated →
    Reference.ofString text = .ok reference →
    m.Deed act id e { e with reference := some reference }
  | load {bundle : Bundle} {layout : Layout} {reference : Reference} :
    act = .call (.load id bundle) → (m.step (.load id bundle)).1 = .ok (.loaded layout) →
    e.state = .allocated →
    m.Deed act id e { e with
      memory := bundle.image.loadInto e.exclusive.size, reference := some reference }
  | finalize {layout : Layout} {digest : Digest} : act = .call (.finalize id layout) →
    (m.step (.finalize id layout)).1 = .ok (.finalized digest) → e.state = .allocated →
    layout.measure e.exclusive e.memory = .ok digest →
    m.Deed act id e { e with
      layout := some layout, digest := some digest, history := some digest, state := .finalized }

/-- A fate that leaves an enclave alive is a deed. -/
theorem Fate.deed (h : m.Fate act id e (some e')) : m.Deed act id e e' := by
  cases h with
  | passed => exact .kept (.refl e)
  | referenced hact hanswer hstate htext => exact .setReference hact hanswer hstate htext
  | loaded hact hanswer hstate _ => exact .load hact hanswer hstate
  | finalized hact hanswer hstate hmeasure => exact .finalize hact hanswer hstate hmeasure
  | @entered entry exit _ _ hstate =>
    have hne : e.state ≠ .allocated := hstate ▸ entry.origin_ne_allocated
    exact .kept (.enter hne exit.state_ne_allocated exit.value)
  | flagged _ => exact .kept ⟨rfl, rfl, rfl, rfl, Iff.rfl⟩
  | written _ _ => exact .kept ⟨rfl, rfl, rfl, rfl, Iff.rfl⟩
  | @bereft gone _ _ => exact .kept (.unlink e gone)
  | met _ _ _ _ => exact .kept (.meet e _ _ _)

/-- An act is a deed for every enclave that it leaves alive. -/
theorem deed_act (hstack : m.StackSound) (act : Act) (hbefore : m.enclave? id = some e)
    (hafter : (m.act act).enclave? id = some e') : m.Deed act id e e' := by
  apply Fate.deed
  rw [← hafter]
  exact fate_act hstack act hbefore

end Monitor

/-! ## Loaded enclaves -/

/-- An enclave that an image was loaded into, under the image's reference; the layout is the one
that loading answered. -/
structure Enclave.Loaded (e : Enclave) (bundle : Bundle) (layout : Layout) : Prop where
  reference_eq : ∃ reference, Reference.ofString bundle.reference = .ok reference ∧
    e.reference = some reference
  memory_eq : e.memory = bundle.image.loadInto e.exclusive.size
  room : bundle.image.pages ≤ e.exclusive.pages
  layout_eq : layout = bundle.image.layoutAt e.exclusive.base

namespace Enclave.Loaded

variable {e e' : Enclave} {bundle : Bundle} {layout : Layout}

/-- What was loaded is loaded as long as it is kept. -/
theorem kept (h : e.Loaded bundle layout) (hkept : e.Kept e') : e'.Loaded bundle layout := by
  obtain ⟨reference_eq, memory_eq, room, layout_eq⟩ := h
  rw [← hkept.exclusive_eq] at memory_eq room layout_eq
  rw [← hkept.memory_eq] at memory_eq
  rw [← hkept.reference_eq] at reference_eq
  exact ⟨reference_eq, memory_eq, room, layout_eq⟩

/-- Finalized with that layout, it measures as the image does. -/
theorem measure_eq (h : e.Loaded bundle layout) {digest : Digest}
    (hmeasure : layout.measure e.exclusive e.memory = .ok digest) :
    digest = bundle.image.measure := by
  rw [h.layout_eq, h.memory_eq] at hmeasure
  exact Image.eq_of_measure_layoutAt h.room hmeasure

end Enclave.Loaded

namespace Monitor

variable {m : Monitor} {acts : List Act} {act : Act} {id : EnclaveId} {e e' : Enclave}
  {bundle : Bundle} {layout : Layout} {moment loaded t : Nat}

/-- One moment on, one more act is done. -/
theorem upTo_succ (h : acts[t]? = some act) : m.upTo acts (t + 1) = (m.upTo acts t).act act := by
  rw [upTo, List.take_add_one, h, Option.toList_some, perform_concat]
  rfl

/-- Behind its end a run stays where it ended. -/
theorem upTo_of_length_le (m : Monitor) (h : acts.length ≤ t) : m.upTo acts t = m.perform acts := by
  rw [upTo, List.take_of_length_le h]

/-- From one moment to the next there is one act, or the run is over. -/
theorem upTo_succ_cases (m : Monitor) (acts : List Act) (t : Nat) :
    (∃ act, acts[t]? = some act ∧ m.upTo acts (t + 1) = (m.upTo acts t).act act) ∨
      m.upTo acts (t + 1) = m.upTo acts t := by
  rcases Nat.lt_or_ge t acts.length with hlt | hge
  · exact .inl ⟨_, List.getElem?_eq_getElem hlt, upTo_succ (List.getElem?_eq_getElem hlt)⟩
  · exact .inr ((upTo_of_length_le m (Nat.le_succ_of_le hge)).trans (upTo_of_length_le m hge).symm)

/-- The stack of cleared slots is sound at every moment of a run. -/
theorem stackSound_upTo {config : Config} {platform : Platform} {identity : Identity}
    (hstart : Monitor.start config platform identity = .ok m) (acts : List Act) (t : Nat) :
    (m.upTo acts t).StackSound :=
  ((MemorySound.start hstart).perform (acts.take t)).stack

/-- What every deed keeps stays as long as the enclave lives. -/
theorem exists_of_deeds {P : Enclave → Prop} {first last : Nat}
    (hstack : ∀ t, (m.upTo acts t).StackSound)
    (hbegins : ∃ e, (m.upTo acts first).enclave? id = some e ∧ P e) (hle : first ≤ last)
    (hlives : ∀ t, first < t → t ≤ last → ((m.upTo acts t).enclave? id).isSome = true)
    (hkeeps : ∀ t act e e', first ≤ t → t < last → acts[t]? = some act → P e →
      (m.upTo acts t).Deed act id e e' → P e') :
    ∃ e, (m.upTo acts last).enclave? id = some e ∧ P e := by
  induction hle with
  | refl => exact hbegins
  | @step t hfrom ih =>
    obtain ⟨e, hbefore, h⟩ := ih (fun s hs ht => hlives s hs (Nat.le_succ_of_le ht))
      fun s act e e' hs ht => hkeeps s act e e' hs (Nat.lt_succ_of_lt ht)
    rcases m.upTo_succ_cases acts t with ⟨act, hact, hsucc⟩ | hover
    · obtain ⟨e', hafter⟩ := Option.isSome_iff_exists.mp
        (hlives (t + 1) (Nat.lt_succ_of_le hfrom) (Nat.le_refl _))
      refine ⟨e', hafter, hkeeps t act e e' hfrom (Nat.lt_succ_self t) hact h ?_⟩
      rw [hsucc] at hafter
      exact deed_act (hstack t) act hbefore hafter
    · exact ⟨e, hover ▸ hbefore, h⟩

/-- What was loaded stays, unless another image is loaded or another reference is given. -/
theorem Deed.keeps_loaded (hdeed : m.Deed act id e e') (h : e.Loaded bundle layout)
    (hload : ∀ bundle' layout', act = .call (.load id bundle') →
      (m.step (.load id bundle')).1 ≠ .ok (.loaded layout'))
    (hreference : ∀ text, act = .call (.setReference id text) →
      (m.step (.setReference id text)).1 = .ok .done → text = bundle.reference) :
    e'.Loaded bundle layout := by
  cases hdeed with
  | kept hkept => exact h.kept hkept
  | setReference hact hdone _ htext =>
    obtain rfl := hreference _ hact hdone
    exact ⟨⟨_, htext, rfl⟩, h.memory_eq, h.room, h.layout_eq⟩
  | load hact hdone _ => exact absurd hdone (hload _ _ hact)
  | finalize _ _ _ _ => exact ⟨h.reference_eq, h.memory_eq, h.room, h.layout_eq⟩

/-- An image that was loaded stays under whatever reference, unless another one is loaded. -/
theorem Deed.keeps_image {image : Image} (hdeed : m.Deed act id e e')
    (h : ∃ text, e.Loaded ⟨text, image⟩ layout)
    (hload : ∀ bundle' layout', act = .call (.load id bundle') →
      (m.step (.load id bundle')).1 ≠ .ok (.loaded layout')) :
    ∃ text, e'.Loaded ⟨text, image⟩ layout := by
  obtain ⟨text, h⟩ := h
  cases hdeed with
  | kept hkept => exact ⟨text, h.kept hkept⟩
  | @setReference text' _ _ _ _ htext =>
    exact ⟨text', ⟨_, htext, rfl⟩, h.memory_eq, h.room, h.layout_eq⟩
  | load hact hdone _ => exact absurd hdone (hload _ _ hact)
  | finalize _ _ _ _ => exact ⟨text, h.reference_eq, h.memory_eq, h.room, h.layout_eq⟩

/-- Every deed leaves an enclave its region. -/
theorem Deed.exclusive_eq (h : m.Deed act id e e') : e'.exclusive = e.exclusive := by
  cases h with
  | kept hkept => exact hkept.exclusive_eq
  | setReference _ _ _ _ => rfl
  | load _ _ _ => rfl
  | finalize _ _ _ _ => rfl

/-- The answer tells the layout of what was loaded. -/
theorem load_eq_of_loaded (h : (m.step (.load id bundle)).1 = .ok (.loaded layout)) :
    m.load id bundle = (.ok layout, (m.step (.load id bundle)).2) := by
  have hstep : m.step (.load id bundle) = answer .loaded (m.load id bundle) := rfl
  cases hcall : m.load id bundle with | mk outcome m' =>
  rw [hstep, hcall] at h ⊢
  cases outcome with
  | error error => cases h
  | ok answered =>
    cases h
    rfl

/-- Loading an image, before and after. -/
theorem exists_before_of_load (h : (m.step (.load id bundle)).1 = .ok (.loaded layout)) :
    ∃ before e, m.enclave? id = some before ∧
      (m.step (.load id bundle)).2.enclave? id = some e ∧ e.exclusive = before.exclusive ∧
      e.Loaded bundle layout := by
  have hload := load_eq_of_loaded h
  rcases load_cases m id bundle with
    ⟨_, hcall⟩ | ⟨before, reference, hlive, -, htext, hroom, hcall⟩
  · rw [hcall] at hload
    cases hload
  · have hafter := congrArg Prod.snd (hload.symm.trans hcall)
    have hlayout := Except.ok.inj (congrArg Prod.fst (hload.symm.trans hcall))
    dsimp only at hafter
    rw [hafter]
    exact ⟨before, _, hlive, enclave?_put_self hlive _, rfl, ⟨reference, htext, rfl⟩, rfl, hroom,
      hlayout⟩

/-- After the answer the image is in memory. -/
theorem loaded_of_load (h : (m.step (.load id bundle)).1 = .ok (.loaded layout)) :
    ∃ e, (m.step (.load id bundle)).2.enclave? id = some e ∧ e.Loaded bundle layout := by
  obtain ⟨_, e, -, hlive, -, hloaded⟩ := exists_before_of_load h
  exact ⟨e, hlive, hloaded⟩

/-! ## Prepared enclaves -/

/-- How an enclave came to be what it is at some moment of a run: an image was loaded into it
earlier, and the layout is what loading answered. -/
structure Prepared (m : Monitor) (acts : List Act) (id : EnclaveId) (moment loaded : Nat)
    (bundle : Bundle) (layout : Layout) : Prop where
  before : loaded < moment
  load : acts[loaded]? = some (.call (.load id bundle))
  answer : ((m.upTo acts loaded).step (.load id bundle)).1 = .ok (.loaded layout)
  /-- It is the same enclave until then. -/
  lives : ∀ t, loaded < t → t ≤ moment → ((m.upTo acts t).enclave? id).isSome = true
  /-- No image is loaded after that one. -/
  last_load : ∀ t bundle' layout', loaded < t → t < moment →
    acts[t]? = some (.call (.load id bundle')) →
    ((m.upTo acts t).step (.load id bundle')).1 ≠ .ok (.loaded layout')
  /-- No other reference is given after that one. -/
  last_reference : ∀ t text, loaded < t → t < moment →
    acts[t]? = some (.call (.setReference id text)) →
    ((m.upTo acts t).step (.setReference id text)).1 = .ok .done → text = bundle.reference

/-- An enclave that was prepared is loaded. -/
theorem Prepared.exists_loaded (h : m.Prepared acts id moment loaded bundle layout)
    (hstack : ∀ t, (m.upTo acts t).StackSound) :
    ∃ e, (m.upTo acts moment).enclave? id = some e ∧ e.Loaded bundle layout := by
  have hbegins : ∃ e, (m.upTo acts (loaded + 1)).enclave? id = some e ∧
      e.Loaded bundle layout := by
    rw [upTo_succ h.load]
    exact loaded_of_load h.answer
  refine exists_of_deeds hstack hbegins h.before (fun t hfrom hto => h.lives t (by omega) hto) ?_
  intro t act e e' hfrom hto hact hloaded hdeed
  refine hdeed.keeps_loaded hloaded ?_ ?_
  · intro bundle' layout' heq
    exact h.last_load t bundle' layout' (by omega) hto (heq ▸ hact)
  · intro text heq
    exact h.last_reference t text (by omega) hto (heq ▸ hact)

end Monitor

end Enclaves

import Enclaves.Proofs.Accord

/-!
# Strokes

What a call does to a monitor comes down to one of three things: some records are replaced, an
enclave is entered, or an enclave goes. A `Stroke` says which, with the records that come of it, and
leaves the mappings out: they follow from the links where links and mappings agree
(`Sound.eq_of_unmapped`).

A stroke leaves all other enclaves alone, but that they lose the link to one that goes
(`holds_strike`, `enclave?_strike`). So strokes at different enclaves can be made in either order,
if the records that are written have lost that link in one of the orders (`strike_write`).
-/

namespace Enclaves

namespace Enclave

/-- A record once an enclave has gone, if one has. -/
def without (gone : Option EnclaveId) (e : Enclave) : Enclave :=
  match gone with
  | none => e
  | some id => e.unlink id

variable {gone : Option EnclaveId} {e : Enclave} {peer : EnclaveId}

@[simp] theorem state_without : (e.without gone).state = e.state := by cases gone <;> rfl

@[simp] theorem exclusive_without : (e.without gone).exclusive = e.exclusive := by
  cases gone <;> rfl

@[simp] theorem memory_without : (e.without gone).memory = e.memory := by cases gone <;> rfl

@[simp] theorem connector_without : (e.without gone).connector = e.connector := by
  cases gone <;> rfl

@[simp] theorem reference_without : (e.without gone).reference = e.reference := by
  cases gone <;> rfl

@[simp] theorem digest_without : (e.without gone).digest = e.digest := by cases gone <;> rfl

@[simp] theorem history_without : (e.without gone).history = e.history := by cases gone <;> rfl

@[simp] theorem log_without : (e.without gone).log = e.log := by cases gone <;> rfl

@[simp] theorem destroyOnRelease_without :
    (e.without gone).destroyOnRelease = e.destroyOnRelease := by
  cases gone <;> rfl

/-- Losing a link is no loss of memory. -/
@[simp] theorem regions_without : (e.without gone).regions = e.regions := by cases gone <;> rfl

/-- The links to all others are found as before. -/
@[simp] theorem linkTo?_without (h : gone ≠ some peer) :
    (e.without gone).linkTo? peer = e.linkTo? peer := by
  cases gone with
  | none => rfl
  | some id =>
    have hne : id ≠ peer := fun heq => h (heq ▸ rfl)
    show (e.links.eraseP (·.peer = id)).find? (·.peer = peer) = e.links.find? (·.peer = peer)
    induction e.links with
    | nil => rfl
    | cons link rest ih =>
      by_cases hid : link.peer = id
      · have hnot : link.peer ≠ peer := hid ▸ hne
        rw [List.eraseP_cons_of_pos (by simpa using hid),
          List.find?_cons_of_neg (by simpa using hnot)]
      · rw [List.eraseP_cons_of_neg (by simpa using hid), List.find?_cons, List.find?_cons, ih]

/-- Losing one peer and meeting another, in either order. -/
theorem meet_without (event : Event) (side : Side) {other : Side} (h : gone ≠ some other.id) :
    (e.without gone).meet event side other = (e.meet event side other).without gone := by
  cases gone with
  | none => rfl
  | some id =>
    have hne : other.id ≠ id := fun heq => h (heq ▸ rfl)
    cases event with
    | connect =>
      simp only [meet, absorb, without, unlink, mk.injEq, true_and, and_true]
      by_cases hlinked : e.links.any (·.peer = id)
      · rw [List.eraseP_append, if_pos hlinked]
      · rw [List.eraseP_append, if_neg hlinked,
          List.eraseP_of_forall_not (by simpa using hlinked),
          List.eraseP_cons_of_neg (by simpa using hne), List.eraseP_nil]
    | disconnect =>
      simp only [meet, absorb, without, unlink, mk.injEq, true_and, and_true]
      rw [List.eraseP_filter]
      congr 2
      funext link
      by_cases hid : link.peer = id
      · simp [hid, hne.symm]
      · simp [hid]

end Enclave

/-! ## Strokes -/

/-- What a call does to a monitor, apart from the mappings. -/
inductive Stroke where
  /-- Some records are replaced. -/
  | write (records : List (EnclaveId × Enclave))
  /-- An enclave is entered, and this is the record that it leaves. -/
  | enter (id : EnclaveId) (e : Enclave) (entry : Entry)
  /-- An enclave goes, by an entry that failed or without one. -/
  | remove (id : EnclaveId) (entry : Option Entry)

namespace Stroke

/-- Whose records a stroke is about. -/
def targets : Stroke → List EnclaveId
  | .write records => records.map Prod.fst
  | .enter id _ _ => [id]
  | .remove id _ => [id]

/-- The enclave that goes, if one does. -/
def gone : Stroke → Option EnclaveId
  | .remove id _ => some id
  | _ => none

/-- A stroke in a monitor from which an enclave has gone, if one has. -/
def without (gone : Option EnclaveId) : Stroke → Stroke
  | .write records => .write (records.map fun record => (record.1, record.2.without gone))
  | .enter id e entry => .enter id (e.without gone) entry
  | .remove id entry => .remove id entry

end Stroke

namespace Monitor

variable {m n : Monitor} {stroke : Stroke} {records : List (EnclaveId × Enclave)}
  {id other : EnclaveId} {e f : Enclave} {i : Nat} {generation : UInt32}

/-- Some records replaced, one after the other. -/
def write (m : Monitor) (records : List (EnclaveId × Enclave)) : Monitor :=
  records.foldl (fun m record => m.put record.1 record.2) m

/-- A monitor after a stroke. -/
def strike (m : Monitor) : Stroke → Monitor
  | .write records => m.write records
  | .enter id e entry => m.entered id e entry
  | .remove id none => m.teardown id
  | .remove id (some entry) => (m.teardown id).noteEntry id entry

/-- A monitor apart from the mappings. -/
def unmapped (m : Monitor) : Monitor :=
  { m with platform := { m.platform with mappings := fun _ => [] } }

/-! ## What a stroke leaves alone -/

/-- Whoever lived lives on when a record is written back. -/
theorem isSome_put (h : (m.enclave? id).isSome = true) (f : Enclave) (other : EnclaveId) :
    ((m.put id f).enclave? other).isSome = (m.enclave? other).isSome := by
  obtain ⟨e, hlive⟩ := Option.isSome_iff_exists.mp h
  rw [enclave?_put hlive]
  split
  · rename_i hid
    rw [hid, h]
    rfl
  · rfl

/-- A handle that reaches an enclave is in another slot than an enclave that it does not name. -/
theorem index_ne_of_holds (hlive : (m.enclave? id).isSome = true) (h : m.Holds i generation e)
    (hnot : ¬ id.Names i generation) : id.index.toNat ≠ i := by
  rintro rfl
  obtain ⟨f, hf⟩ := Option.isSome_iff_exists.mp hlive
  have hslot := enclave?_eq_some_iff.mp hf
  rw [Holds, hslot] at h
  cases h
  exact hnot ⟨rfl, rfl⟩

/-- A record that is written back leaves all other places alone. -/
theorem holds_put_of_not_names (hlive : (m.enclave? id).isSome = true)
    (h : m.Holds i generation e) (hnot : ¬ id.Names i generation) (f : Enclave) :
    (m.put id f).Holds i generation e := by
  rw [Holds, put, List.getElem?_set_ne (index_ne_of_holds hlive h hnot)]
  exact h

/-- The handles of a stroke all reach something. -/
def Lands (m : Monitor) (stroke : Stroke) : Prop :=
  ∀ id ∈ stroke.targets, (m.enclave? id).isSome = true

/-- A stroke lands where it did after a record is written back. -/
theorem Lands.put (h : m.Lands stroke) (hlive : (m.enclave? id).isSome = true) (f : Enclave) :
    (m.put id f).Lands stroke := by
  intro other hother
  rw [isSome_put hlive]
  exact h other hother

/-- The first record of a stroke that writes some, and the others. -/
theorem Lands.cons {record : EnclaveId × Enclave} (h : m.Lands (.write (record :: records))) :
    (m.enclave? record.1).isSome = true ∧ (m.put record.1 record.2).Lands (.write records) := by
  have hfirst := h record.1 List.mem_cons_self
  have hrest : m.Lands (.write records) := fun id hid => h id (List.mem_cons_of_mem _ hid)
  exact ⟨hfirst, hrest.put hfirst record.2⟩

/-- Handles that a write does not name reach what they did. -/
theorem enclave?_write (hlands : m.Lands (.write records)) (hother : other ∉ records.map Prod.fst) :
    (m.write records).enclave? other = m.enclave? other := by
  induction records generalizing m with
  | nil => rfl
  | cons record rest ih =>
    obtain ⟨hne, hrest⟩ := not_or.mp (mt List.mem_cons.mpr hother)
    obtain ⟨hfirst, hlands⟩ := hlands.cons
    obtain ⟨e, hfirst⟩ := Option.isSome_iff_exists.mp hfirst
    exact (ih hlands hrest).trans (enclave?_put_of_ne hfirst record.2 hne)

/-- What a handle reaches that a stroke is not about. -/
theorem enclave?_strike (hlands : m.Lands stroke) (hother : other ∉ stroke.targets) :
    (m.strike stroke).enclave? other = (m.enclave? other).map (Enclave.without stroke.gone) := by
  cases stroke with
  | write records => exact (enclave?_write hlands hother).trans Option.map_id'.symm
  | enter id e entry =>
    obtain ⟨f, hlive⟩ := Option.isSome_iff_exists.mp (hlands id (List.mem_singleton_self id))
    have hne : other ≠ id := mt List.mem_singleton.mpr hother
    exact (enclave?_put_of_ne hlive e hne).trans Option.map_id'.symm
  | remove id entry =>
    obtain ⟨f, hlive⟩ := Option.isSome_iff_exists.mp (hlands id (List.mem_singleton_self id))
    have hgone : (m.teardown id).enclave? other = (m.enclave? other).map (Enclave.unlink id) := by
      rw [enclave?_teardown hlive, if_neg (mt List.mem_singleton.mpr hother)]
    cases entry <;> exact hgone

/-- Places that a write does not name hold what they did. -/
theorem holds_write (hlands : m.Lands (.write records)) (h : m.Holds i generation e)
    (hother : ∀ id ∈ records.map Prod.fst, ¬ id.Names i generation) :
    (m.write records).Holds i generation e := by
  induction records generalizing m with
  | nil => exact h
  | cons record rest ih =>
    obtain ⟨hfirst, hlands⟩ := hlands.cons
    refine ih hlands ?_ fun id hid => hother id (List.mem_cons_of_mem _ hid)
    exact holds_put_of_not_names hfirst h (hother record.1 List.mem_cons_self) record.2

/-- An enclave that a stroke is not about stays in its place, without the link to one that goes. -/
theorem holds_strike (hlands : m.Lands stroke) (h : m.Holds i generation e)
    (hother : ∀ id ∈ stroke.targets, ¬ id.Names i generation) :
    (m.strike stroke).Holds i generation (e.without stroke.gone) := by
  cases stroke with
  | write records => exact holds_write hlands h hother
  | enter id f entry =>
    exact holds_put_of_not_names (hlands id (List.mem_singleton_self id)) h
      (hother id (List.mem_singleton_self id)) f
  | remove id entry =>
    have hlive := hlands id (List.mem_singleton_self id)
    have hne := index_ne_of_holds hlive h (hother id (List.mem_singleton_self id))
    obtain ⟨f, hlive⟩ := Option.isSome_iff_exists.mp hlive
    have hkept : (m.teardown id).Holds i generation (e.unlink id) := by
      rw [Holds, teardown_eq hlive, slotsWithout, List.getElem?_map, getElem?_cleared_of_ne hne, h]
      rfl
    cases entry <;> exact hkept

/-- What no stroke touches. -/
structure Framed (m n : Monitor) (targets : List EnclaveId) : Prop where
  config_eq : n.config = m.config
  identity_eq : n.identity = m.identity
  mailboxes_eq : n.mailboxes = m.mailboxes
  refusesMaps_eq : n.platform.refusesMaps = m.platform.refusesMaps
  failsReleases_eq : n.platform.failsReleases = m.platform.failsReleases
  script_eq : ∀ id, id ∉ targets → n.platform.script id = m.platform.script id

/-- A write of records touches nothing that stands outside the slots. -/
theorem framed_write (m : Monitor) (records : List (EnclaveId × Enclave))
    (targets : List EnclaveId) : m.Framed (m.write records) targets := by
  induction records generalizing m with
  | nil => exact ⟨rfl, rfl, rfl, rfl, rfl, fun _ _ => rfl⟩
  | cons record rest ih =>
    obtain ⟨hconfig, hidentity, hmailboxes, hrefuses, hfails, hscript⟩ :=
      ih (m.put record.1 record.2)
    exact ⟨hconfig, hidentity, hmailboxes, hrefuses, hfails, hscript⟩

/-- Of what stands outside the slots a stroke touches the scripts of its targets alone. -/
theorem framed_strike (hlands : m.Lands stroke) : m.Framed (m.strike stroke) stroke.targets := by
  cases stroke with
  | write records => exact framed_write m records _
  | enter id e entry =>
    have hplatform : (m.platform.enter id entry).2.refusesMaps = m.platform.refusesMaps ∧
        (m.platform.enter id entry).2.failsReleases = m.platform.failsReleases ∧
        ∀ other, other ∉ [id] →
          (m.platform.enter id entry).2.script other = m.platform.script other := by
      simp only [Platform.enter]
      split
      · exact ⟨rfl, rfl, fun _ _ => rfl⟩
      · exact ⟨rfl, rfl, fun other hother => if_neg (mt List.mem_singleton.mpr hother)⟩
    exact ⟨rfl, rfl, rfl, hplatform.1, hplatform.2.1, hplatform.2.2⟩
  | remove id entry =>
    obtain ⟨e, hlive⟩ := Option.isSome_iff_exists.mp (hlands id (List.mem_singleton_self id))
    have hframed : m.Framed (m.teardown id) [id] := by
      rw [teardown_eq hlive]
      exact ⟨rfl, rfl, rfl, rfl, rfl, fun other hother =>
        if_neg (mt List.mem_singleton.mpr hother)⟩
    obtain ⟨hconfig, hidentity, hmailboxes, hrefuses, hfails, hscript⟩ := hframed
    cases entry <;> exact ⟨hconfig, hidentity, hmailboxes, hrefuses, hfails, hscript⟩

/-! ## Apart from the mappings -/

/-- A write does not look at the mappings. -/
theorem unmapped_write (m : Monitor) (records : List (EnclaveId × Enclave)) :
    (m.write records).unmapped = m.unmapped.write records := by
  induction records generalizing m with
  | nil => rfl
  | cons record rest ih => exact ih (m.put record.1 record.2)

/-- Which regions are mapped has no effect on a teardown, the mappings apart. -/
theorem unmapped_teardown (m : Monitor) (id : EnclaveId) :
    (m.teardown id).unmapped = (m.unmapped.teardown id).unmapped := by
  cases hlive : m.enclave? id with
  | none =>
    have hgone : m.unmapped.enclave? id = none := hlive
    rw [teardown, hlive, teardown, hgone]
    rfl
  | some e =>
    have hlive' : m.unmapped.enclave? id = some e := hlive
    rw [teardown_eq hlive, teardown_eq hlive']
    rfl

/-- Nor has it an effect on what an entry leaves. -/
theorem unmapped_entered (m : Monitor) (id : EnclaveId) (e : Enclave) (entry : Entry) :
    (m.entered id e entry).unmapped = (m.unmapped.entered id e entry).unmapped := by
  simp only [entered, unmapped, Platform.enter]
  split <;> rfl

/-- The mappings play no part in a stroke. -/
theorem unmapped_strike (m : Monitor) (stroke : Stroke) :
    (m.strike stroke).unmapped = (m.unmapped.strike stroke).unmapped := by
  cases stroke with
  | write records =>
    show (m.write records).unmapped = (m.unmapped.write records).unmapped
    rw [unmapped_write, unmapped_write]
    rfl
  | enter id e entry => exact unmapped_entered m id e entry
  | remove id entry =>
    cases entry with
    | none => exact unmapped_teardown m id
    | some entry => exact congrArg (noteEntry · id entry) (unmapped_teardown m id)

/-- Two monitors that differ in their mappings alone differ in them alone after a stroke. -/
theorem strike_congr (h : m.unmapped = n.unmapped) (stroke : Stroke) :
    (m.strike stroke).unmapped = (n.strike stroke).unmapped := by
  rw [unmapped_strike, h, ← unmapped_strike]

/-- Where links and mappings agree, the mappings follow. -/
theorem Sound.eq_of_unmapped (hm : m.Sound) (hn : n.Sound) (h : m.unmapped = n.unmapped) :
    m = n := by
  obtain ⟨config, platform, identity, slots, freeSlots, pages, mailboxes⟩ := m
  obtain ⟨config', platform', identity', slots', freeSlots', pages', mailboxes'⟩ := n
  obtain ⟨script, refusesMaps, failsReleases, mappings, entries⟩ := platform
  obtain ⟨script', refusesMaps', failsReleases', mappings', entries'⟩ := platform'
  simp only [unmapped, Monitor.mk.injEq, Platform.mk.injEq, true_and] at h
  obtain ⟨rfl, ⟨rfl, rfl, rfl, rfl⟩, rfl, rfl, rfl, rfl, rfl⟩ := h
  have hmappings : mappings = mappings' := by
    funext id
    exact (hm.links.mapped id).trans (hn.links.mapped id).symm
  rw [hmappings]

/-! ## In either order -/

/-- A handle that lives and is no target has another slot than any target. -/
theorem index_ne_of_lands (hlands : m.Lands stroke) (hlive : (m.enclave? id).isSome = true)
    (hid : id ∉ stroke.targets) : ∀ other ∈ stroke.targets, other.index ≠ id.index := by
  intro other hother hindex
  obtain ⟨e, he⟩ := Option.isSome_iff_exists.mp (hlands other hother)
  obtain ⟨f, hf⟩ := Option.isSome_iff_exists.mp hlive
  exact hid (eq_of_index_eq he hf hindex ▸ hother)

/-- Records of other slots can be written before or after a write. -/
theorem write_put (hindex : ∀ other ∈ records.map Prod.fst, other.index ≠ id.index) (f : Enclave) :
    (m.write records).put id f = (m.put id f).write records := by
  induction records generalizing m with
  | nil => rfl
  | cons record rest ih =>
    have hfirst := put_comm (m := m) (hindex record.1 List.mem_cons_self) record.2 f
    have hrest := @ih (m.put record.1 record.2) fun other hother =>
      hindex other (List.mem_cons_of_mem _ hother)
    rw [hfirst] at hrest
    exact hrest

/-- A record can be written before a teardown, or after it without its link to the one who goes. -/
theorem teardown_put (hlive : m.enclave? other = some e) (hid : (m.enclave? id).isSome = true)
    (hindex : other.index ≠ id.index) (f : Enclave) :
    ((m.teardown other).put id (f.unlink other)).unmapped =
      ((m.put id f).teardown other).unmapped := by
  obtain ⟨g, hg⟩ := Option.isSome_iff_exists.mp hid
  have hne : other ≠ id := fun h => hindex (h ▸ rfl)
  have hlive' : (m.put id f).enclave? other = some e :=
    (enclave?_put_of_ne hg f hne).trans hlive
  have hindex' : id.index.toNat ≠ other.index.toNat := fun h =>
    hindex (UInt32.toNat_inj.mp h).symm
  have hslots : (m.slotsWithout other).set id.index.toNat ⟨id.generation, some (f.unlink other)⟩ =
      (m.put id f).slotsWithout other := by
    simp only [slotsWithout, cleared, put, List.set_comm _ _ hindex', List.map_set]
    rfl
  rw [teardown_eq hlive, teardown_eq hlive']
  simp only [unmapped, put, hslots]

/-- A record can be written before a stroke or after it. -/
theorem strike_put (hlands : m.Lands stroke) (hlive : (m.enclave? id).isSome = true)
    (hid : id ∉ stroke.targets) (f : Enclave) :
    ((m.strike stroke).put id (f.without stroke.gone)).unmapped =
      ((m.put id f).strike stroke).unmapped := by
  have hindex := index_ne_of_lands hlands hlive hid
  cases stroke with
  | write records => exact congrArg unmapped (write_put hindex f)
  | enter other e entry =>
    have hcomm := put_comm (m := m) (hindex other (List.mem_singleton_self other)) e f
    exact congrArg (fun n => unmapped { n with platform := (m.platform.enter other entry).2 }) hcomm
  | remove other entry =>
    obtain ⟨e, he⟩ := Option.isSome_iff_exists.mp (hlands other (List.mem_singleton_self other))
    have hcomm := teardown_put he hlive (hindex other (List.mem_singleton_self other)) f
    cases entry with
    | none => exact hcomm
    | some entry => exact congrArg (noteEntry · other entry) hcomm

/-- Records can be written before a stroke or after it. -/
theorem strike_write (hlands : m.Lands stroke) (hwrites : m.Lands (.write records))
    (hapart : ∀ id ∈ records.map Prod.fst, id ∉ stroke.targets) :
    ((m.strike stroke).strike ((Stroke.write records).without stroke.gone)).unmapped =
      ((m.strike (.write records)).strike stroke).unmapped := by
  induction records generalizing m with
  | nil => rfl
  | cons record rest ih =>
    obtain ⟨hfirst, hrest⟩ := hwrites.cons
    have hput := strike_put hlands hfirst (hapart record.1 List.mem_cons_self) record.2
    have hwrite := ih (hlands.put hfirst record.2) hrest fun id hid =>
      hapart id (List.mem_cons_of_mem _ hid)
    exact (strike_congr hput _).trans hwrite

end Monitor

end Enclaves

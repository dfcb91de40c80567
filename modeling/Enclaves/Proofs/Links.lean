import Enclaves.Proofs.Partition

/-!
# Links, connectors and mappings

Three tables say who is connected to whom: the links in the records, the connectors that the links
name, and the platform's mappings. `LinksAgree` is what they owe each other, for every monitor that
can be reached from a fresh platform.

The records are seen here through two functions of the handle, `linksOf` and `connectorOf`. What
they say is paired, whatever the platform does (`LinksPaired`); that the mappings follow is the rest
of the invariant (`LinksSound`). A connection adds one link on either side (`LinksPaired.connect`);
a disconnection and a teardown both keep the links that a symmetric relation keeps
(`LinksPaired.cut`).

The platform takes a mapping out by its region, and a record drops a link by its peer. That the two
come to the same is `map_region_filter`, and it is here that the invariant needs `MemorySound`:
connectors of two live enclaves are different regions.

A slot that no handle reaches could come to share a handle's name in the sweep of a teardown, so the
invariant also says that such slots have no links (`UnlinkedBeyond`).
-/

namespace Enclaves

/-- The peers that an enclave is connected to. -/
def Enclave.peers (e : Enclave) : List EnclaveId := e.links.map Link.peer

/-- A link is found exactly to the peers. -/
theorem Enclave.isSome_linkTo?_iff {e : Enclave} {peer : EnclaveId} :
    (e.linkTo? peer).isSome = true ↔ peer ∈ e.peers := by
  rw [linkTo?, List.find?_isSome, peers, List.mem_map]
  simp

/-- Where no peer occurs twice, dropping the first link to a peer drops them all. -/
theorem eraseP_peer_eq_filter {links : List Link} (h : (links.map Link.peer).Nodup)
    (peer : EnclaveId) : links.eraseP (·.peer = peer) = links.filter (·.peer ≠ peer) := by
  induction links with
  | nil => rfl
  | cons link rest ih =>
    obtain ⟨hnot, hrest⟩ := List.nodup_cons.mp (List.map_cons ▸ h)
    by_cases hpeer : link.peer = peer
    · rw [List.eraseP_cons_of_pos (by simpa using hpeer),
        List.filter_cons_of_neg (by simpa using hpeer)]
      refine (List.filter_eq_self.mpr fun other hother => ?_).symm
      have hne : other.peer ≠ peer := fun heq =>
        hnot (hpeer.trans heq.symm ▸ List.mem_map_of_mem hother)
      simpa using hne
    · rw [List.eraseP_cons_of_neg (by simpa using hpeer),
        List.filter_cons_of_pos (by simpa using hpeer), ih hrest]

/-- The link that the other side of a connection gets. -/
def Side.link (side : Side) : Link :=
  ⟨side.id, side.connector.region, side.connector.mailbox⟩

/-- A record keeps its links unless two enclaves meet. -/
theorem Enclave.Update.links_eq {e e' : Enclave} (h : e.Update e') : e'.links = e.links := by
  cases h <;> rfl

/-- A record keeps its connector as well. -/
theorem Enclave.Update.connector_eq {e e' : Enclave} (h : e.Update e') :
    e'.connector = e.connector := by
  cases h <;> rfl

/-- A connector is part of the memory of its enclave. -/
theorem Enclave.region_mem_regions {e : Enclave} {c : Connector} (h : e.connector = some c) :
    c.region ∈ e.regions := by
  simp [regions, h]

namespace Monitor

variable {config : Config} {m m' : Monitor} {id other : EnclaveId} {e f : Enclave}

/-! ## Links by handle -/

/-- The links of the enclave that a handle reaches. -/
def linksOf (m : Monitor) (id : EnclaveId) : List Link :=
  (m.enclave? id).elim [] Enclave.links

/-- The connector of the enclave that a handle reaches. -/
def connectorOf (m : Monitor) (id : EnclaveId) : Option Connector :=
  (m.enclave? id).bind Enclave.connector

theorem linksOf_of_live (h : m.enclave? id = some e) : m.linksOf id = e.links := by
  rw [linksOf, h, Option.elim_some]

theorem linksOf_of_gone (h : m.enclave? id = none) : m.linksOf id = [] := by
  rw [linksOf, h, Option.elim_none]

theorem connectorOf_of_live (h : m.enclave? id = some e) : m.connectorOf id = e.connector := by
  rw [connectorOf, h, Option.bind_some]

/-- Writing a record back replaces the links of one handle. -/
theorem linksOf_put (h : m.enclave? id = some e) (f : Enclave) (other : EnclaveId) :
    (m.put id f).linksOf other = if other = id then f.links else m.linksOf other :=
  elim_enclave?_put h f [] Enclave.links other

/-- Writing an enclave back with the links that it had changes no links. -/
theorem linksOf_put_of_eq (h : m.enclave? id = some e) (hlinks : f.links = e.links)
    (other : EnclaveId) : (m.put id f).linksOf other = m.linksOf other := by
  rw [linksOf_put h]
  split
  · rename_i hid
    rw [hid, linksOf_of_live h, hlinks]
  · rfl

/-- Writing an enclave back with its connector changes no connectors. -/
theorem connectorOf_put (h : m.enclave? id = some e) (hconnector : f.connector = e.connector)
    (other : EnclaveId) : (m.put id f).connectorOf other = m.connectorOf other := by
  rw [connectorOf, enclave?_put h]
  split
  · rename_i hid
    rw [hid, connectorOf_of_live h, Option.bind_some, hconnector]
  · rfl

/-- A new enclave without links brings none. -/
theorem linksOf_settle (hstack : m.StackSound) (h : e.links = []) (id : EnclaveId) :
    (m.settle e).2.linksOf id = m.linksOf id :=
  elim_enclave?_settle hstack h id

/-- Connectors stay where they are when another enclave settles. -/
theorem connectorOf_settle (hstack : m.StackSound) {c : Connector} (e : Enclave)
    (h : m.connectorOf id = some c) : (m.settle e).2.connectorOf id = some c := by
  obtain ⟨f, hlive, hconnector⟩ := Option.bind_eq_some_iff.mp h
  rw [connectorOf_of_live (enclave?_settle_of_live hstack hlive e), hconnector]

/-- A teardown drops the links of one handle, and in the others the first link to it. -/
theorem linksOf_teardown (h : m.enclave? id = some e) (other : EnclaveId) :
    (m.teardown id).linksOf other =
      if other = id then [] else (m.linksOf other).eraseP (·.peer = id) := by
  rw [linksOf, enclave?_teardown h, linksOf]
  split
  · rfl
  · cases m.enclave? other <;> rfl

/-- Whether a link outlasts an enclave, by the handles on its two ends. -/
def keepsWithout (gone id peer : EnclaveId) : Bool := id ≠ gone ∧ peer ≠ gone

/-- Of the one who goes no link is kept, and of the others those to anybody else. -/
theorem filter_keepsWithout (gone id : EnclaveId) (links : List Link) :
    links.filter (keepsWithout gone id ·.peer) =
      if id = gone then [] else links.filter (·.peer ≠ gone) := by
  split
  · rename_i hid
    simp [keepsWithout, hid]
  · rename_i hid
    simp [keepsWithout, hid]

/-- What is left of the links once an enclave is gone. -/
theorem linksOf_teardown_eq_filter (h : m.enclave? id = some e)
    (hnodup : ∀ other, ((m.linksOf other).map Link.peer).Nodup) (other : EnclaveId) :
    (m.teardown id).linksOf other = (m.linksOf other).filter (keepsWithout id other ·.peer) := by
  rw [linksOf_teardown h, filter_keepsWithout, eraseP_peer_eq_filter (hnodup other)]

/-- The others keep their connectors. -/
theorem connectorOf_teardown (h : m.enclave? id = some e) (hne : other ≠ id) :
    (m.teardown id).connectorOf other = m.connectorOf other := by
  rw [connectorOf, enclave?_teardown h, if_neg hne, connectorOf]
  cases m.enclave? other <;> rfl

/-- A partner brings the connector that its enclave has. -/
theorem Partner.connectorOf_eq {event : Event} {side peer : Side}
    (h : m.Partner event side e peer) : m.connectorOf side.id = some side.connector := by
  rw [connectorOf_of_live h.live, h.fit.connector_eq]

/-- Partners are linked before they are disconnected, and not before they are connected. -/
theorem Partner.linked_iff {event : Event} {side peer : Side} (h : m.Partner event side e peer) :
    peer.id ∈ (m.linksOf side.id).map Link.peer ↔ event = .disconnect := by
  rw [linksOf_of_live h.live, ← h.fit.linked_iff, Enclave.isSome_linkTo?_iff, Enclave.peers]

section Meeting

variable {event : Event} {sideA sideB : Side} {eA eB : Enclave}

/-- An event changes no connectors. -/
theorem connectorOf_meet (hne : sideA.id ≠ sideB.id) (hA : m.Partner event sideA eA sideB)
    (hB : m.Partner event sideB eB sideA) (other : EnclaveId) :
    (m.meet event sideA sideB eA eB).connectorOf other = m.connectorOf other := by
  rw [connectorOf, enclave?_meet hne hA hB]
  split
  · rename_i hid
    rw [hid, connectorOf_of_live hA.live]
    rfl
  split
  · rename_i hid
    rw [hid, connectorOf_of_live hB.live]
    rfl
  · rfl

/-- The links that a connection makes. -/
def newLinks (sideA sideB : Side) (id : EnclaveId) : List Link :=
  if id = sideA.id then [sideB.link]
  else if id = sideB.id then [sideA.link]
  else []

theorem newLinks_left (sideA sideB : Side) : newLinks sideA sideB sideA.id = [sideB.link] :=
  if_pos rfl

theorem newLinks_right (hne : sideA.id ≠ sideB.id) :
    newLinks sideA sideB sideB.id = [sideA.link] := by
  rw [newLinks, if_neg hne.symm, if_pos rfl]

theorem newLinks_of_ne (hidA : id ≠ sideA.id) (hidB : id ≠ sideB.id) :
    newLinks sideA sideB id = [] := by
  rw [newLinks, if_neg hidA, if_neg hidB]

/-- Each side of a connection gets the link to the other, and nobody else gets one. -/
theorem mem_newLinks_iff (hne : sideA.id ≠ sideB.id) {link : Link} :
    link ∈ newLinks sideA sideB id ↔
      id = sideA.id ∧ link = sideB.link ∨ id = sideB.id ∧ link = sideA.link := by
  by_cases hidA : id = sideA.id
  · simp [hidA, newLinks_left, hne]
  · by_cases hidB : id = sideB.id
    · simp [hidB, newLinks_right hne, hne.symm]
    · simp [newLinks_of_ne hidA hidB, hidA, hidB]

/-- A connection maps what the new links name, behind what was mapped. -/
theorem mappings_meet_connect (p : Platform) (hne : sideA.id ≠ sideB.id) (id : EnclaveId) :
    (p.meet .connect sideA sideB).mappings id =
      p.mappings id ++ (newLinks sideA sideB id).map Link.region := by
  simp only [Platform.meet, Platform.extend, Platform.set]
  by_cases hidA : id = sideA.id
  · rw [hidA, if_neg hne, if_pos rfl, newLinks_left]
    rfl
  · by_cases hidB : id = sideB.id
    · rw [hidB, if_pos rfl, if_neg hne.symm, newLinks_right hne]
      rfl
    · rw [if_neg hidB, if_neg hidA, newLinks_of_ne hidA hidB]
      simp

/-- A connection adds the new links behind the old ones. -/
theorem linksOf_meet_connect (hne : sideA.id ≠ sideB.id)
    (hA : m.Partner .connect sideA eA sideB) (hB : m.Partner .connect sideB eB sideA)
    (other : EnclaveId) :
    (m.meet .connect sideA sideB eA eB).linksOf other =
      m.linksOf other ++ newLinks sideA sideB other := by
  rw [linksOf, enclave?_meet hne hA hB, newLinks]
  split
  · rename_i hid
    rw [hid, linksOf_of_live hA.live]
    rfl
  split
  · rename_i hid
    rw [hid, linksOf_of_live hB.live]
    rfl
  · rw [List.append_nil]
    rfl

/-- Whether a disconnection keeps a link, by the handles on its two ends. -/
def keepsLink (sideA sideB : Side) (id peer : EnclaveId) : Bool :=
  !(id = sideA.id ∧ peer = sideB.id ∨ id = sideB.id ∧ peer = sideA.id)

/-- A disconnection drops the links between the two, and no others. -/
theorem linksOf_meet_disconnect (hne : sideA.id ≠ sideB.id)
    (hA : m.Partner .disconnect sideA eA sideB) (hB : m.Partner .disconnect sideB eB sideA)
    (other : EnclaveId) :
    (m.meet .disconnect sideA sideB eA eB).linksOf other =
      (m.linksOf other).filter (keepsLink sideA sideB other ·.peer) := by
  rw [linksOf, enclave?_meet hne hA hB]
  split
  · rename_i hid
    rw [hid, linksOf_of_live hA.live]
    refine List.filter_congr fun link _ => ?_
    simp [keepsLink, hne]
  split
  · rename_i hid
    rw [hid, linksOf_of_live hB.live]
    refine List.filter_congr fun link _ => ?_
    simp [keepsLink, hne.symm]
  · rename_i hidA hidB
    refine (List.filter_eq_self.mpr fun link _ => ?_).symm
    simp [keepsLink, hidA, hidB]

/-- An event writes two slots. -/
theorem slots_meet (event : Event) (sideA sideB : Side) (eA eB : Enclave) :
    (m.meet event sideA sideB eA eB).slots = (m.slots.set sideA.id.index.toNat
      ⟨sideA.id.generation, some (eA.meet event sideA sideB)⟩).set sideB.id.index.toNat
        ⟨sideB.id.generation, some (eB.meet event sideB sideA)⟩ := rfl

end Meeting

/-- Connectors of two live enclaves are different regions. -/
theorem MemorySound.connector_region_ne (h : MemorySound config m) {c d : Connector}
    (hc : m.connectorOf id = some c) (hd : m.connectorOf other = some d) (hne : other ≠ id) :
    d.region ≠ c.region := by
  obtain ⟨e, hlive, hec⟩ := Option.bind_eq_some_iff.mp hc
  obtain ⟨f, hother, hfd⟩ := Option.bind_eq_some_iff.mp hd
  have hapart := h.apart_of_ne hlive hother hne (Enclave.region_mem_regions hec)
    (Enclave.region_mem_regions hfd)
  have hvalid := h.valid c.region <| (regions_perm hlive).mem_iff.mpr <|
    List.mem_append_left _ (Enclave.region_mem_regions hec)
  have hsize := hvalid.size_pos
  intro hsame
  rw [hsame] at hapart
  simp only [Region.Apart, Region.stop] at hapart
  omega

/-! ## Slots out of reach -/

/-- No slot beyond the last handle has a link. -/
def UnlinkedBeyond (slots : List Slot) : Prop :=
  ∀ k slot e, slots[k]? = some slot → slot.occupant = some e → UInt32.size ≤ k → e.links = []

namespace UnlinkedBeyond

variable {slots : List Slot}

/-- A slot within reach may be written. -/
theorem set (h : UnlinkedBeyond slots) (index : UInt32) (slot : Slot) :
    UnlinkedBeyond (slots.set index.toNat slot) := by
  intro k slot' e hslot hocc hk
  have hne : index.toNat ≠ k := by
    have := index.toNat_lt_size
    omega
  rw [List.getElem?_set_ne hne] at hslot
  exact h k slot' e hslot hocc hk

/-- A slot may be added if whoever it holds has no links. -/
theorem concat (h : UnlinkedBeyond slots) {e : Enclave} (hlinks : e.links = [])
    (generation : UInt32) : UnlinkedBeyond (slots ++ [⟨generation, some e⟩]) := by
  intro k slot f hslot hocc hk
  rw [List.getElem?_append] at hslot
  split at hslot
  · exact h k slot f hslot hocc hk
  · have hmem := List.mem_of_getElem? hslot
    rw [List.mem_singleton] at hmem
    rw [hmem] at hocc
    cases hocc
    exact hlinks

/-- Dropping links adds none. -/
theorem unlink (h : UnlinkedBeyond slots) (gone : EnclaveId) :
    UnlinkedBeyond (slots.map (Slot.unlink gone)) := by
  intro k slot e hslot hocc hk
  rw [List.getElem?_map] at hslot
  obtain ⟨slot', hslot', rfl⟩ := Option.map_eq_some_iff.mp hslot
  obtain ⟨e', hocc', rfl⟩ := Option.map_eq_some_iff.mp hocc
  have hnone := h k slot' e' hslot' hocc' hk
  show e'.links.eraseP _ = []
  rw [hnone, List.eraseP_nil]

end UnlinkedBeyond

/-- What a teardown unmaps from an enclave that stays: the region of its link, if it has one. -/
theorem mem_unmapped_iff (hfar : UnlinkedBeyond m.slots) (h : m.enclave? id = some e)
    (hother : m.enclave? other = some f) (hne : other ≠ id) {r : Region} :
    r ∈ unmappedFrom id other 0 (m.cleared id) ↔
      ∃ link, f.linkTo? id = some link ∧ link.region = r := by
  have hindex := index_toNat_ne h hother hne
  have hslot := enclave?_eq_some_iff.mp hother
  rw [mem_unmappedFrom_iff]
  constructor
  · rintro ⟨k, slot, f', link, hat, hid, hocc, hlink, hregion⟩
    rw [Nat.zero_add] at hid
    have hnear : k < UInt32.size := by
      refine Nat.lt_of_not_le fun hk => ?_
      have hnone := hfar.set id.index _ k slot f' hat hocc hk
      rw [Enclave.linkTo?, hnone] at hlink
      cases hlink
    have hk : other.index.toNat = k := by
      rw [← hid]
      exact UInt32.toNat_ofNat_of_lt hnear
    rw [← hk, getElem?_cleared_of_ne hindex.symm, hslot] at hat
    cases hat
    cases hocc
    exact ⟨link, hlink, hregion⟩
  · rintro ⟨link, hlink, hregion⟩
    refine ⟨other.index.toNat, ⟨other.generation, some f⟩, f, link, ?_, ?_, rfl, hlink, hregion⟩
    · rw [getElem?_cleared_of_ne hindex.symm, hslot]
    · rw [Nat.zero_add, UInt32.ofNat_toNat]

/-! ## What the records say -/

/-- Links and connectors agree, on both sides of every connection. -/
structure LinksPaired (m : Monitor) : Prop where
  irreflexive : ∀ {id link}, link ∈ m.linksOf id → link.peer ≠ id
  nodup : ∀ id, ((m.linksOf id).map Link.peer).Nodup
  connector : ∀ {id link}, link ∈ m.linksOf id →
    m.connectorOf link.peer = some ⟨link.region, link.mailbox⟩
  symmetric : ∀ {id link}, link ∈ m.linksOf id → ∃ back ∈ m.linksOf link.peer, back.peer = id
  far : UnlinkedBeyond m.slots

namespace LinksPaired

variable {event : Event} {sideA sideB : Side} {eA eB : Enclave}

/-- At the start there are no links. -/
theorem start {platform : Platform} {identity : Identity}
    (h : Monitor.start config platform identity = .ok m) : LinksPaired m := by
  unfold Monitor.start at h
  split at h
  · cases h
  cases h
  have hnone (id : EnclaveId) : (⟨config, platform, identity, [], [],
      .ofRange config.dramBase config.totalPages, []⟩ : Monitor).linksOf id = [] := rfl
  refine ⟨?_, ?_, ?_, ?_, ?_⟩
  · intro id link hlink
    rw [hnone] at hlink
    cases hlink
  · intro id
    rw [hnone]
    exact .nil
  · intro id link hlink
    rw [hnone] at hlink
    cases hlink
  · intro id link hlink
    rw [hnone] at hlink
    cases hlink
  · intro k slot e hslot
    cases hslot

/-- A change that leaves links and connectors alone. -/
theorem congr (h : LinksPaired m) (hlinks : ∀ id, m'.linksOf id = m.linksOf id)
    (hconnector : ∀ {id c}, m.connectorOf id = some c → m'.connectorOf id = some c)
    (hfar : UnlinkedBeyond m'.slots) : LinksPaired m' where
  irreflexive hlink := h.irreflexive (hlinks _ ▸ hlink)
  nodup id := hlinks id ▸ h.nodup id
  connector hlink := hconnector (h.connector (hlinks _ ▸ hlink))
  symmetric hlink := by
    rw [hlinks] at hlink ⊢
    exact h.symmetric hlink
  far := hfar

/-- A change that keeps some links and drops others, on both sides alike. -/
theorem cut (h : LinksPaired m) (keep : EnclaveId → EnclaveId → Bool)
    (hkeep : ∀ id peer, keep id peer = keep peer id)
    (hlinks : ∀ id, m'.linksOf id = (m.linksOf id).filter (keep id ·.peer))
    (hconnector : ∀ {id peer}, keep id peer = true → m'.connectorOf peer = m.connectorOf peer)
    (hfar : UnlinkedBeyond m'.slots) : LinksPaired m' := by
  have hmem {id : EnclaveId} {link : Link} :
      link ∈ m'.linksOf id ↔ link ∈ m.linksOf id ∧ keep id link.peer = true := by
    rw [hlinks, List.mem_filter]
  refine ⟨?_, ?_, ?_, ?_, hfar⟩
  · intro id link hlink
    exact h.irreflexive (hmem.mp hlink).1
  · intro id
    rw [hlinks]
    exact (h.nodup id).sublist (List.filter_sublist.map _)
  · intro id link hlink
    rw [hconnector (hmem.mp hlink).2]
    exact h.connector (hmem.mp hlink).1
  · intro id link hlink
    obtain ⟨hold, hkept⟩ := hmem.mp hlink
    obtain ⟨back, hback, rfl⟩ := h.symmetric hold
    exact ⟨back, hmem.mpr ⟨hback, hkeep _ _ ▸ hkept⟩, rfl⟩

/-- No link leads to an enclave that is gone. -/
theorem linkTo?_of_gone (h : LinksPaired m) (hlive : m.enclave? id = some e)
    (hgone : m.enclave? other = none) : e.linkTo? other = none := by
  by_contra hlink
  obtain ⟨link, hfound⟩ := Option.ne_none_iff_exists'.mp hlink
  have hpeer : link.peer = other := by simpa using List.find?_some hfound
  have hconnector := h.connector (linksOf_of_live hlive ▸ List.mem_of_find?_eq_some hfound)
  rw [hpeer, connectorOf, hgone] at hconnector
  cases hconnector

/-! ### What the effects do to it -/

/-- An enclave is written back with the links and the connector that it had. -/
theorem put (h : LinksPaired m) (hlive : m.enclave? id = some e) (hlinks : f.links = e.links)
    (hconnector : f.connector = e.connector) : LinksPaired (m.put id f) :=
  h.congr (linksOf_put_of_eq hlive hlinks)
    (fun hc => (connectorOf_put hlive hconnector _).trans hc) (h.far.set _ _)

/-- A new enclave has no links. -/
theorem enroll (h : LinksPaired m) (hstack : m.StackSound) (exclusive : Region)
    (untrusted connector : Option Region) (pages : PageAllocator) :
    LinksPaired (m.enroll exclusive untrusted connector pages).2 := by
  let e := m.newcomer exclusive untrusted connector
  have hsupplied := hstack.supply pages e
  refine h.congr (linksOf_settle hsupplied rfl) (connectorOf_settle hsupplied e) ?_
  rcases settle_cases hsupplied e with ⟨index, generation, _, -, -, hsettle⟩ | ⟨-, hsettle⟩
  · exact congrArg (·.2.slots) hsettle ▸ h.far.set index ⟨generation, some e⟩
  · exact congrArg (·.2.slots) hsettle ▸ h.far.concat rfl EnclaveId.firstGeneration

/-- With an enclave its links go, and those of its peers to it. -/
theorem remove (h : LinksPaired m) (hlive : m.enclave? id = some e) :
    LinksPaired (m.teardown id) := by
  refine h.cut (keepsWithout id) (fun a b => ?_) (linksOf_teardown_eq_filter hlive h.nodup)
    (fun hkept => ?_) ?_
  · simp only [keepsWithout, and_comm]
  · exact connectorOf_teardown hlive (by simpa [keepsWithout] using hkept : _ ∧ _).2
  · rw [teardown_eq hlive]
    exact (h.far.set _ _).unlink id

/-- A connection pairs two enclaves that were not linked. -/
theorem connect (h : LinksPaired m) (hne : sideA.id ≠ sideB.id)
    (hA : m.Partner .connect sideA eA sideB) (hB : m.Partner .connect sideB eB sideA) :
    LinksPaired (m.meet .connect sideA sideB eA eB) := by
  have hlinks := linksOf_meet_connect hne hA hB
  have hmem {id : EnclaveId} {link : Link} :
      link ∈ (m.meet .connect sideA sideB eA eB).linksOf id ↔ link ∈ m.linksOf id ∨
        (id = sideA.id ∧ link = sideB.link ∨ id = sideB.id ∧ link = sideA.link) := by
    rw [hlinks, List.mem_append, mem_newLinks_iff hne]
  refine ⟨?_, ?_, ?_, ?_, ?_⟩
  · intro id link hlink
    rcases hmem.mp hlink with hold | ⟨rfl, rfl⟩ | ⟨rfl, rfl⟩
    · exact h.irreflexive hold
    · exact hne.symm
    · exact hne
  · intro id
    rw [hlinks, List.map_append, List.nodup_append]
    refine ⟨h.nodup id, ?_, ?_⟩
    · unfold newLinks
      split
      · simp
      split
      · simp
      · exact .nil
    · rintro peer hold _ hmade rfl
      obtain ⟨link, hlink, rfl⟩ := List.mem_map.mp hmade
      rcases (mem_newLinks_iff hne).mp hlink with ⟨rfl, rfl⟩ | ⟨rfl, rfl⟩
      · cases hA.linked_iff.mp hold
      · cases hB.linked_iff.mp hold
  · intro id link hlink
    rw [connectorOf_meet hne hA hB]
    rcases hmem.mp hlink with hold | ⟨rfl, rfl⟩ | ⟨rfl, rfl⟩
    · exact h.connector hold
    · exact hB.connectorOf_eq
    · exact hA.connectorOf_eq
  · intro id link hlink
    rcases hmem.mp hlink with hold | ⟨rfl, rfl⟩ | ⟨rfl, rfl⟩
    · obtain ⟨back, hback, hpeer⟩ := h.symmetric hold
      exact ⟨back, hmem.mpr (.inl hback), hpeer⟩
    · exact ⟨sideA.link, hmem.mpr (.inr (.inr ⟨rfl, rfl⟩)), rfl⟩
    · exact ⟨sideB.link, hmem.mpr (.inr (.inl ⟨rfl, rfl⟩)), rfl⟩
  · rw [slots_meet]
    exact (h.far.set _ _).set _ _

/-- A disconnection drops the link of either side to the other. -/
theorem disconnect (h : LinksPaired m) (hne : sideA.id ≠ sideB.id)
    (hA : m.Partner .disconnect sideA eA sideB) (hB : m.Partner .disconnect sideB eB sideA) :
    LinksPaired (m.meet .disconnect sideA sideB eA eB) := by
  refine h.cut (keepsLink sideA sideB) (fun a b => ?_) (linksOf_meet_disconnect hne hA hB)
    (fun _ => connectorOf_meet hne hA hB _) ?_
  · simp only [keepsLink, and_comm, or_comm]
  · rw [slots_meet]
    exact (h.far.set _ _).set _ _

/-- No act changes that, whatever the platform does. -/
theorem step (h : LinksPaired m) (hstack : m.StackSound) {act : Act}
    (heffect : m.Effect act m') : LinksPaired m' := by
  cases heffect with
  | idle => exact h
  | around => exact h.congr (fun _ => rfl) (fun hc => hc) h.far
  | short => exact h.congr (fun _ => rfl) (fun hc => hc) h.far
  | enroll => exact h.enroll hstack _ _ _ _
  | update hlive hupdate =>
    have hput := h.put hlive hupdate.links_eq hupdate.connector_eq
    exact hput.congr (fun _ => rfl) (fun hc => hc) hput.far
  | remove hlive =>
    have hgone := h.remove hlive
    exact hgone.congr (fun _ => rfl) (fun hc => hc) hgone.far
  | retract => exact h.congr (fun _ => rfl) (fun hc => hc) h.far
  | @meet event sideA sideB eA eB hne hA hB _ =>
    cases event with
    | connect => exact h.connect hne hA hB
    | disconnect => exact h.disconnect hne hA hB

end LinksPaired

/-- The records agree after every run, on any platform. -/
theorem linksPaired_perform {platform : Platform} {identity : Identity}
    (hstart : Monitor.start config platform identity = .ok m) (acts : List Act) :
    LinksPaired (m.perform acts) := by
  have hboth := perform_induction (P := fun m => MemorySound config m ∧ LinksPaired m)
    (fun h heffect => ⟨h.1.step heffect, h.2.step h.1.stack heffect⟩)
    ⟨.start hstart, .start hstart⟩ acts
  exact hboth.2

/-! ## The mappings follow -/

/-- Links, connectors and mappings agree. -/
structure LinksSound (m : Monitor) : Prop extends LinksPaired m where
  mapped : ∀ id, m.platform.mappings id = (m.linksOf id).map Link.region

namespace LinksSound

variable {event : Event} {sideA sideB : Side} {eA eB : Enclave}

/-- At the start nothing is mapped. -/
theorem start {platform : Platform} {identity : Identity}
    (hfresh : ∀ id, platform.mappings id = [])
    (h : Monitor.start config platform identity = .ok m) : LinksSound m where
  toLinksPaired := .start h
  mapped := by
    unfold Monitor.start at h
    split at h
    · cases h
    cases h
    exact hfresh

/-- A change that leaves links and mappings alone. -/
theorem congr (h : LinksSound m) (hpaired : LinksPaired m')
    (hlinks : ∀ id, m'.linksOf id = m.linksOf id)
    (hmappings : m'.platform.mappings = m.platform.mappings) : LinksSound m' where
  toLinksPaired := hpaired
  mapped id := by
    rw [hmappings, hlinks]
    exact h.mapped id

/-- A region is mapped for the peer whose connector it is, and for no other. -/
theorem region_eq_iff (h : LinksSound m) (hmemory : MemorySound config m) {link : Link}
    (hlink : link ∈ m.linksOf id) {peer : EnclaveId} {c : Connector}
    (hc : m.connectorOf peer = some c) : link.region = c.region ↔ link.peer = peer := by
  have hconnector := h.connector hlink
  constructor
  · intro hregion
    by_contra hne
    exact hmemory.connector_region_ne hc hconnector hne hregion
  · rintro rfl
    rw [hc] at hconnector
    cases hconnector
    rfl

/-- Taking a peer's connector out of the mappings is dropping the link to it. -/
theorem map_region_filter (h : LinksSound m) (hmemory : MemorySound config m) (id : EnclaveId)
    {peer : EnclaveId} {c : Connector} (hc : m.connectorOf peer = some c) :
    ((m.linksOf id).map Link.region).filter (· ≠ c.region) =
      ((m.linksOf id).filter (·.peer ≠ peer)).map Link.region := by
  rw [List.filter_map]
  congr 1
  refine List.filter_congr fun link hlink => ?_
  simp only [Function.comp_apply, ne_eq, h.region_eq_iff hmemory hlink hc]

/-- A teardown takes the links to an enclave and the mappings of its connector away together. -/
theorem mappingsWithout_of_ne (h : LinksSound m) (hmemory : MemorySound config m)
    (hlive : m.enclave? id = some e) (hne : other ≠ id) :
    m.mappingsWithout id other = ((m.linksOf other).filter (·.peer ≠ id)).map Link.region := by
  rw [mappingsWithout, Platform.set, if_neg hne, h.mapped]
  cases hother : m.enclave? other with
  | none => rw [linksOf_of_gone hother]; rfl
  | some f =>
    have hlinks := linksOf_of_live hother
    have hiff {link : Link} (hlink : link ∈ m.linksOf other) :
        link.region ∈ unmappedFrom id other 0 (m.cleared id) ↔ link.peer = id := by
      rw [mem_unmapped_iff h.far hlive hother hne]
      constructor
      · rintro ⟨first, hfirst, hregion⟩
        have hpeer : first.peer = id := by simpa using List.find?_some hfirst
        have hc := h.connector (hlinks ▸ List.mem_of_find?_eq_some hfirst)
        exact ((h.region_eq_iff hmemory hlink hc).mp hregion.symm).trans hpeer
      · intro hpeer
        have hlinked : id ∈ f.peers := hpeer ▸ List.mem_map_of_mem (hlinks ▸ hlink)
        obtain ⟨first, hfirst⟩ := Option.isSome_iff_exists.mp
          (Enclave.isSome_linkTo?_iff.mpr hlinked)
        have hpeer' : first.peer = id := by simpa using List.find?_some hfirst
        have hc := h.connector (hlinks ▸ List.mem_of_find?_eq_some hfirst)
        exact ⟨first, hfirst,
          ((h.region_eq_iff hmemory hlink hc).mpr (hpeer.trans hpeer'.symm)).symm⟩
    rw [List.filter_map]
    congr 1
    refine List.filter_congr fun link hlink => ?_
    simp only [Function.comp_apply, hiff hlink, ne_eq]

/-! ### What the effects do to the mappings -/

/-- With an enclave its mappings go, and those of its connector. -/
theorem remove (h : LinksSound m) (hmemory : MemorySound config m)
    (hlive : m.enclave? id = some e) : LinksSound (m.teardown id) where
  toLinksPaired := h.toLinksPaired.remove hlive
  mapped other := by
    rw [linksOf_teardown_eq_filter hlive h.nodup, filter_keepsWithout, teardown_eq hlive]
    show m.mappingsWithout id other = _
    split
    · rename_i hid
      rw [hid, mappingsWithout, Platform.set, if_pos rfl]
      rfl
    · rename_i hid
      exact h.mappingsWithout_of_ne hmemory hlive hid

/-- A mapping that is made for a peer without a link and taken out again leaves no trace. -/
theorem retract_eq (h : LinksSound m) (hmemory : MemorySound config m) {peer : EnclaveId}
    {c : Connector} (hc : m.connectorOf peer = some c)
    (hunlinked : ∀ link ∈ m.linksOf id, link.peer ≠ peer) :
    m.platform.retract id c.region = m.platform := by
  have hsame : (m.platform.mappings id).filter (· ≠ c.region) = m.platform.mappings id := by
    rw [h.mapped, h.map_region_filter hmemory id hc,
      List.filter_eq_self.mpr (by simpa using hunlinked)]
  have hmappings : (m.platform.retract id c.region).mappings = m.platform.mappings := by
    funext other
    by_cases hother : other = id
    · rw [hother]
      simp only [Platform.retract, Platform.unmap, Platform.extend, Platform.set, ↓reduceIte,
        List.filter_append, hsame]
      simp
    · simp only [Platform.retract, Platform.unmap, Platform.extend, Platform.set, if_neg hother]
  show { m.platform with mappings := (m.platform.retract id c.region).mappings } = m.platform
  rw [hmappings]

/-- So a connection that was taken back leaves no trace. -/
theorem retract_of_partners (h : LinksSound m) (hmemory : MemorySound config m)
    (hA : m.Partner .connect sideA eA sideB) (hB : m.Partner .connect sideB eB sideA) :
    m.platform.retract sideA.id sideB.connector.region = m.platform := by
  refine h.retract_eq hmemory hB.connectorOf_eq fun link hlink hpeer => ?_
  have hlinked := hA.linked_iff.mp (hpeer ▸ List.mem_map_of_mem hlink)
  cases hlinked

/-- A connection maps the connector of either side into the other. -/
theorem connect (h : LinksSound m) (hne : sideA.id ≠ sideB.id)
    (hA : m.Partner .connect sideA eA sideB) (hB : m.Partner .connect sideB eB sideA) :
    LinksSound (m.meet .connect sideA sideB eA eB) where
  toLinksPaired := h.toLinksPaired.connect hne hA hB
  mapped id := by
    rw [linksOf_meet_connect hne hA hB, List.map_append, ← h.mapped]
    exact mappings_meet_connect m.platform hne id

/-- A disconnection takes the connector of either side out of the other. -/
theorem disconnect (h : LinksSound m) (hmemory : MemorySound config m)
    (hne : sideA.id ≠ sideB.id) (hA : m.Partner .disconnect sideA eA sideB)
    (hB : m.Partner .disconnect sideB eB sideA) :
    LinksSound (m.meet .disconnect sideA sideB eA eB) where
  toLinksPaired := h.toLinksPaired.disconnect hne hA hB
  mapped id := by
    rw [linksOf_meet_disconnect hne hA hB]
    show (m.platform.meet .disconnect sideA sideB).mappings id = _
    simp only [Platform.meet, Platform.unmap, Platform.set]
    by_cases hidA : id = sideA.id
    · rw [hidA, if_neg hne, if_pos rfl, h.mapped,
        h.map_region_filter hmemory sideA.id hB.connectorOf_eq]
      congr 1
      refine List.filter_congr fun link _ => ?_
      simp [keepsLink, hne]
    · by_cases hidB : id = sideB.id
      · rw [hidB, if_pos rfl, if_neg hne.symm, h.mapped,
          h.map_region_filter hmemory sideB.id hA.connectorOf_eq]
        congr 1
        refine List.filter_congr fun link _ => ?_
        simp [keepsLink, hne.symm]
      · rw [if_neg hidB, if_neg hidA, h.mapped]
        congr 1
        refine (List.filter_eq_self.mpr fun link _ => ?_).symm
        simp [keepsLink, hidA, hidB]

/-- No act changes that, where the memory is divided. -/
theorem step (h : LinksSound m) (hmemory : MemorySound config m) {act : Act}
    (heffect : m.Effect act m') : LinksSound m' := by
  have hpaired := h.toLinksPaired.step hmemory.stack heffect
  cases heffect with
  | idle => exact h
  | around hmappings => exact h.congr hpaired (fun _ => rfl) hmappings
  | short => exact h.congr hpaired (fun _ => rfl) rfl
  | enroll =>
    refine h.congr hpaired (linksOf_settle (hmemory.stack.supply _ _) rfl) ?_
    exact congrArg Platform.mappings (platform_settle _ _)
  | update hlive hupdate hmappings =>
    exact h.congr hpaired (linksOf_put_of_eq hlive hupdate.links_eq) hmappings
  | remove hlive =>
    exact (h.remove hmemory hlive).congr hpaired (fun _ => rfl) rfl
  | retract hne hA hB =>
    refine h.congr hpaired (fun _ => rfl) ?_
    exact congrArg Platform.mappings (h.retract_of_partners hmemory hA hB)
  | @meet event sideA sideB eA eB hne hA hB _ =>
    cases event with
    | connect => exact h.connect hne hA hB
    | disconnect => exact h.disconnect hmemory hne hA hB

end LinksSound

/-! ## Reachable monitors -/

/-- A monitor that some run leads to, on a platform into which nothing had been mapped. -/
inductive Reachable : Monitor → Prop
  | start {config : Config} {platform : Platform} {identity : Identity} {m : Monitor} :
    (∀ id, platform.mappings id = []) → Monitor.start config platform identity = .ok m →
    Reachable m
  | act {m : Monitor} (act : Act) : Reachable m → Reachable (m.act act)

/-- From a monitor that is reached, every run leads to another. -/
theorem Reachable.perform (h : Reachable m) (acts : List Act) : Reachable (m.perform acts) := by
  induction acts generalizing m with
  | nil => exact h
  | cons act rest ih => exact ih (h.act act)

/-- What is known of every monitor that can be reached. -/
structure Sound (m : Monitor) : Prop where
  memory : ∃ config, MemorySound config m
  links : LinksSound m

/-- The memory is divided and the links agree wherever a run leads. -/
theorem Reachable.sound (h : Reachable m) : m.Sound := by
  induction h with
  | @start config platform identity m hfresh hstart =>
    exact ⟨⟨config, .start hstart⟩, .start hfresh hstart⟩
  | @act m act _ ih =>
    obtain ⟨⟨config, hmemory⟩, hlinks⟩ := ih
    exact ⟨⟨config, hmemory.step (effect_act m act)⟩, hlinks.step hmemory (effect_act m act)⟩

/-- The stack of cleared slots is sound wherever a run leads. -/
theorem Reachable.stack (h : m.Reachable) : m.StackSound := by
  obtain ⟨⟨config, hmemory⟩, -⟩ := h.sound
  exact hmemory.stack

/-- Links, connectors and mappings tell the same of who is connected to whom. -/
structure LinksAgree (m : Monitor) : Prop where
  irreflexive : ∀ id e, m.enclave? id = some e → id ∉ e.peers
  symmetric : ∀ id e peer, m.enclave? id = some e → peer ∈ e.peers →
    ∃ f, m.enclave? peer = some f ∧ id ∈ f.peers
  nodup : ∀ id e, m.enclave? id = some e → e.peers.Nodup
  /-- A link has the region and the mailbox that its peer has now. -/
  connector : ∀ id e, m.enclave? id = some e → ∀ link ∈ e.links,
    ∃ f, m.enclave? link.peer = some f ∧ f.connector = some ⟨link.region, link.mailbox⟩
  mapped : ∀ id e, m.enclave? id = some e → m.platform.mappings id = e.links.map Link.region
  unmapped : ∀ id, m.enclave? id = none → m.platform.mappings id = []
  /-- Nothing that is mapped is free. -/
  not_free : ∀ id, ∀ r ∈ m.platform.mappings id, ∀ run ∈ m.pages.free,
    r.stop ≤ run.base ∨ run.stop ≤ r.base
  /-- Nothing that is mapped belongs to anyone but the peers. -/
  not_foreign : ∀ id, ∀ r ∈ m.platform.mappings id, ∀ other f, m.enclave? other = some f →
    (∀ e, m.enclave? id = some e → other ∉ e.peers) → ∀ s ∈ f.regions, r.Apart s

/-- What is mapped is the connector of a peer. -/
theorem LinksSound.exists_owner (h : LinksSound m) {r : Region}
    (hr : r ∈ m.platform.mappings id) :
    ∃ link ∈ m.linksOf id, ∃ f, m.enclave? link.peer = some f ∧ r ∈ f.regions := by
  rw [h.mapped] at hr
  obtain ⟨link, hlink, rfl⟩ := List.mem_map.mp hr
  obtain ⟨f, hpeer, hconnector⟩ := Option.bind_eq_some_iff.mp (h.connector hlink)
  exact ⟨link, hlink, f, hpeer, Enclave.region_mem_regions hconnector⟩

/-- The invariant in words of the records. -/
theorem Sound.linksAgree (h : m.Sound) : m.LinksAgree := by
  obtain ⟨⟨config, hmemory⟩, hlinks⟩ := h
  refine ⟨?_, ?_, ?_, ?_, ?_, ?_, ?_, ?_⟩
  · intro id e hlive hpeer
    obtain ⟨link, hlink, hself⟩ := List.mem_map.mp hpeer
    exact hlinks.irreflexive (linksOf_of_live hlive ▸ hlink) hself
  · intro id e peer hlive hpeer
    obtain ⟨link, hlink, rfl⟩ := List.mem_map.mp hpeer
    have hlink' : link ∈ m.linksOf id := linksOf_of_live hlive ▸ hlink
    obtain ⟨f, hother, -⟩ := Option.bind_eq_some_iff.mp (hlinks.connector hlink')
    obtain ⟨back, hback, hid⟩ := hlinks.symmetric hlink'
    rw [linksOf_of_live hother] at hback
    exact ⟨f, hother, hid ▸ List.mem_map_of_mem hback⟩
  · intro id e hlive
    rw [Enclave.peers, ← linksOf_of_live hlive]
    exact hlinks.nodup id
  · intro id e hlive link hlink
    exact Option.bind_eq_some_iff.mp (hlinks.connector (linksOf_of_live hlive ▸ hlink))
  · intro id e hlive
    rw [hlinks.mapped, linksOf_of_live hlive]
  · intro id hgone
    rw [hlinks.mapped, linksOf_of_gone hgone, List.map_nil]
  · intro id r hr run hrun
    obtain ⟨link, -, f, hpeer, howned⟩ := hlinks.exists_owner hr
    exact hmemory.apart_free ((regions_perm hpeer).mem_iff.mpr (List.mem_append_left _ howned)) hrun
  · intro id r hr other f hother hunlinked s hs
    obtain ⟨link, hlink, g, hpeer, howned⟩ := hlinks.exists_owner hr
    cases hlive : m.enclave? id with
    | none =>
      rw [linksOf_of_gone hlive] at hlink
      cases hlink
    | some e =>
      rw [linksOf_of_live hlive] at hlink
      have hne : other ≠ link.peer := fun h =>
        hunlinked e hlive (h ▸ List.mem_map_of_mem hlink)
      exact hmemory.apart_of_ne hpeer hother hne howned hs

/-- Whatever is called, refused or destroyed, links, connectors and mappings agree. -/
theorem links_agree (h : m.Reachable) : m.LinksAgree := h.sound.linksAgree

/-- Two enclaves are loaded, finalized and connected, and one of them goes. -/
theorem links_agree_default :
    ∃ m, Monitor.start {} .initial ⟨⟨⟨List.replicate 32 7, rfl⟩⟩, ⟨⟨List.replicate 64 9, rfl⟩⟩⟩ =
        .ok m ∧
      LinksAgree (m.perform [.call (.allocate 16), .call (.allocate 4),
        .call (.setReference ⟨0, 1⟩ "first"), .call (.setReference ⟨1, 1⟩ "second"),
        .call (.finalize ⟨0, 1⟩ ⟨0x80000000, 0x80001000, 0x80002000, 0x80003000⟩),
        .call (.finalize ⟨1, 1⟩ ⟨0x80052000, 0x80053000, 0x80054000, 0x80055000⟩),
        .call (.connect ⟨0, 1⟩ ⟨1, 1⟩), .call (.destroy ⟨0, 1⟩)]) :=
  ⟨_, rfl, links_agree
    (Reachable.perform (@Reachable.start {} .initial _ _ (fun _ => rfl) rfl) _)⟩

end Monitor

end Enclaves

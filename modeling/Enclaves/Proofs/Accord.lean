import Enclaves.Proofs.Lifetime
import Enclaves.Proofs.Links

/-!
# When two enclaves agree to an event

`step_meeting_eq_done_iff` says of every monitor when an event goes through: when both sides suit
each other and the platform refuses neither. Neither that nor the meeting itself depends on the side
that is named first (`meet_comm`).

What a side needs is checked at length, and much of it holds anyway in a monitor that some run leads
to: a connector if connectors are configured at all, and with a link also a reference and a
measurement (`Equipped`). `Accord` is what is left of the conditions then.
-/

namespace Enclaves

/-- Whether the platform stands in the way of an event, on one of its sides. -/
def Platform.hinders (p : Platform) : Event → EnclaveId → Bool
  | .connect, id => p.refusesMaps id
  | .disconnect, _ => false

/-- Two values of a function are replaced in either order. -/
theorem Platform.set_comm {α : Type} (f : EnclaveId → α) {a b : EnclaveId} (h : a ≠ b) (x y : α) :
    set (set f a x) b y = set (set f b y) a x := by
  funext id
  by_cases ha : id = a
  · subst ha
    simp [set, h]
  · simp [set, ha]

/-- Both connectors change hands, whichever is first. -/
theorem Platform.meet_comm (p : Platform) (event : Event) {sideA sideB : Side}
    (h : sideA.id ≠ sideB.id) : p.meet event sideA sideB = p.meet event sideB sideA := by
  cases event with
  | connect =>
    simp only [meet, extend, mk.injEq, true_and, and_true]
    rw [set_comm _ h]
    simp [set, h, h.symm]
  | disconnect =>
    simp only [meet, unmap, mk.injEq, true_and, and_true]
    rw [set_comm _ h]
    simp [set, h, h.symm]

namespace Enclave

/-- A record with what every record has that was made in a configuration, and with what every
connected one has. -/
structure Equipped (config : Config) (e : Enclave) : Prop where
  connector_iff : e.connector ≠ none ↔ 0 < config.connectorPages
  connected : e.links ≠ [] → e.connector ≠ none ∧ e.reference ≠ none

/-- What an event needs of one side, apart from the platform. -/
def Suits (e : Enclave) (event : Event) (peer : EnclaveId) : Prop :=
  ∃ digest connector reference, e.Fit event peer digest connector reference

variable {config : Config} {e e' : Enclave} {event : Event} {peer : EnclaveId} {capacity : Nat}

/-- What one record goes through takes no equipment away. -/
theorem Equipped.carried (h : e.Equipped config) (hcarried : e.Carried e') :
    e'.Equipped config := by
  cases hcarried with
  | same => exact h
  | unlink gone =>
    refine ⟨h.connector_iff, fun hlinks => h.connected ?_⟩
    intro hnil
    exact hlinks (by simp [unlink, hnil])
  | update hupdate =>
    refine ⟨hupdate.connector_eq ▸ h.connector_iff, fun hlinks => ?_⟩
    obtain ⟨hconnector, hreference⟩ := h.connected (hupdate.links_eq ▸ hlinks)
    refine ⟨hupdate.connector_eq ▸ hconnector, ?_⟩
    cases hupdate with
    | setReference reference _ => exact Option.some_ne_none reference
    | load image reference _ => exact Option.some_ne_none reference
    | _ => exact hreference

/-- Nor does an event it has a part in. -/
theorem Equipped.meet (h : e.Equipped config) {digest : Digest} {connector : Connector}
    {reference : Reference} (hfit : e.Fit event peer digest connector reference)
    (side other : Side) : (e.meet event side other).Equipped config := by
  refine ⟨h.connector_iff, fun _ => ⟨?_, ?_⟩⟩
  · exact hfit.connector_eq ▸ Option.some_ne_none connector
  · exact hfit.reference_eq ▸ Option.some_ne_none reference

/-- A log within its capacity has room as long as it is shorter. -/
theorem isFull_eq_false_iff (h : e.log.Within capacity) :
    e.log.isFull = false ↔ e.log.entries.length < capacity := by
  rw [ConnectionLog.isFull, h.capacity_eq, decide_eq_false_iff_not, Nat.not_le]

/-- A measurement need not be asked for, it comes with the state. -/
theorem suits_iff (h : e.Staged capacity) :
    e.Suits event peer ↔ event.admits e.state = true ∧ e.connector ≠ none ∧ e.reference ≠ none ∧
      (peer ∈ e.peers ↔ event = .disconnect) ∧ e.log.entries.length < capacity := by
  constructor
  · rintro ⟨digest, connector, reference, hfit⟩
    refine ⟨hfit.admitted, ?_, ?_, ?_, ?_⟩
    · exact hfit.connector_eq ▸ Option.some_ne_none connector
    · exact hfit.reference_eq ▸ Option.some_ne_none reference
    · rw [← isSome_linkTo?_iff, hfit.linked_iff]
    · exact (isFull_eq_false_iff h.log_within).mp hfit.room
  · rintro ⟨hadmitted, hconnector, hreference, hlinked, hroom⟩
    have hmeasured : e.state ≠ .allocated := by
      intro hstate
      rw [hstate] at hadmitted
      cases event <;> cases hadmitted
    obtain ⟨connector, hconnector⟩ := Option.ne_none_iff_exists'.mp hconnector
    obtain ⟨reference, hreference⟩ := Option.ne_none_iff_exists'.mp hreference
    obtain ⟨digest, hdigest⟩ :=
      Option.ne_none_iff_exists'.mp (mt h.digest_eq_none_iff.mp hmeasured)
    exact ⟨digest, connector, reference, hadmitted, hconnector, hreference,
      isSome_linkTo?_iff.trans hlinked, (isFull_eq_false_iff h.log_within).mpr hroom, hdigest⟩

/-- What a connection asks of one side: a state, a connector, a reference, no link and room in the
log. -/
theorem suits_connect_iff (h : e.Staged capacity) (hequipped : e.Equipped config) :
    e.Suits .connect peer ↔ (e.state = .finalized ∨ e.state = .running) ∧
      0 < config.connectorPages ∧ e.reference ≠ none ∧ peer ∉ e.peers ∧
      e.log.entries.length < capacity := by
  have hstate : Event.connect.admits e.state = true ↔
      e.state = .finalized ∨ e.state = .running := by
    cases e.state <;> decide
  rw [suits_iff h, hstate, hequipped.connector_iff]
  simp only [reduceCtorEq, iff_false]

/-- A connected enclave is measured, and has all that made the connection. -/
theorem equipment_of_connected (h : e.Staged capacity) (hequipped : e.Equipped config)
    (hpeer : peer ∈ e.peers) :
    e.state.isMeasured = true ∧ e.connector ≠ none ∧ e.reference ≠ none := by
  have hlinks : e.links ≠ [] := by
    intro hnil
    rw [peers, hnil] at hpeer
    cases hpeer
  refine ⟨?_, hequipped.connected hlinks⟩
  have hallocated : e.state ≠ .allocated := mt h.links_eq_nil hlinks
  have hdestroyed := h.state_ne
  cases hstate : e.state with
  | allocated => exact absurd hstate hallocated
  | destroyed => exact absurd hstate hdestroyed
  | _ => rfl

/-- A disconnection asks for the link and for room in the log, and for nothing else. -/
theorem suits_disconnect_iff (h : e.Staged capacity) (hequipped : e.Equipped config) :
    e.Suits .disconnect peer ↔ peer ∈ e.peers ∧ e.log.entries.length < capacity := by
  rw [suits_iff h]
  constructor
  · rintro ⟨-, -, -, hlinked, hroom⟩
    exact ⟨hlinked.mpr rfl, hroom⟩
  · rintro ⟨hpeer, hroom⟩
    obtain ⟨hmeasured, hconnector, hreference⟩ := equipment_of_connected h hequipped hpeer
    exact ⟨hmeasured, hconnector, hreference, iff_of_true hpeer rfl, hroom⟩

end Enclave

namespace Monitor

variable {m m' : Monitor} {act : Act} {event : Event} {a b id : EnclaveId} {e eA eB : Enclave}
  {sideA sideB : Side}

/-! ## Either side first -/

/-- Two records are written in either order. -/
theorem put_comm (h : a.index ≠ b.index) (e f : Enclave) :
    (m.put a e).put b f = (m.put b f).put a e := by
  have hindex : a.index.toNat ≠ b.index.toNat := mt UInt32.toNat_inj.mp h
  simp only [put, List.set_comm _ _ hindex]

/-- An event lands on both sides in either order. -/
theorem meet_comm (hne : sideA.id ≠ sideB.id) (hA : m.Partner event sideA eA sideB)
    (hB : m.Partner event sideB eB sideA) :
    m.meet event sideA sideB eA eB = m.meet event sideB sideA eB eA := by
  have hindex : sideA.id.index ≠ sideB.id.index :=
    fun h => hne (eq_of_index_eq hA.live hB.live h)
  rw [meet, meet, put_comm hindex, Platform.meet_comm _ _ hne]

/-! ## When an event goes through -/

/-- Two live enclaves that suit each other, and no platform in the way. -/
structure Agrees (m : Monitor) (event : Event) (a b : EnclaveId) (eA eB : Enclave) : Prop where
  ne : a ≠ b
  live_left : m.enclave? a = some eA
  live_right : m.enclave? b = some eB
  suits_left : eA.Suits event b
  suits_right : eB.Suits event a
  unhindered_left : m.platform.hinders event a = false
  unhindered_right : m.platform.hinders event b = false

/-- Two that agree are partners, each with the digest, the connector and the reference it has. -/
theorem Agrees.exists_partners (h : m.Agrees event a b eA eB) :
    ∃ sideA sideB, sideA.id = a ∧ sideB.id = b ∧ m.Partner event sideA eA sideB ∧
      m.Partner event sideB eB sideA := by
  obtain ⟨digestA, connectorA, referenceA, hfitA⟩ := h.suits_left
  obtain ⟨digestB, connectorB, referenceB, hfitB⟩ := h.suits_right
  exact ⟨⟨a, digestA, connectorA, ⟨b, event, referenceB⟩⟩,
    ⟨b, digestB, connectorB, ⟨a, event, referenceA⟩⟩, rfl, rfl,
    ⟨h.live_left, hfitA, rfl, rfl⟩, ⟨h.live_right, hfitB, rfl, rfl⟩⟩

/-- A partner suits its peer. -/
theorem Partner.suits {side peer : Side} (h : m.Partner event side e peer) :
    e.Suits event peer.id :=
  ⟨_, _, _, h.fit⟩

/-- Partners whom the platform does not hinder meet. -/
theorem step_meeting_of_partners (hne : sideA.id ≠ sideB.id) (hA : m.Partner event sideA eA sideB)
    (hB : m.Partner event sideB eB sideA)
    (hunhinderedA : m.platform.hinders event sideA.id = false)
    (hunhinderedB : m.platform.hinders event sideB.id = false) :
    m.step (.meeting event sideA.id sideB.id) = (.ok .done, m.meet event sideA sideB eA eB) := by
  cases event with
  | connect =>
    show answer _ (m.connect sideA.id sideB.id) = _
    rw [connect_of_partners hne hA hB]
    simp only [Platform.hinders] at hunhinderedA hunhinderedB
    simp [hunhinderedA, hunhinderedB, answer, Except.map]
  | disconnect =>
    show answer _ (m.disconnect sideA.id sideB.id) = _
    rw [disconnect_of_partners hne hA hB]
    rfl

/-- Who met agreed before. -/
theorem agrees_of_done (h : (m.step (.meeting event a b)).1 = .ok .done) :
    ∃ eA eB, m.Agrees event a b eA eB := by
  obtain ⟨sideA, sideB, eA, eB, rfl, rfl, hne, hA, hB, -⟩ := meeting_of_done h
  have hunhindered : m.platform.hinders event sideA.id = false ∧
      m.platform.hinders event sideB.id = false := by
    cases event with
    | disconnect => exact ⟨rfl, rfl⟩
    | connect =>
      have h : (answer (fun _ => Reply.done) (m.connect sideA.id sideB.id)).1 = .ok .done := h
      rw [connect_of_partners hne hA hB] at h
      split at h
      · cases h
      rename_i hrefuseA
      split at h
      · cases h
      rename_i hrefuseB
      exact ⟨Bool.not_eq_true _ ▸ hrefuseA, Bool.not_eq_true _ ▸ hrefuseB⟩
  exact ⟨eA, eB, hne, hA.live, hB.live, hA.suits, hB.suits, hunhindered.1, hunhindered.2⟩

/-- An event goes through exactly between two that agree. -/
theorem done_iff : (m.step (.meeting event a b)).1 = .ok .done ↔
    ∃ eA eB, m.Agrees event a b eA eB := by
  refine ⟨agrees_of_done, ?_⟩
  rintro ⟨eA, eB, hagrees⟩
  obtain ⟨sideA, sideB, rfl, rfl, hA, hB⟩ := hagrees.exists_partners
  rw [step_meeting_of_partners hagrees.ne hA hB hagrees.unhindered_left hagrees.unhindered_right]

/-- An event that goes through does so whichever side is named first, and to the same effect. -/
theorem step_meeting_comm (h : (m.step (.meeting event a b)).1 = .ok .done) :
    m.step (.meeting event b a) = m.step (.meeting event a b) := by
  obtain ⟨eA, eB, hagrees⟩ := agrees_of_done h
  obtain ⟨sideA, sideB, rfl, rfl, hA, hB⟩ := hagrees.exists_partners
  rw [step_meeting_of_partners hagrees.ne hA hB hagrees.unhindered_left hagrees.unhindered_right,
    step_meeting_of_partners hagrees.ne.symm hB hA hagrees.unhindered_right
      hagrees.unhindered_left, meet_comm hagrees.ne hA hB]

/-! ## In a monitor that can be reached -/

/-- Every act keeps the equipment of every enclave, and a new one comes with it. -/
theorem equipped_of_effect (hstack : m.StackSound) (h : m.Effect act m')
    (hbefore : ∀ id e, m.enclave? id = some e → e.Equipped m.config) :
    ∀ id e, m'.enclave? id = some e → e.Equipped m'.config := by
  rw [config_of_effect h]
  refine forall_of_effect hstack h hbefore ?_ (fun _ _ h hcarried => h.carried hcarried) ?_
  · intro minPages exclusive untrusted connector pages hreserve
    refine ⟨?_, fun hlinks => absurd rfl hlinks⟩
    have hconnector := (PageAllocator.isSome_of_reserveAll hreserve).2
    rw [← hconnector, newcomer, newEnclave, Option.isSome_iff_ne_none]
    simp
  · intro event side peer e hequipped hside
    exact hequipped.meet hside.fit side peer

/-- So every enclave that is reached has what the configuration gives. -/
theorem Reachable.equipped (h : m.Reachable) :
    ∀ id e, m.enclave? id = some e → e.Equipped m.config := by
  induction h with
  | start _ hstart =>
    intro id e hlive
    rw [enclave?_start hstart] at hlive
    cases hlive
  | act act hbefore ih =>
    exact equipped_of_effect hbefore.stack (effect_act _ act) ih

/-- A monitor that is reached is the end of a run. -/
theorem Reachable.exists_run (h : m.Reachable) :
    ∃ config platform identity m₀ acts,
      Monitor.start config platform identity = .ok m₀ ∧ m = m₀.perform acts := by
  induction h with
  | @start config platform identity m _ hstart =>
    exact ⟨config, platform, identity, m, [], hstart, rfl⟩
  | act act _ ih =>
    obtain ⟨config, platform, identity, m₀, acts, hstart, rfl⟩ := ih
    exact ⟨config, platform, identity, m₀, acts ++ [act], hstart, (perform_concat m₀ acts act).symm⟩

/-- Every enclave that is reached is in keeping with its state. -/
theorem Reachable.staged (h : m.Reachable) (hlive : m.enclave? id = some e) :
    e.Staged m.config.logCapacity := by
  obtain ⟨config, platform, identity, m₀, acts, hstart, rfl⟩ := h.exists_run
  rw [(Founded.of_start hstart acts).config_eq]
  rw [← upTo_length] at hlive
  exact staged_upTo hstart acts ((holds_iff_enclave? ⟨rfl, rfl⟩).mpr hlive)

/-- An enclave that can be connected, to any other than those it is connected to. -/
structure Open (m : Monitor) (id : EnclaveId) (e : Enclave) : Prop where
  state : e.state = .finalized ∨ e.state = .running
  reference_ne : e.reference ≠ none
  room : e.log.entries.length < m.config.logCapacity
  maps : m.platform.refusesMaps id = false

/-- When two enclaves can be connected and disconnected, and that it does not matter which of them
is named first. -/
structure Accord (m : Monitor) (a b : EnclaveId) : Prop where
  connects_iff : (m.step (.connect a b)).1 = .ok .done ↔
    a ≠ b ∧ 0 < m.config.connectorPages ∧ ∃ eA eB, m.enclave? a = some eA ∧
      m.enclave? b = some eB ∧ b ∉ eA.peers ∧ m.Open a eA ∧ m.Open b eB
  disconnects_iff : (m.step (.disconnect a b)).1 = .ok .done ↔
    ∃ eA eB, m.enclave? a = some eA ∧ m.enclave? b = some eB ∧ b ∈ eA.peers ∧
      eA.log.entries.length < m.config.logCapacity ∧ eB.log.entries.length < m.config.logCapacity
  /-- What a connected enclave is not asked for. -/
  connected : ∀ e, m.enclave? a = some e → b ∈ e.peers →
    e.state.isMeasured = true ∧ e.connector ≠ none ∧ e.reference ≠ none
  /-- After the checks nothing can fail but the platform, whatever it has done by then. -/
  commits : ∀ event sideA sideB platform, m.prepare a b event = .ok (sideA, sideB) →
    (commit { m with platform } sideA sideB event).1 = .ok ()
  done_comm : ∀ event, (m.step (.meeting event a b)).1 = .ok .done ↔
    (m.step (.meeting event b a)).1 = .ok .done
  after_comm : ∀ event, (m.step (.meeting event a b)).1 = .ok .done →
    (m.step (.meeting event a b)).2 = (m.step (.meeting event b a)).2

/-- When two enclaves can be connected, by what their records have. -/
theorem Reachable.connects_iff (h : m.Reachable) :
    (m.step (.connect a b)).1 = .ok .done ↔
      a ≠ b ∧ 0 < m.config.connectorPages ∧ ∃ eA eB, m.enclave? a = some eA ∧
        m.enclave? b = some eB ∧ b ∉ eA.peers ∧ m.Open a eA ∧ m.Open b eB := by
  have hsuits {id peer : EnclaveId} {e : Enclave} (hlive : m.enclave? id = some e) :=
    @Enclave.suits_connect_iff m.config e peer _ (h.staged hlive) (h.equipped _ _ hlive)
  rw [show Call.connect a b = .meeting .connect a b from rfl, done_iff]
  constructor
  · rintro ⟨eA, eB, hne, hliveA, hliveB, hsuitsA, hsuitsB, hmapsA, hmapsB⟩
    obtain ⟨hstateA, hpages, hreferenceA, hunlinked, hroomA⟩ := (hsuits hliveA).mp hsuitsA
    obtain ⟨hstateB, -, hreferenceB, -, hroomB⟩ := (hsuits hliveB).mp hsuitsB
    exact ⟨hne, hpages, eA, eB, hliveA, hliveB, hunlinked,
      ⟨hstateA, hreferenceA, hroomA, hmapsA⟩, ⟨hstateB, hreferenceB, hroomB, hmapsB⟩⟩
  · rintro ⟨hne, hpages, eA, eB, hliveA, hliveB, hunlinked, hA, hB⟩
    -- the other side has no link either
    have hback : a ∉ eB.peers := by
      intro hlinked
      obtain ⟨f, hlive, hpeer⟩ := h.sound.linksAgree.symmetric b eB a hliveB hlinked
      rw [hliveA] at hlive
      cases hlive
      exact hunlinked hpeer
    exact ⟨eA, eB, hne, hliveA, hliveB,
      (hsuits hliveA).mpr ⟨hA.state, hpages, hA.reference_ne, hunlinked, hA.room⟩,
      (hsuits hliveB).mpr ⟨hB.state, hpages, hB.reference_ne, hback, hB.room⟩, hA.maps, hB.maps⟩

/-- When two enclaves can be disconnected, by what their records have. -/
theorem Reachable.disconnects_iff (h : m.Reachable) :
    (m.step (.disconnect a b)).1 = .ok .done ↔
      ∃ eA eB, m.enclave? a = some eA ∧ m.enclave? b = some eB ∧ b ∈ eA.peers ∧
        eA.log.entries.length < m.config.logCapacity ∧
        eB.log.entries.length < m.config.logCapacity := by
  have hsuits {id peer : EnclaveId} {e : Enclave} (hlive : m.enclave? id = some e) :=
    @Enclave.suits_disconnect_iff m.config e peer _ (h.staged hlive) (h.equipped _ _ hlive)
  rw [show Call.disconnect a b = .meeting .disconnect a b from rfl, done_iff]
  constructor
  · rintro ⟨eA, eB, -, hliveA, hliveB, hsuitsA, hsuitsB, -, -⟩
    obtain ⟨hlinked, hroomA⟩ := (hsuits hliveA).mp hsuitsA
    obtain ⟨-, hroomB⟩ := (hsuits hliveB).mp hsuitsB
    exact ⟨eA, eB, hliveA, hliveB, hlinked, hroomA, hroomB⟩
  · rintro ⟨eA, eB, hliveA, hliveB, hlinked, hroomA, hroomB⟩
    have hlinks := h.sound.linksAgree
    have hne : a ≠ b := by
      rintro rfl
      exact hlinks.irreflexive a eA hliveA hlinked
    obtain ⟨f, hlive, hback⟩ := hlinks.symmetric a eA b hliveA hlinked
    obtain rfl := Option.some.inj (hlive.symm.trans hliveB)
    exact ⟨eA, f, hne, hliveA, hliveB, (hsuits hliveA).mpr ⟨hlinked, hroomA⟩,
      (hsuits hliveB).mpr ⟨hback, hroomB⟩, rfl, rfl⟩

/-- What was prepared goes through on any platform. -/
theorem commit_of_prepare (h : m.prepare a b event = .ok (sideA, sideB)) (platform : Platform) :
    (commit { m with platform } sideA sideB event).1 = .ok () := by
  obtain ⟨rfl, rfl, hne, ⟨eA, hA⟩, ⟨eB, hB⟩⟩ := prepare_eq_ok_iff.mp h
  have hA' : ({ m with platform } : Monitor).Partner event sideA eA sideB :=
    ⟨hA.live, hA.fit, hA.entry_peer, hA.entry_event⟩
  have hB' : ({ m with platform } : Monitor).Partner event sideB eB sideA :=
    ⟨hB.live, hB.fit, hB.entry_peer, hB.entry_event⟩
  rw [commit_of_partners hne hA' hB']

/-- Any two handles of a monitor that can be reached are in accord. -/
theorem events_need_both_sides (h : m.Reachable) (a b : EnclaveId) : m.Accord a b where
  connects_iff := h.connects_iff
  disconnects_iff := h.disconnects_iff
  connected e hlive hpeer :=
    Enclave.equipment_of_connected (h.staged hlive) (h.equipped a e hlive) hpeer
  commits event sideA sideB platform hprepare := commit_of_prepare hprepare platform
  done_comm event := by
    constructor
    · intro hdone
      rw [step_meeting_comm hdone, hdone]
    · intro hdone
      rw [step_meeting_comm hdone, hdone]
  after_comm event hdone := by rw [step_meeting_comm hdone]

/-- Two enclaves that are finalized, and can be connected and then disconnected. -/
theorem events_need_both_sides_default :
    ∃ m, Monitor.start {} .initial ⟨⟨⟨List.replicate 32 7, rfl⟩⟩, ⟨⟨List.replicate 64 9, rfl⟩⟩⟩ =
        .ok m ∧
      let before := m.perform [.call (.allocate 3), .call (.allocate 3),
        .call (.setReference ⟨0, 1⟩ "a"), .call (.setReference ⟨1, 1⟩ "b"),
        .call (.finalize ⟨0, 1⟩ ⟨0x80000000, 0x80001000, 0x80002000, 0x80003000⟩),
        .call (.finalize ⟨1, 1⟩ ⟨0x80045000, 0x80046000, 0x80047000, 0x80048000⟩)]
      (before.step (.connect ⟨0, 1⟩ ⟨1, 1⟩)).1 = .ok .done ∧ before.Accord ⟨0, 1⟩ ⟨1, 1⟩ ∧
      ((before.act (.call (.connect ⟨0, 1⟩ ⟨1, 1⟩))).step (.disconnect ⟨1, 1⟩ ⟨0, 1⟩)).1 =
        .ok .done := by
  obtain ⟨m, hstart⟩ : ∃ m, Monitor.start {} .initial
    ⟨⟨⟨List.replicate 32 7, rfl⟩⟩, ⟨⟨List.replicate 64 9, rfl⟩⟩⟩ = .ok m := ⟨_, rfl⟩
  have hreachable : m.Reachable := .start (fun _ => rfl) hstart
  refine ⟨m, hstart, ?_, events_need_both_sides (hreachable.perform _) ⟨0, 1⟩ ⟨1, 1⟩, ?_⟩
  · cases hstart
    rfl
  · cases hstart
    rfl

end Monitor

end Enclaves

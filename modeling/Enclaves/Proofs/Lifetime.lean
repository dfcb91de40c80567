import Enclaves.Proofs.Attestation
import Enclaves.Proofs.Generations

/-!
# The life of an enclave

A life goes on in a place of the table: it begins when the place is taken and lasts until it is
cleared. Lives are looked at by place and not by handle, since in a table that is long enough there
are places that no handle reaches; an enclave there has a life too, if an uneventful one.

`Staged` is what a record is like at every moment, `Advances` what one act may change of it and by
which call, and `Endures` what of it is settled for the rest of the life. The steps come from the
fates of the enclave (`Fate`), and what endures is an induction over them.
-/

namespace Enclaves

/-- A handle for an enclave in some place and generation. -/
def EnclaveId.Names (id : EnclaveId) (i : Nat) (generation : UInt32) : Prop :=
  id.index.toNat = i ∧ id.generation = generation

/-- The lifecycle: the moves from state to state, each with the call that makes it. -/
inductive EnclaveState.Moves (id : EnclaveId) : Call → EnclaveState → EnclaveState → Prop
  | finalize (layout : Layout) : Moves id (.finalize id layout) .allocated .finalized
  | runToExit : Moves id (.run id) .finalized .running
  | runToYield : Moves id (.run id) .finalized .suspended
  | resumeToExit : Moves id (.resume id) .suspended .running
  | resumeToYield : Moves id (.resume id) .suspended .suspended

/-- No move leads back to the beginning. -/
theorem EnclaveState.Moves.ne_allocated {id : EnclaveId} {call : Call} {s s' : EnclaveState}
    (h : Moves id call s s') : s' ≠ .allocated := by
  cases h <;> simp

/-- An entry moves an enclave from the state it starts from to the one its exit leaves it in. -/
theorem EnclaveState.moves_entering (id : EnclaveId) (entry : Entry) (exit : DomainExit) :
    Moves id (.entering entry id) entry.origin exit.state := by
  cases entry with
  | run =>
    cases exit with
    | exited _ => exact .runToExit
    | yielded _ => exact .runToYield
  | resume =>
    cases exit with
    | exited _ => exact .resumeToExit
    | yielded _ => exact .resumeToYield

namespace Enclave

/-- A record as it is in its state: without a measurement and unconnected as long as it is
allocated, and measured from then on. -/
structure Staged (capacity : Nat) (e : Enclave) : Prop where
  state_ne : e.state ≠ .destroyed
  digest_eq_none_iff : e.digest = none ↔ e.state = .allocated
  history_eq_none_iff : e.history = none ↔ e.state = .allocated
  layout_eq_none_iff : e.layout = none ↔ e.state = .allocated
  entries_eq_nil : e.state = .allocated → e.log.entries = []
  links_eq_nil : e.state = .allocated → e.links = []
  log_within : e.log.Within capacity

/-- Only links go when a peer goes. -/
theorem Staged.unlink {capacity : Nat} {e : Enclave} (h : e.Staged capacity) (gone : EnclaveId) :
    (e.unlink gone).Staged capacity where
  __ := h
  links_eq_nil hstate := by
    show e.links.eraseP _ = []
    rw [h.links_eq_nil hstate, List.eraseP_nil]

/-- What of a record is settled for the rest of its life. -/
structure Endures (e f : Enclave) : Prop where
  exclusive_eq : f.exclusive = e.exclusive
  untrusted_eq : f.untrusted.map Prod.fst = e.untrusted.map Prod.fst
  connector_eq : f.connector = e.connector
  measured : e.state ≠ .allocated → f.state ≠ .allocated
  reference_eq : e.state ≠ .allocated → f.reference = e.reference
  digest_eq : ∀ digest, e.digest = some digest → f.digest = some digest
  layout_eq : ∀ layout, e.layout = some layout → f.layout = some layout
  entries_prefix : e.log.entries <+: f.log.entries
  capacity_eq : f.log.capacity = e.log.capacity

/-- What is settled is settled from the first moment on. -/
theorem Endures.refl (e : Enclave) : e.Endures e :=
  ⟨rfl, rfl, rfl, id, fun _ => rfl, fun _ h => h, fun _ h => h, List.prefix_rfl, rfl⟩

/-- What is settled stays so over two stretches of a life. -/
theorem Endures.trans {e f g : Enclave} (h : e.Endures f) (h' : f.Endures g) : e.Endures g where
  exclusive_eq := h'.exclusive_eq.trans h.exclusive_eq
  untrusted_eq := h'.untrusted_eq.trans h.untrusted_eq
  connector_eq := h'.connector_eq.trans h.connector_eq
  measured hstate := h'.measured (h.measured hstate)
  reference_eq hstate := (h'.reference_eq (h.measured hstate)).trans (h.reference_eq hstate)
  digest_eq digest hdigest := h'.digest_eq digest (h.digest_eq digest hdigest)
  layout_eq layout hlayout := h'.layout_eq layout (h.layout_eq layout hlayout)
  entries_prefix := h.entries_prefix.trans h'.entries_prefix
  capacity_eq := h'.capacity_eq.trans h.capacity_eq

end Enclave

namespace Monitor

variable {m m' : Monitor} {act : Act} {i : Nat} {generation : UInt32} {id : EnclaveId}
  {e e' f : Enclave} {capacity : Nat}

/-- An enclave in a place of the table. -/
def Holds (m : Monitor) (i : Nat) (generation : UInt32) (e : Enclave) : Prop :=
  m.slots[i]? = some ⟨generation, some e⟩

/-- What an act writes into the measurement, the log and the history of an enclave. -/
inductive Writes (m : Monitor) (act : Act) (i : Nat) (generation : UInt32) (e e' : Enclave) : Prop
  | nothing (hdigest : e'.digest = e.digest) (hlayout : e'.layout = e.layout)
      (hhistory : e'.history = e.history) (hlog : e'.log = e.log)
  /-- The enclave is finalized: its history begins with its measurement. -/
  | measurement {id : EnclaveId} {layout : Layout} {digest : Digest} (hid : id.Names i generation)
      (hact : act = .call (.finalize id layout)) (hstate : e.state = .allocated)
      (hdigest : e'.digest = some digest) (hlayout : e'.layout = some layout)
      (hhistory : e'.history = some digest) (hlog : e'.log = e.log)
  /-- The enclave meets a peer: one entry in its log, and its history extended by that event with
  the peer's measurement. -/
  | entry {id : EnclaveId} {entry : PeerDescriptor} {peer : Enclave} {history digest : Digest}
      (hid : id.Names i generation) (hmeets : m.Meets act entry.event id entry.peer)
      (hdigest : e'.digest = e.digest) (hlayout : e'.layout = e.layout)
      (hpeer : m.enclave? entry.peer = some peer) (hmeasured : peer.digest = some digest)
      (hbefore : e.history = some history)
      (hhistory : e'.history = some (extendHistory history digest entry.event))
      (hlog : e'.log = { e.log with entries := e.log.entries ++ [entry] })

/-- One step of a life. -/
structure Advances (m : Monitor) (act : Act) (i : Nat) (generation : UInt32) (e e' : Enclave) :
    Prop where
  state : e'.state = e.state ∨ ∃ id call, id.Names i generation ∧ act = .call call ∧
    EnclaveState.Moves id call e.state e'.state
  writes : m.Writes act i generation e e'
  reference_eq : e.state ≠ .allocated → e'.reference = e.reference
  exclusive_eq : e'.exclusive = e.exclusive
  untrusted_eq : e'.untrusted.map Prod.fst = e.untrusted.map Prod.fst
  connector_eq : e'.connector = e.connector

/-- An enclave is still in its place after an act. Either a handle reaches it, and this is its fate;
or none does, and at most it loses a link. -/
inductive Remains (m : Monitor) (act : Act) (i : Nat) (generation : UInt32) (e : Enclave) :
    Enclave → Prop
  | reached {id : EnclaveId} {e' : Enclave} (hid : id.Names i generation)
      (hfate : m.Fate act id e (some e')) : m.Remains act i generation e e'
  | same : m.Remains act i generation e e
  | bereft (gone : EnclaveId) : m.Remains act i generation e (e.unlink gone)

/-! ## Places of the table -/

/-- A place that holds an enclave is taken. -/
theorem taken_of_holds (h : m.Holds i generation e) : m.taken i = true := by
  rw [taken, h]
  rfl

/-- A place that is taken holds an enclave. -/
theorem exists_holds_of_taken (h : m.taken i = true) : ∃ generation e, m.Holds i generation e := by
  obtain ⟨⟨generation, occupant⟩, hslot, hoccupied⟩ := (Option.any_eq_true _ _).mp h
  obtain ⟨e, rfl⟩ := Option.isSome_iff_exists.mp hoccupied
  exact ⟨generation, e, hslot⟩

/-- A place that handles reach. -/
theorem holds_iff_enclave? (hid : id.Names i generation) :
    m.Holds i generation e ↔ m.enclave? id = some e := by
  obtain ⟨rfl, rfl⟩ := hid
  exact enclave?_eq_some_iff.symm

/-- After a record is written back, its place holds it and the others hold what they held. -/
theorem holds_put (h : (m.put id f).Holds i generation e) :
    id.Names i generation ∧ e = f ∨ i ≠ id.index.toNat ∧ m.Holds i generation e := by
  unfold Holds put at h
  by_cases hi : id.index.toNat = i
  · have hlt := (List.getElem?_eq_some_iff.mp h).1
    rw [List.length_set] at hlt
    rw [hi, List.getElem?_set_self hlt] at h
    cases h
    exact .inl ⟨⟨hi, rfl⟩, rfl⟩
  · rw [List.getElem?_set_ne hi] at h
    exact .inr ⟨Ne.symm hi, h⟩

/-- After a teardown every other place holds who it held, without the link. -/
theorem holds_teardown (hlive : m.enclave? id = some f)
    (h : (m.teardown id).Holds i generation e') :
    ∃ e, m.Holds i generation e ∧ e' = e.unlink id := by
  rw [Holds, teardown_eq hlive, slotsWithout, List.getElem?_map] at h
  obtain ⟨⟨generation', occupant⟩, hslot, hunlink⟩ := Option.map_eq_some_iff.mp h
  obtain ⟨rfl, hoccupant⟩ := Slot.mk.inj hunlink
  obtain ⟨e, rfl, rfl⟩ := Option.map_eq_some_iff.mp hoccupant
  by_cases hi : id.index.toNat = i
  · rw [← hi, getElem?_cleared_self hlive] at hslot
    cases hslot
  · rw [getElem?_cleared_of_ne hi] at hslot
    exact ⟨e, hslot, rfl⟩

/-- A new enclave is found in a place that was vacant. -/
theorem holds_settle (hstack : m.StackSound) (h : (m.settle f).2.Holds i generation e) :
    m.taken i = false ∧ e = f ∨ m.Holds i generation e := by
  unfold Holds at h
  rcases settle_cases hstack f with ⟨index, generation', rest, -, hvacant, hsettle⟩ | ⟨-, hsettle⟩
  · simp only [hsettle] at h
    by_cases hi : index.toNat = i
    · subst hi
      rw [List.getElem?_set_self (List.getElem?_eq_some_iff.mp hvacant).1] at h
      cases h
      exact .inl ⟨by rw [taken, hvacant]; rfl, rfl⟩
    · rw [List.getElem?_set_ne hi] at h
      exact .inr h
  · simp only [hsettle] at h
    rcases getElem?_concat_cases h with ⟨-, hold⟩ | ⟨rfl, hnew⟩
    · exact .inr hold
    · cases hnew
      exact .inl ⟨by rw [taken, List.getElem?_eq_none (Nat.le_refl _)]; rfl, rfl⟩

/-- An enclave that was just allocated. -/
def Newborn (m : Monitor) (act : Act) (e : Enclave) : Prop :=
  ∃ minPages exclusive untrusted connector, act = .call (.allocate minPages) ∧
    e = m.newcomer exclusive untrusted connector

/-- An enclave that is in a place after an act is a new one, or it was there before. Beyond all
handles it has at most lost a link. -/
theorem holds_of_effect (hstack : m.StackSound) (h : m.Effect act m')
    (hafter : m'.Holds i generation e') :
    m.taken i = false ∧ m.Newborn act e' ∨
    ∃ e, m.Holds i generation e ∧ (UInt32.size ≤ i → e' = e ∨ ∃ gone, e' = e.unlink gone) := by
  have hnear {id : EnclaveId} (hid : id.Names i generation) : ¬ UInt32.size ≤ i := by
    have hlt := id.index.toNat_lt_size
    rw [hid.1] at hlt
    exact Nat.not_le.mpr hlt
  cases h with
  | idle => exact .inr ⟨e', hafter, fun _ => .inl rfl⟩
  | around => exact .inr ⟨e', hafter, fun _ => .inl rfl⟩
  | short => exact .inr ⟨e', hafter, fun _ => .inl rfl⟩
  | retract => exact .inr ⟨e', hafter, fun _ => .inl rfl⟩
  | enroll =>
    rcases holds_settle (hstack.supply _ _) hafter with ⟨hvacant, hnew⟩ | hold
    · exact .inl ⟨hvacant, _, _, _, _, rfl, hnew⟩
    · exact .inr ⟨e', hold, fun _ => .inl rfl⟩
  | @update _ id e₁ e₂ _ hlive =>
    have hput : (m.put id e₂).Holds i generation e' := hafter
    rcases holds_put hput with ⟨hid, -⟩ | ⟨-, hold⟩
    · exact .inr ⟨e₁, (holds_iff_enclave? hid).mpr hlive, fun hfar => absurd hfar (hnear hid)⟩
    · exact .inr ⟨e', hold, fun _ => .inl rfl⟩
  | @remove _ gone _ _ hlive =>
    have hgone : (m.teardown gone).Holds i generation e' := hafter
    obtain ⟨e, hold, hunlink⟩ := holds_teardown hlive hgone
    exact .inr ⟨e, hold, fun _ => .inr ⟨gone, hunlink⟩⟩
  | @meet event sideA sideB eA eB hne hA hB =>
    have hput : ((m.put sideA.id (eA.meet event sideA sideB)).put sideB.id
      (eB.meet event sideB sideA)).Holds i generation e' := hafter
    rcases holds_put hput with ⟨hid, -⟩ | ⟨-, hfirst⟩
    · exact .inr ⟨eB, (holds_iff_enclave? hid).mpr hB.live, fun hfar => absurd hfar (hnear hid)⟩
    rcases holds_put hfirst with ⟨hid, -⟩ | ⟨-, hold⟩
    · exact .inr ⟨eA, (holds_iff_enclave? hid).mpr hA.live, fun hfar => absurd hfar (hnear hid)⟩
    · exact .inr ⟨e', hold, fun _ => .inl rfl⟩

/-- Whoever is in a place after an act is new there, or was there before and remains. -/
theorem holds_act (hstack : m.StackSound) (hafter : (m.act act).Holds i generation e') :
    m.taken i = false ∧ m.Newborn act e' ∨
    ∃ e, m.Holds i generation e ∧ m.Remains act i generation e e' := by
  rcases holds_of_effect hstack (effect_act m act) hafter with hnew | ⟨e, hbefore, hfar⟩
  · exact .inl hnew
  refine .inr ⟨e, hbefore, ?_⟩
  by_cases hi : i < UInt32.size
  · have hid : EnclaveId.Names ⟨.ofNat i, generation⟩ i generation :=
      ⟨UInt32.toNat_ofNat_of_lt hi, rfl⟩
    have hfate := fate_act hstack act ((holds_iff_enclave? hid).mp hbefore)
    rw [(holds_iff_enclave? hid).mp hafter] at hfate
    exact .reached hid hfate
  · obtain rfl | ⟨gone, rfl⟩ := hfar (Nat.not_lt.mp hi)
    · exact .same
    · exact .bereft gone

/-! ## Step by step -/

/-- A new enclave is in keeping with its state, with nothing measured and nobody connected. -/
theorem Newborn.staged (h : m.Newborn act e) : e.Staged m.config.logCapacity := by
  obtain ⟨_, exclusive, untrusted, connector, -, rfl⟩ := h
  exact ⟨fun hdestroyed => (by cases hdestroyed), iff_of_true rfl rfl, iff_of_true rfl rfl,
    iff_of_true rfl rfl, fun _ => rfl, fun _ => rfl, ⟨rfl, Nat.zero_le _⟩⟩

/-- Whatever an act does to an enclave, it stays in keeping with its state. -/
theorem Fate.staged (hfate : m.Fate act id e (some e')) (h : e.Staged capacity) :
    e'.Staged capacity := by
  cases hfate with
  | passed => exact h
  | referenced _ _ _ _ => exact { h with }
  | loaded _ _ _ _ => exact { h with }
  | flagged _ => exact { h with }
  | written _ _ => exact { h with }
  | bereft _ _ => exact h.unlink _
  | finalized _ _ _ _ =>
    exact ⟨by simp, by simp, by simp, by simp, fun h => (by cases h), fun h => (by cases h),
      h.log_within⟩
  | @entered entry exit _ _ hstate =>
    have hbefore : e.state ≠ .allocated := hstate ▸ entry.origin_ne_allocated
    have hafter := exit.state_ne_allocated
    refine ⟨exit.state_ne_destroyed, ?_, ?_, ?_, fun h => absurd h hafter,
      fun h => absurd h hafter, h.log_within⟩
    · exact h.digest_eq_none_iff.trans (iff_of_false hbefore hafter)
    · exact h.history_eq_none_iff.trans (iff_of_false hbefore hafter)
    · exact h.layout_eq_none_iff.trans (iff_of_false hbefore hafter)
  | @met event side peer f _ hside _ _ =>
    have hstate := hside.fit.state_ne
    refine ⟨h.state_ne, h.digest_eq_none_iff, ?_, h.layout_eq_none_iff, fun h => absurd h hstate,
      fun h => absurd h hstate, Enclave.within_meet h.log_within hside.fit side peer⟩
    exact iff_of_false (by simp [Enclave.meet, Enclave.absorb]) hstate

/-- So does one that no handle reaches. -/
theorem Remains.staged (h : m.Remains act i generation e e') (hstaged : e.Staged capacity) :
    e'.Staged capacity := by
  cases h with
  | reached _ hfate => exact hfate.staged hstaged
  | same => exact hstaged
  | bereft gone => exact hstaged.unlink gone

/-- What an act writes, by what it does to the enclave. -/
theorem Fate.writes (hid : id.Names i generation) (hfate : m.Fate act id e (some e'))
    (h : e.Staged capacity) : m.Writes act i generation e e' := by
  cases hfate with
  | passed => exact .nothing rfl rfl rfl rfl
  | referenced _ _ _ _ => exact .nothing rfl rfl rfl rfl
  | loaded _ _ _ _ => exact .nothing rfl rfl rfl rfl
  | finalized hact _ hstate _ => exact .measurement hid hact hstate rfl rfl rfl rfl
  | entered _ _ _ => exact .nothing rfl rfl rfl rfl
  | flagged _ => exact .nothing rfl rfl rfl rfl
  | written _ _ => exact .nothing rfl rfl rfl rfl
  | bereft _ _ => exact .nothing rfl rfl rfl rfl
  | @met event side peer f hside_id hside hpeer hmeets =>
    have hmeasured : e.history ≠ none := mt h.history_eq_none_iff.mp hside.fit.state_ne
    obtain ⟨history, hhistory⟩ := Option.ne_none_iff_exists'.mp hmeasured
    obtain rfl := hside.entry_event
    rw [hside_id, ← hside.entry_peer] at hmeets
    refine .entry hid hmeets rfl rfl (hside.entry_peer ▸ hpeer.live) hpeer.fit.digest_eq hhistory
      ?_ rfl
    show some (extendHistory (e.history.getD side.digest) _ _) = _
    rw [hhistory, Option.getD_some]

/-- A state changes only by a call that names the enclave, along an arrow of the lifecycle. -/
theorem Fate.state_moves (hid : id.Names i generation) (hfate : m.Fate act id e (some e')) :
    e'.state = e.state ∨ ∃ id call, id.Names i generation ∧ act = .call call ∧
      EnclaveState.Moves id call e.state e'.state := by
  cases hfate with
  | @finalized layout _ hact _ hstate _ =>
    exact .inr ⟨id, _, hid, hact, hstate ▸ .finalize layout⟩
  | @entered entry exit hact _ hstate =>
    exact .inr ⟨id, _, hid, hact, hstate ▸ EnclaveState.moves_entering id entry exit⟩
  | _ => exact .inl rfl

/-- A reference is settled once an enclave is measured. -/
theorem Fate.reference_eq (hfate : m.Fate act id e (some e')) (hne : e.state ≠ .allocated) :
    e'.reference = e.reference := by
  cases hfate with
  | referenced _ _ hstate _ => exact absurd hstate hne
  | loaded _ _ hstate _ => exact absurd hstate hne
  | _ => rfl

/-- The untrusted region is the same for life, though not what is in it. -/
theorem Fate.untrusted_eq (hfate : m.Fate act id e (some e')) :
    e'.untrusted.map Prod.fst = e.untrusted.map Prod.fst := by
  cases hfate with
  | written _ huntrusted => simp [huntrusted]
  | _ => rfl

/-- Whoever remains has taken one step of its life. -/
theorem Remains.advances (h : m.Remains act i generation e e') (hstaged : e.Staged capacity) :
    m.Advances act i generation e e' := by
  cases h with
  | same => exact ⟨.inl rfl, .nothing rfl rfl rfl rfl, fun _ => rfl, rfl, rfl, rfl⟩
  | bereft _ => exact ⟨.inl rfl, .nothing rfl rfl rfl rfl, fun _ => rfl, rfl, rfl, rfl⟩
  | reached hid hfate =>
    refine ⟨hfate.state_moves hid, hfate.writes hid hstaged, hfate.reference_eq, ?_,
      hfate.untrusted_eq, ?_⟩
    · cases hfate <;> rfl
    · cases hfate <;> rfl

/-- One step keeps what is settled. -/
theorem Advances.endures (h : m.Advances act i generation e e') (hstaged : e.Staged capacity) :
    e.Endures e' where
  exclusive_eq := h.exclusive_eq
  untrusted_eq := h.untrusted_eq
  connector_eq := h.connector_eq
  measured hne := by
    rcases h.state with hsame | ⟨_, _, -, -, hmoves⟩
    · rw [hsame]
      exact hne
    · exact hmoves.ne_allocated
  reference_eq := h.reference_eq
  digest_eq digest hdigest := by
    cases h.writes with
    | nothing hsame _ _ _ => exact hsame.trans hdigest
    | measurement _ _ hstate _ _ _ _ =>
      rw [hstaged.digest_eq_none_iff.mpr hstate] at hdigest
      cases hdigest
    | entry _ _ hsame _ _ _ _ _ _ => exact hsame.trans hdigest
  layout_eq layout hlayout := by
    cases h.writes with
    | nothing _ hsame _ _ => exact hsame.trans hlayout
    | measurement _ _ hstate _ _ _ _ =>
      rw [hstaged.layout_eq_none_iff.mpr hstate] at hlayout
      cases hlayout
    | entry _ _ _ hsame _ _ _ _ _ => exact hsame.trans hlayout
  entries_prefix := by
    cases h.writes with
    | nothing _ _ _ hlog => exact hlog ▸ List.prefix_rfl
    | measurement _ _ _ _ _ _ hlog => exact hlog ▸ List.prefix_rfl
    | entry _ _ _ _ _ _ _ _ hlog =>
      rw [hlog]
      exact List.prefix_append _ _
  capacity_eq := by
    cases h.writes with
    | nothing _ _ _ hlog => rw [hlog]
    | measurement _ _ _ _ _ _ hlog => rw [hlog]
    | entry _ _ _ _ _ _ _ _ hlog => rw [hlog]

/-! ## Whole lives -/

section Run

variable {config : Config} {platform : Platform} {identity : Identity} {acts : List Act}
  {moment first last : Nat}

/-- Every record of a run is as it should be in its state. -/
theorem staged_upTo (hstart : Monitor.start config platform identity = .ok m) (acts : List Act)
    (h : (m.upTo acts moment).Holds i generation e) : e.Staged config.logCapacity := by
  induction moment generalizing generation e with
  | zero =>
    have hempty := register_start hstart
    have hplace : m.Holds i generation e := h
    rw [Holds, List.map_eq_nil_iff.mp hempty] at hplace
    cases hplace
  | succ moment ih =>
    rcases m.upTo_succ_cases acts moment with ⟨act, -, hsucc⟩ | hover
    · rw [hsucc] at h
      rcases holds_act (stackSound_upTo hstart acts moment) h with
        ⟨-, hnew⟩ | ⟨before, hbefore, hremains⟩
      · rw [← (Founded.of_start hstart (acts.take moment)).config_eq]
        exact hnew.staged
      · exact hremains.staged (ih hbefore)
    · exact ih (hover ▸ h)

/-- An enclave that is still in its place after an act has gone one step on. -/
theorem advances_upTo (hstart : Monitor.start config platform identity = .ok m)
    {generation' : UInt32} (hact : acts[moment]? = some act)
    (hbefore : (m.upTo acts moment).Holds i generation e)
    (hafter : (m.upTo acts (moment + 1)).Holds i generation' e') :
    generation' = generation ∧ (m.upTo acts moment).Advances act i generation e e' := by
  rw [upTo_succ hact] at hafter
  rcases holds_act (stackSound_upTo hstart acts moment) hafter with
    ⟨hvacant, -⟩ | ⟨before, hthen, hremains⟩
  · rw [taken_of_holds hbefore] at hvacant
    cases hvacant
  · unfold Holds at hbefore hthen
    rw [hbefore] at hthen
    cases hthen
    exact ⟨rfl, hremains.advances (staged_upTo hstart acts hbefore)⟩

/-- What is settled stays as long as the place is taken. -/
theorem endures_upTo (hstart : Monitor.start config platform identity = .ok m)
    {generation' : UInt32} (hle : first ≤ last)
    (hlives : ∀ t, first ≤ t → t ≤ last → (m.upTo acts t).taken i = true)
    (hfirst : (m.upTo acts first).Holds i generation e)
    (hlast : (m.upTo acts last).Holds i generation' f) :
    generation' = generation ∧ e.Endures f := by
  induction hle generalizing generation' f with
  | refl =>
    unfold Holds at hfirst hlast
    rw [hfirst] at hlast
    cases hlast
    exact ⟨rfl, .refl e⟩
  | @step last hle ih =>
    obtain ⟨generation'', g, hthen⟩ :=
      exists_holds_of_taken (hlives last hle (Nat.le_succ last))
    obtain ⟨rfl, hendures⟩ := ih (fun t hfrom hto => hlives t hfrom (Nat.le_succ_of_le hto)) hthen
    rcases m.upTo_succ_cases acts last with ⟨act, hact, -⟩ | hover
    · obtain ⟨rfl, hadvances⟩ := advances_upTo hstart hact hthen hlast
      exact ⟨rfl, hendures.trans (hadvances.endures (staged_upTo hstart acts hthen))⟩
    · unfold Holds at hthen hlast
      rw [hover, hthen] at hlast
      cases hlast
      exact ⟨rfl, hendures⟩

/-- An enclave that comes to be in a place was just allocated. -/
theorem newborn_upTo (hstart : Monitor.start config platform identity = .ok m)
    (hvacant : (m.upTo acts moment).taken i = false)
    (hafter : (m.upTo acts (moment + 1)).Holds i generation e') :
    ∃ act, acts[moment]? = some act ∧ (m.upTo acts moment).Newborn act e' := by
  have hnot {e : Enclave} (hbefore : (m.upTo acts moment).Holds i generation e) : False := by
    rw [taken_of_holds hbefore] at hvacant
    cases hvacant
  rcases m.upTo_succ_cases acts moment with ⟨act, hact, hsucc⟩ | hover
  · rw [hsucc] at hafter
    rcases holds_act (stackSound_upTo hstart acts moment) hafter with ⟨-, hnew⟩ | ⟨_, hbefore, -⟩
    · exact ⟨act, hact, hnew⟩
    · exact (hnot hbefore).elim
  · exact (hnot (hover ▸ hafter)).elim

/-- The lives that go on in a place of the table during a run. -/
structure Lives (m : Monitor) (capacity : Nat) (acts : List Act) (i : Nat) : Prop where
  begins : ∀ {moment generation e}, (m.upTo acts moment).taken i = false →
    (m.upTo acts (moment + 1)).Holds i generation e →
    e.state = .allocated ∧ ∃ minPages, acts[moment]? = some (.call (.allocate minPages))
  staged : ∀ {moment generation e}, (m.upTo acts moment).Holds i generation e → e.Staged capacity
  advances : ∀ {moment act generation generation' e e'}, acts[moment]? = some act →
    (m.upTo acts moment).Holds i generation e → (m.upTo acts (moment + 1)).Holds i generation' e' →
    generation' = generation ∧ (m.upTo acts moment).Advances act i generation e e'
  endures : ∀ {first last generation generation' e f}, first ≤ last →
    (∀ t, first ≤ t → t ≤ last → (m.upTo acts t).taken i = true) →
    (m.upTo acts first).Holds i generation e → (m.upTo acts last).Holds i generation' f →
    generation' = generation ∧ e.Endures f

/-- In every place of the table, and in every run, enclaves live by the lifecycle. -/
theorem lives_keep_to_lifecycle (hstart : Monitor.start config platform identity = .ok m)
    (acts : List Act) (i : Nat) : m.Lives config.logCapacity acts i where
  begins hvacant hafter := by
    obtain ⟨act, hact, minPages, _, _, _, rfl, rfl⟩ := newborn_upTo hstart hvacant hafter
    exact ⟨rfl, minPages, hact⟩
  staged h := staged_upTo hstart acts h
  advances hact hbefore hafter := advances_upTo hstart hact hbefore hafter
  endures hle hlives hfirst hlast := endures_upTo hstart hle hlives hfirst hlast

/-- The first of two enclaves from its allocation to its release. -/
theorem lives_keep_to_lifecycle_default :
    let acts : List Act := [.call (.allocate 3), .call (.allocate 3),
      .call (.setReference ⟨0, 1⟩ "a"), .call (.setReference ⟨1, 1⟩ "b"),
      .call (.finalize ⟨0, 1⟩ ⟨0x80000000, 0x80001000, 0x80002000, 0x80003000⟩),
      .call (.finalize ⟨1, 1⟩ ⟨0x80045000, 0x80046000, 0x80047000, 0x80048000⟩),
      .call (.connect ⟨0, 1⟩ ⟨1, 1⟩), .call (.run ⟨0, 1⟩), .call (.destroy ⟨0, 1⟩)]
    ∃ m, Monitor.start {} .initial
        ⟨⟨⟨List.replicate 32 7, rfl⟩⟩, ⟨⟨List.replicate 64 9, rfl⟩⟩⟩ = .ok m ∧
      [1, 5, 7, 8, 9].map (fun moment => (m.upTo acts moment).state ⟨0, 1⟩) =
        [.ok .allocated, .ok .finalized, .ok .finalized, .ok .running, .ok .destroyed] ∧
      m.Lives 5 acts 0 := by
  intro acts
  obtain ⟨m, hstart⟩ : ∃ m, Monitor.start {} .initial
    ⟨⟨⟨List.replicate 32 7, rfl⟩⟩, ⟨⟨List.replicate 64 9, rfl⟩⟩⟩ = .ok m := ⟨_, rfl⟩
  refine ⟨m, hstart, ?_, lives_keep_to_lifecycle hstart acts 0⟩
  cases hstart
  rfl

end Run

end Monitor

end Enclaves

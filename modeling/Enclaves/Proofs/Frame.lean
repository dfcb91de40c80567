import Enclaves.Proofs.Issuing
import Enclaves.Proofs.Locality

/-!
# What a call leaves alone

A call leaves the enclaves alone that it does not name, with their mappings and their mailboxes.
Only when an enclave goes, all others lose the link to it and the mapping of its connector, and that
is all they lose (`calls_spare_others`).

It holds of every place of the table, and so also of the enclaves that no handle reaches. An
allocation finds its place empty; that its handle reached nothing before needs places with an index
of their own, and so fewer enclaves than there are indices. In a table beyond that a new enclave is
given the handle of a live one (`live_handle_is_given_out`).
-/

namespace Enclaves

namespace Monitor

variable {m : Monitor} {call : Call} {answer : Except MonitorError Reply} {stroke : Stroke}
  {id gone : EnclaveId} {e f : Enclave} {i minPages : Nat} {generation : UInt32}

/-! ## Allocations -/

/-- A new enclave leaves the others in their places. -/
theorem Holds.settle (h : m.Holds i generation e) (hstack : m.StackSound) (f : Enclave) :
    (m.settle f).2.Holds i generation e := by
  rcases settle_cases hstack f with ⟨index, other, rest, -, hvacant, hsettle⟩ | ⟨-, hsettle⟩
  · have hne : index.toNat ≠ i := by
      rintro rfl
      rw [Holds, hvacant] at h
      cases h
    rw [hsettle, Holds, List.getElem?_set_ne hne]
    exact h
  · rw [hsettle, Holds, List.getElem?_append_left (List.getElem?_eq_some_iff.mp h).1]
    exact h

/-- A new enclave is put in a place that was empty, and while not all indices are in use, its handle
is for that place. -/
theorem exists_place_settle (hstack : m.StackSound) (f : Enclave) :
    ∃ i, m.taken i = false ∧ (m.settle f).1.index = .ofNat i ∧
      (m.settle f).2.Holds i (m.settle f).1.generation f ∧
      (m.Stacked → m.count < UInt32.size → i < UInt32.size) := by
  rcases settle_cases hstack f with ⟨index, other, rest, -, hvacant, hsettle⟩ | ⟨hfree, hsettle⟩
  · refine ⟨index.toNat, ?_, ?_, ?_, fun _ _ => index.toNat_lt_size⟩
    · rw [taken, hvacant]
      rfl
    · rw [hsettle, UInt32.ofNat_toNat]
    · rw [hsettle]
      exact List.getElem?_set_self (List.getElem?_eq_some_iff.mp hvacant).1
  · refine ⟨m.slots.length, ?_, ?_, ?_, ?_⟩
    · rw [taken, List.getElem?_eq_none (Nat.le_refl _)]
      rfl
    · rw [hsettle]
    · rw [hsettle]
      exact List.getElem?_concat_length
    · intro hstacked hcount
      have hlength := hstacked.length_eq_count hfree
      rw [register, List.length_map] at hlength
      rwa [hlength]

/-- An allocation takes nothing from anyone. -/
theorem allocation_spares (hstack : m.StackSound) (minPages : Nat) :
    (∀ i generation e, m.Holds i generation e →
      (m.step (.allocate minPages)).2.Holds i generation e) ∧
    (∀ id, (m.step (.allocate minPages)).2.linksOf id = m.linksOf id) ∧
    m.mailboxes <+: (m.step (.allocate minPages)).2.mailboxes := by
  have hafter : (m.step (.allocate minPages)).2 = (m.allocate minPages).2 := rfl
  rw [hafter]
  rcases allocate_cases m minPages with ⟨_, hcall⟩ | ⟨_, _, -, hcall⟩ |
    ⟨exclusive, untrusted, connector, pages, -, hcall⟩
  · rw [hcall]
    exact ⟨fun _ _ _ h => h, fun _ => rfl, List.prefix_refl _⟩
  · rw [hcall]
    exact ⟨fun _ _ _ h => h, fun _ => rfl, List.prefix_refl _⟩
  · rw [hcall]
    have hsupply := hstack.supply pages (m.newcomer exclusive untrusted connector)
    refine ⟨fun i generation e h => ?_, fun id => linksOf_settle hsupply rfl id, ?_⟩
    · exact Holds.settle (m := m.supply _ _) h hsupply _
    · rw [enroll, mailboxes_settle]
      exact List.prefix_append _ _

/-- A handle that is answered, for an enclave that was put in an empty place. -/
theorem exists_place_allocated (hstack : m.StackSound)
    (h : (m.step (.allocate minPages)).1 = .ok (.allocated id)) :
    ∃ i exclusive untrusted connector, m.taken i = false ∧ id.index = .ofNat i ∧
      (m.step (.allocate minPages)).2.Holds i id.generation
        (m.newcomer exclusive untrusted connector) ∧
      (m.Stacked → m.count < UInt32.size → i < UInt32.size) := by
  obtain ⟨exclusive, untrusted, connector, pages, rfl, hafter⟩ := enroll_of_allocated h
  obtain ⟨i, hvacant, hindex, hholds, hnear⟩ := exists_place_settle
    (hstack.supply pages (m.newcomer exclusive untrusted connector))
    (m.newcomer exclusive untrusted connector)
  rw [hafter]
  exact ⟨i, exclusive, untrusted, connector, hvacant, hindex, hholds, hnear⟩

/-- A place that is empty is reached by no handle. -/
theorem enclave?_of_not_taken (h : m.taken id.index.toNat = false) : m.enclave? id = none := by
  cases hlive : m.enclave? id with
  | none => rfl
  | some e =>
    rw [taken_of_holds ((holds_iff_enclave? ⟨rfl, rfl⟩).mpr hlive)] at h
    cases h

/-! ## Who goes -/

/-- No enclave is gone after a stroke but the one that goes by it. -/
theorem isSome_strike (hlands : m.Lands stroke) {other : EnclaveId}
    (h : stroke.gone ≠ some other) :
    ((m.strike stroke).enclave? other).isSome = (m.enclave? other).isSome := by
  by_cases hother : other ∈ stroke.targets
  · cases stroke with
    | write records =>
      clear h hother
      show ((m.write records).enclave? other).isSome = _
      induction records generalizing m with
      | nil => rfl
      | cons record rest ih =>
        obtain ⟨hfirst, hrest⟩ := hlands.cons
        exact (ih hrest).trans (isSome_put hfirst record.2 other)
    | enter id e entry => exact isSome_put (hlands id (List.mem_singleton_self id)) e other
    | remove id entry => exact absurd (congrArg some (List.mem_singleton.mp hother).symm) h
  · rw [enclave?_strike hlands hother, Option.isSome_map]

/-- Who goes by a call was there, and is not any more. -/
theorem enclave?_strike_gone (hlands : m.Lands stroke) (h : stroke.gone = some gone) :
    (m.enclave? gone).isSome = true ∧ (m.strike stroke).enclave? gone = none := by
  cases stroke with
  | write records => cases h
  | enter id e entry => cases h
  | remove id entry =>
    cases h
    have hlive := hlands gone (List.mem_singleton_self gone)
    obtain ⟨e, he⟩ := Option.isSome_iff_exists.mp hlive
    have hgone : (m.teardown gone).enclave? gone = none := enclave?_teardown_self he
    cases entry <;> exact ⟨hlive, hgone⟩

/-- The enclave that goes by a call is the one that the call ends. -/
theorem Does.gone_eq_some_iff (h : m.Does call answer stroke) (hstack : m.StackSound) :
    stroke.gone = some gone ↔ m.Ends (.call call) gone := by
  have hsame (other : EnclaveId) :
      (m.act (.call call)).enclave? other = (m.strike stroke).enclave? other := by
    show (m.step call).2.unmapped.enclave? other = (m.strike stroke).unmapped.enclave? other
    rw [h.after_eq]
  constructor
  · intro hgone
    obtain ⟨hbefore, hafter⟩ := enclave?_strike_gone h.lands hgone
    exact ends_of_departure hstack hbefore ((hsame gone).trans hafter)
  · intro hends
    obtain ⟨⟨e, hlive⟩, hafter⟩ := hends.live
    by_contra hgone
    have hstays := isSome_strike h.lands hgone
    rw [← hsame, hafter, hlive] at hstays
    cases hstays

/-- Nobody goes by an allocation, or by a meeting. -/
theorem Ends.mayEnd (h : m.Ends (.call call) gone) : call.mayEnd = true := by
  cases h with
  | destroyed hact =>
    cases hact
    rfl
  | released hact =>
    cases hact
    rfl
  | failed entry fault hact =>
    cases hact
    cases entry <;> rfl

/-! ## Links and mappings -/

/-- Nobody is linked to a peer twice, not even in a place that no handle reaches. -/
theorem LinksSound.nodup_of_holds (h : LinksSound m) (hholds : m.Holds i generation e) :
    (e.links.map Link.peer).Nodup := by
  by_cases hi : i < UInt32.size
  · have hid : EnclaveId.Names ⟨.ofNat i, generation⟩ i generation :=
      ⟨UInt32.toNat_ofNat_of_lt hi, rfl⟩
    rw [← linksOf_of_live ((holds_iff_enclave? hid).mp hholds)]
    exact h.nodup _
  · rw [h.far i _ e hholds rfl (Nat.not_lt.mp hi)]
    exact .nil

/-- Losing the links to a peer is losing the mapping of its connector. -/
theorem LinksSound.mappings_filter {config : Config} (h : LinksSound m)
    (hmemory : MemorySound config m) (id peer : EnclaveId) :
    ((m.linksOf id).filter (·.peer ≠ peer)).map Link.region =
      (m.platform.mappings id).filter fun r =>
        (m.connectorOf peer).map Connector.region ≠ some r := by
  rw [h.mapped]
  cases hpeer : m.connectorOf peer with
  | none =>
    have hunlinked : ∀ link ∈ m.linksOf id, link.peer ≠ peer := by
      rintro link hlink rfl
      rw [h.connector hlink] at hpeer
      cases hpeer
    rw [List.filter_eq_self.mpr (by simpa using hunlinked), List.filter_eq_self.mpr (by simp)]
  | some c =>
    rw [← h.map_region_filter hmemory id hpeer]
    simp [eq_comm]

/-! ## What a call leaves alone -/

/-- Who goes by a call, if anyone does, and what becomes of the others. -/
structure Leaves (m : Monitor) (call : Call) (gone : Option EnclaveId) : Prop where
  ends_iff : ∀ id, gone = some id ↔ m.Ends (.call call) id
  holds : ∀ i generation e, m.Holds i generation e →
    (∀ id ∈ call.names, ¬ id.Names i generation) →
    (m.step call).2.Holds i generation (e.without gone)
  linksOf_eq : ∀ id, id ∉ call.names →
    (m.step call).2.linksOf id = (m.enclave? id).elim [] fun e => (e.without gone).links
  mailboxes : m.mailboxes <+: (m.step call).2.mailboxes

/-- By an allocation nobody goes. -/
theorem leaves_allocate (hstack : m.StackSound) (minPages : Nat) :
    m.Leaves (.allocate minPages) none := by
  obtain ⟨hholds, hlinks, hmailboxes⟩ := m.allocation_spares hstack minPages
  refine ⟨fun id => iff_of_false nofun fun hends => ?_, fun i generation e h _ =>
    hholds i generation e h, fun id _ => hlinks id, hmailboxes⟩
  cases hends.mayEnd

/-- What a call leaves alone can be read off what it does. -/
theorem Does.leaves (h : m.Does call answer stroke) (hstack : m.StackSound) :
    m.Leaves call stroke.gone where
  ends_iff _ := h.gone_eq_some_iff hstack
  holds _ _ _ hholds hother := h.holds hholds hother
  linksOf_eq id hother := by
    rw [linksOf, h.enclave?_eq hother]
    cases m.enclave? id <;> rfl
  mailboxes := ⟨[], (List.append_nil _).trans h.framed.mailboxes_eq.symm⟩

/-- Every call ends one enclave at most. -/
theorem StackSound.exists_leaves (hstack : m.StackSound) (call : Call) :
    ∃ gone, m.Leaves call gone := by
  cases hcall : call.allocates with
  | true =>
    cases call with
    | allocate minPages => exact ⟨none, leaves_allocate hstack minPages⟩
    | _ => cases hcall
  | false =>
    obtain ⟨answer, stroke, hdoes⟩ := m.exists_does hcall
    exact ⟨stroke.gone, hdoes.leaves hstack⟩

/-- What a call leaves alone. -/
structure Spares (m : Monitor) (call : Call) : Prop where
  /-- As long as nobody goes, an enclave that the call does not name keeps its record. -/
  kept : (∀ gone, ¬ m.Ends (.call call) gone) → ∀ i generation e, m.Holds i generation e →
    (∀ id ∈ call.names, ¬ id.Names i generation) → (m.step call).2.Holds i generation e
  /-- If one goes, all others lose the link to it. -/
  bereft : ∀ gone, m.Ends (.call call) gone → ∀ i generation e, m.Holds i generation e →
    (∀ id ∈ call.names, ¬ id.Names i generation) →
    (m.step call).2.Holds i generation { e with links := e.links.filter (·.peer ≠ gone) }
  mapped : (∀ gone, ¬ m.Ends (.call call) gone) → ∀ id, id ∉ call.names →
    (m.step call).2.platform.mappings id = m.platform.mappings id
  /-- And the mapping of its connector. -/
  unmapped : ∀ gone, m.Ends (.call call) gone → ∀ id, id ∉ call.names →
    (m.step call).2.platform.mappings id =
      (m.platform.mappings id).filter fun r => (m.connectorOf gone).map Connector.region ≠ some r
  mailboxes : m.mailboxes <+: (m.step call).2.mailboxes
  /-- A new enclave is put in an empty place, with zeroed memory. As long as not all indices are in
  use, its handle reached nothing before, and it reaches the new enclave. -/
  allocated : ∀ minPages id, call = .allocate minPages → (m.step call).1 = .ok (.allocated id) →
    ∃ i e, m.taken i = false ∧ id.index = .ofNat i ∧ (m.step call).2.Holds i id.generation e ∧
      e.memory = .zeroed e.exclusive.size ∧
      (∀ region memory, e.untrusted = some (region, memory) → memory = .zeroed region.size) ∧
      (m.count < UInt32.size → m.enclave? id = none ∧ (m.step call).2.enclave? id = some e)
  /-- Two enclaves that are to meet keep all but their logs, histories and links. -/
  met : ∀ event a b, call = .meeting event a b → ∀ id e, m.enclave? id = some e →
    ∃ log history links, (m.step call).2.enclave? id = some { e with log, history, links }

/-- Vacant slots are on the free list in every monitor that is reached. -/
theorem Reachable.stacked (h : m.Reachable) : m.Stacked := by
  induction h with
  | start _ hstart =>
    intro i generation hget
    rw [register_start hstart] at hget
    cases hget
  | @act m act hbefore ih =>
    exact ih.step (turnover_of_effect hbefore.stack (effect_act m act))

/-- A meeting writes logs, histories and links. -/
theorem exists_met (hstack : m.StackSound) (event : Event) (a b : EnclaveId)
    (hlive : m.enclave? id = some e) :
    ∃ log history links, (m.step (.meeting event a b)).2.enclave? id =
      some { e with log, history, links } := by
  have hfate := fate_act hstack (.call (.meeting event a b)) hlive
  generalize hafter : (m.act (.call (.meeting event a b))).enclave? id = found at hfate
  have hafter : (m.step (.meeting event a b)).2.enclave? id = found := hafter
  rw [hafter]
  cases hfate with
  | passed => exact ⟨e.log, e.history, e.links, rfl⟩
  | bereft _ _ => exact ⟨e.log, e.history, _, rfl⟩
  | @met event side peer f _ _ _ _ => cases event <;> exact ⟨_, _, _, rfl⟩
  | referenced hact => cases event <;> cases hact
  | loaded hact => cases event <;> cases hact
  | finalized hact => cases event <;> cases hact
  | @entered entry exit hact => cases event <;> cases entry <;> cases hact
  | flagged hact => cases event <;> cases hact
  | written hact => cases hact
  | ended hends => cases event <;> cases hends.mayEnd

/-- A new enclave, in its place and under its handle. -/
theorem Reachable.exists_newcomer (h : m.Reachable)
    (hanswer : (m.step (.allocate minPages)).1 = .ok (.allocated id)) :
    ∃ i e, m.taken i = false ∧ id.index = .ofNat i ∧
      (m.step (.allocate minPages)).2.Holds i id.generation e ∧
      e.memory = .zeroed e.exclusive.size ∧
      (∀ region memory, e.untrusted = some (region, memory) → memory = .zeroed region.size) ∧
      (m.count < UInt32.size → m.enclave? id = none ∧
        (m.step (.allocate minPages)).2.enclave? id = some e) := by
  obtain ⟨i, exclusive, untrusted, connector, hvacant, hindex, hholds, hnear⟩ :=
    exists_place_allocated h.stack hanswer
  refine ⟨i, _, hvacant, hindex, hholds, rfl, ?_, fun hcount => ?_⟩
  · intro region memory huntrusted
    obtain ⟨r, -, hr⟩ := Option.map_eq_some_iff.mp huntrusted
    cases hr
    rfl
  · have hplace : (UInt32.ofNat i).toNat = i :=
      UInt32.toNat_ofNat_of_lt' (hnear h.stacked hcount)
    have hid : id.Names i id.generation := ⟨by rw [hindex, hplace], rfl⟩
    exact ⟨enclave?_of_not_taken (hid.1.symm ▸ hvacant), (holds_iff_enclave? hid).mp hholds⟩

/-- A call leaves all others alone, but for what they had of an enclave that goes. -/
theorem calls_spare_others (h : m.Reachable) (call : Call) : m.Spares call := by
  obtain ⟨⟨config, hmemory⟩, hlinks⟩ := h.sound
  obtain ⟨gone, hleaves⟩ := hmemory.stack.exists_leaves call
  have hafter := (h.act (.call call)).sound.links.mapped
  have hnobody (hstay : ∀ id, ¬ m.Ends (.call call) id) : gone = none :=
    Option.eq_none_iff_forall_ne_some.mpr fun id hid => hstay id ((hleaves.ends_iff id).mp hid)
  refine ⟨?_, ?_, ?_, ?_, hleaves.mailboxes, ?_, ?_⟩
  · intro hstay i generation e hholds hother
    obtain rfl := hnobody hstay
    exact hleaves.holds i generation e hholds hother
  · intro id hends i generation e hholds hother
    obtain rfl := (hleaves.ends_iff id).mpr hends
    rw [← eraseP_peer_eq_filter (hlinks.nodup_of_holds hholds)]
    exact hleaves.holds i generation e hholds hother
  · intro hstay id hother
    obtain rfl := hnobody hstay
    rw [hlinks.mapped]
    exact (hafter id).trans (congrArg _ (hleaves.linksOf_eq id hother))
  · intro peer hends id hother
    obtain rfl := (hleaves.ends_iff peer).mpr hends
    have hlost : (m.step call).2.linksOf id = (m.linksOf id).filter (·.peer ≠ peer) := by
      rw [hleaves.linksOf_eq id hother, ← eraseP_peer_eq_filter (hlinks.nodup id), linksOf]
      cases m.enclave? id <;> rfl
    rw [← hlinks.mappings_filter hmemory, ← hlost]
    exact hafter id
  · rintro minPages id rfl
    exact h.exists_newcomer
  · rintro event a b rfl id e hlive
    exact exists_met hmemory.stack event a b hlive

/-- One of two enclaves goes. -/
theorem calls_spare_others_default :
    ∃ m, Monitor.start {} .initial ⟨⟨⟨List.replicate 32 7, rfl⟩⟩, ⟨⟨List.replicate 64 9, rfl⟩⟩⟩ =
        .ok m ∧
      (m.perform [.call (.allocate 1), .call (.allocate 1)]).Ends
        (.call (.destroy ⟨0, 1⟩)) ⟨0, 1⟩ ∧
      ((m.perform [.call (.allocate 1), .call (.allocate 1)]).enclave? ⟨1, 1⟩).isSome = true ∧
      (m.perform [.call (.allocate 1), .call (.allocate 1)]).Spares (.destroy ⟨0, 1⟩) :=
  ⟨_, rfl, .destroyed rfl rfl, rfl, calls_spare_others
    (Reachable.perform (@Reachable.start {} .initial _ _ (fun _ => rfl) rfl) _) _⟩

/-! ## Beyond the indices -/

/-- An enclave stays in its place while others come into being. -/
theorem Reachable.holds_perform (h : m.Reachable) (hholds : m.Holds i generation e)
    (minPages more : Nat) :
    (m.perform (List.replicate more (.call (.allocate minPages)))).Holds i generation e := by
  induction more generalizing m with
  | zero => exact hholds
  | succ more ih =>
    obtain ⟨hkept, -⟩ := m.allocation_spares h.stack minPages
    exact ih (h.act _) (hkept i generation e hholds)

/-- So the first enclave of all keeps its handle. -/
theorem Crowded.first_stays (h : m.Crowded 0) (hreachable : m.Reachable) (more : Nat) :
    ((m.perform (List.replicate (more + 1) (.call (.allocate 1)))).enclave? ⟨0, 1⟩).isSome =
      true := by
  have hcount : m.count < UInt32.size := by
    rw [count_eq_register, List.eq_nil_of_length_eq_zero h.length_eq]
    decide
  have hfirst := (h.allocate (Nat.zero_le _)).1
  obtain ⟨i, e, -, -, -, -, -, hreached⟩ := hreachable.exists_newcomer hfirst
  obtain ⟨-, hlive⟩ := hreached hcount
  have hholds := (holds_iff_enclave? ⟨rfl, rfl⟩).mpr hlive
  have hstays := (hreachable.act (.call (.allocate 1))).holds_perform hholds 1 more
  rw [List.replicate_succ]
  exact Option.isSome_iff_exists.mpr ⟨e, (holds_iff_enclave? ⟨rfl, rfl⟩).mp hstays⟩

/-- With as many enclaves as there are indices, the next one is given the handle of the first, which
is still live. -/
theorem live_handle_is_given_out :
    ∃ m, Monitor.start spacious .initial
        ⟨⟨⟨List.replicate 32 7, rfl⟩⟩, ⟨⟨List.replicate 64 9, rfl⟩⟩⟩ = .ok m ∧
      (m.perform (List.replicate UInt32.size (.call (.allocate 1)))).Reachable ∧
      ((m.perform (List.replicate UInt32.size (.call (.allocate 1)))).enclave? ⟨0, 1⟩).isSome =
        true ∧
      ((m.perform (List.replicate UInt32.size (.call (.allocate 1)))).step (.allocate 1)).1 =
        .ok (.allocated ⟨0, 1⟩) := by
  obtain ⟨m, hstart⟩ : ∃ m, Monitor.start spacious .initial
      ⟨⟨⟨List.replicate 32 7, rfl⟩⟩, ⟨⟨List.replicate 64 9, rfl⟩⟩⟩ = .ok m := ⟨_, rfl⟩
  have hreachable : m.Reachable := .start (fun _ => rfl) hstart
  have hcrowded := Crowded.start hstart
  have hagain := ((hcrowded.perform UInt32.size (by omega)).allocate (by omega)).1
  exact ⟨m, hstart, hreachable.perform _, hcrowded.first_stays hreachable (UInt32.size - 1), hagain⟩

end Monitor

end Enclaves

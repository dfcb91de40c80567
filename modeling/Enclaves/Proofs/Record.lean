import Enclaves.Proofs.Effect

/-!
# A record through an act

`Effect` tells what an act does to a monitor; here is what it does to the one record behind a
handle. The handle reached nothing before and the record is new, or the record was carried over with
a change that concerns it alone, or it took part in a meeting (`Follows`). Under a handle that
reaches an enclave before and after an act it is the same enclave, for no act both clears a slot and
fills it.

So what holds of every new record and outlasts each such change holds of all records
(`forall_of_effect`). What a measured enclave bears, its digest and its reference, stays as long as
it lives (`Bears`).
-/

namespace Enclaves

namespace Enclave

/-- A record that was carried through an act in which its enclave met no other. -/
inductive Carried (e : Enclave) : Enclave → Prop
  | same : e.Carried e
  | update {e' : Enclave} : e.Update e' → e.Carried e'
  | unlink (gone : EnclaveId) : e.Carried (e.unlink gone)

/-- The record of a new enclave, as far as it is measured and connected. -/
structure Fresh (e : Enclave) : Prop where
  state_eq : e.state = .allocated
  digest_eq : e.digest = none
  entries_eq : e.log.entries = []

/-- A measured enclave with a certain digest and reference. -/
structure Bears (e : Enclave) (digest : Digest) (reference : Reference) : Prop where
  state_ne : e.state ≠ .allocated
  digest_eq : e.digest = some digest
  reference_eq : e.reference = some reference

variable {e e' : Enclave} {digest : Digest} {reference : Reference}

/-- A record that is carried on keeps its log: only a meeting adds to it. -/
theorem Carried.log_eq (h : e.Carried e') : e'.log = e.log := by
  cases h with
  | same => rfl
  | update hupdate => cases hupdate <;> rfl
  | unlink gone => rfl

/-- Whoever is fit for an event has been measured. -/
theorem Fit.state_ne {event : Event} {peer : EnclaveId} {connector : Connector}
    (h : e.Fit event peer digest connector reference) : e.state ≠ .allocated := by
  have hadmitted := h.admitted
  intro hstate
  rw [hstate] at hadmitted
  cases event <;> cases hadmitted

/-- Whoever is fit for an event bears the measurement and the reference it brings. -/
theorem Fit.bears {event : Event} {peer : EnclaveId} {connector : Connector}
    (h : e.Fit event peer digest connector reference) : e.Bears digest reference :=
  ⟨h.state_ne, h.digest_eq, h.reference_eq⟩

/-- No update takes the digest or the reference from a record that is measured. -/
theorem Bears.update (h : e.Bears digest reference) (hupdate : e.Update e') :
    e'.Bears digest reference := by
  cases hupdate with
  | setReference _ hstate => exact absurd hstate h.state_ne
  | load _ _ hstate => exact absurd hstate h.state_ne
  | finalize _ _ hstate => exact absurd hstate h.state_ne
  | exit _ _ => exact ⟨by simp, h.digest_eq, h.reference_eq⟩
  | yield _ _ => exact ⟨by simp, h.digest_eq, h.reference_eq⟩
  | setDestroyOnRelease _ => exact ⟨h.state_ne, h.digest_eq, h.reference_eq⟩
  | writeUntrusted _ _ _ _ => exact ⟨h.state_ne, h.digest_eq, h.reference_eq⟩

/-- So a record that is carried on bears them still. -/
theorem Bears.carried (h : e.Bears digest reference) (hcarried : e.Carried e') :
    e'.Bears digest reference := by
  cases hcarried with
  | same => exact h
  | update hupdate => exact h.update hupdate
  | unlink gone => exact ⟨h.state_ne, h.digest_eq, h.reference_eq⟩

/-- An event adds to the log and the links, and leaves the digest and the reference. -/
theorem Bears.meet (h : e.Bears digest reference) (event : Event) (side peer : Side) :
    (e.meet event side peer).Bears digest reference :=
  ⟨h.state_ne, h.digest_eq, h.reference_eq⟩

end Enclave

namespace Monitor

variable {m m' : Monitor} {act : Act} {id : EnclaveId} {e f : Enclave}

/-- An act is a connection event between two enclaves, and it goes through. -/
def Meets (m : Monitor) (act : Act) (event : Event) (id peer : EnclaveId) : Prop :=
  ∃ call, (call = .meeting event id peer ∨ call = .meeting event peer id) ∧ act = .call call ∧
    (m.step call).1 = .ok .done

/-- What an act does to the record that a handle reaches after it. -/
inductive Follows (m : Monitor) (act : Act) (id : EnclaveId) : Enclave → Prop
  | born {e : Enclave} : m.enclave? id = none → e.Fresh → m.Follows act id e
  | carried {e e' : Enclave} : m.enclave? id = some e → e.Carried e' → m.Follows act id e'
  | met {event : Event} {side peer : Side} {e f : Enclave} : side.id = id →
    m.Partner event side e peer → m.Partner event peer f side →
    m.Meets act event side.id peer.id → m.Follows act id (e.meet event side peer)

/-- A live enclave is new, or it was carried on, or it met another one. -/
theorem follows_of_effect (hstack : m.StackSound) (h : m.Effect act m')
    (hlive : m'.enclave? id = some e) : m.Follows act id e := by
  cases h with
  | idle => exact .carried hlive .same
  | around => exact .carried hlive .same
  | short => exact .carried hlive .same
  | @enroll minPages exclusive untrusted connector pages hreserve =>
    rcases enclave?_enroll hstack exclusive untrusted connector pages id with
      hsame | ⟨hnone, hnew⟩
    · exact .carried (hsame.symm.trans hlive) .same
    · obtain rfl := Option.some.inj (hnew.symm.trans hlive)
      exact .born hnone ⟨rfl, rfl, rfl⟩
  | @update _ into e₁ e₂ platform hbefore hupdate hmappings =>
    have hput : (m.put into e₂).enclave? id = some e := hlive
    rw [enclave?_put hbefore] at hput
    split at hput
    · rename_i hid
      cases hput
      exact .carried (hid ▸ hbefore) (.update hupdate)
    · exact .carried hput .same
  | @remove _ gone e₁ entries hbefore =>
    have hgone : (m.teardown gone).enclave? id = some e := hlive
    rw [enclave?_teardown hbefore] at hgone
    split at hgone
    · cases hgone
    · obtain ⟨e₂, hlive', rfl⟩ := Option.map_eq_some_iff.mp hgone
      exact .carried hlive' (.unlink gone)
  | retract => exact .carried hlive .same
  | @meet event sideA sideB eA eB hne hA hB hdone =>
    rw [enclave?_meet hne hA hB] at hlive
    split at hlive
    · rename_i hid
      cases hlive
      exact .met hid.symm hA hB ⟨_, .inl rfl, rfl, hdone⟩
    split at hlive
    · rename_i hid
      cases hlive
      exact .met hid.symm hB hA ⟨_, .inr rfl, rfl, hdone⟩
    · exact .carried hlive .same

/-- An enclave that a handle did not reach before is a new one. -/
theorem exists_newcomer_of_effect (hstack : m.StackSound) (h : m.Effect act m')
    (hnone : m.enclave? id = none) (hlive : m'.enclave? id = some e) :
    ∃ minPages exclusive untrusted connector pages,
      m.reserveFor minPages = (.ok (exclusive, untrusted, connector), pages) ∧
      e = m.newcomer exclusive untrusted connector := by
  cases h with
  | idle => exact absurd (hnone.symm.trans hlive) (by simp)
  | around => exact absurd (hnone.symm.trans hlive) (by simp)
  | short => exact absurd (hnone.symm.trans hlive) (by simp)
  | retract => exact absurd (hnone.symm.trans hlive) (by simp)
  | @enroll minPages exclusive untrusted connector pages hreserve =>
    rcases enclave?_enroll hstack exclusive untrusted connector pages id with hsame | ⟨-, hnew⟩
    · exact absurd (hnone.symm.trans (hsame.symm.trans hlive)) (by simp)
    · exact ⟨minPages, exclusive, untrusted, connector, pages, hreserve,
        Option.some.inj (hlive.symm.trans hnew)⟩
  | @update _ into e₁ e₂ platform hbefore =>
    have hput : (m.put into e₂).enclave? id = some e := hlive
    rw [enclave?_put hbefore] at hput
    split at hput
    · rename_i hid
      exact absurd ((hid ▸ hnone).symm.trans hbefore) (by simp)
    · exact absurd (hnone.symm.trans hput) (by simp)
  | @remove _ gone e₁ entries hbefore =>
    have hgone : (m.teardown gone).enclave? id = some e := hlive
    rw [enclave?_teardown hbefore, hnone] at hgone
    split at hgone <;> cases hgone
  | meet hne hA hB =>
    rw [enclave?_meet hne hA hB] at hlive
    split at hlive
    · rename_i hid
      exact absurd ((hid ▸ hnone).symm.trans hA.live) (by simp)
    split at hlive
    · rename_i hid
      exact absurd ((hid ▸ hnone).symm.trans hB.live) (by simp)
    · exact absurd (hnone.symm.trans hlive) (by simp)

/-- What holds of new records and outlasts every change of one holds of all records. -/
theorem forall_of_effect {P : Enclave → Prop} (hstack : m.StackSound) (h : m.Effect act m')
    (hbefore : ∀ id e, m.enclave? id = some e → P e)
    (hborn : ∀ minPages exclusive untrusted connector pages,
      m.reserveFor minPages = (.ok (exclusive, untrusted, connector), pages) →
      P (m.newcomer exclusive untrusted connector))
    (hcarried : ∀ e e', P e → e.Carried e' → P e')
    (hmeet : ∀ event side peer e, P e → m.Partner event side e peer → P (e.meet event side peer)) :
    ∀ id e, m'.enclave? id = some e → P e := by
  intro id e hlive
  cases follows_of_effect hstack h hlive with
  | born hnone _ =>
    obtain ⟨minPages, exclusive, untrusted, connector, pages, hreserve, rfl⟩ :=
      exists_newcomer_of_effect hstack h hnone hlive
    exact hborn minPages exclusive untrusted connector pages hreserve
  | carried hsame hcarry => exact hcarried _ _ (hbefore _ _ hsame) hcarry
  | met _ hside _ _ => exact hmeet _ _ _ _ (hbefore _ _ hside.live) hside

/-- As long as an enclave lives it bears what it bears. -/
theorem bears_of_effect (hstack : m.StackSound) (h : m.Effect act m')
    {digest : Digest} {reference : Reference} (hbefore : m.enclave? id = some e)
    (hbears : e.Bears digest reference) (hlive : m'.enclave? id = some f) :
    f.Bears digest reference := by
  cases follows_of_effect hstack h hlive with
  | born hnone _ =>
    rw [hnone] at hbefore
    cases hbefore
  | carried hsame hcarried =>
    obtain rfl := Option.some.inj (hsame.symm.trans hbefore)
    exact hbears.carried hcarried
  | met hid hside _ _ =>
    obtain rfl := Option.some.inj ((hid ▸ hside.live).symm.trans hbefore)
    exact hbears.meet _ _ _

/-- An event that goes through is a meeting. -/
theorem meeting_of_done {event : Event} {a b : EnclaveId}
    (h : (m.step (.meeting event a b)).1 = .ok .done) :
    ∃ sideA sideB eA eB, a = sideA.id ∧ b = sideB.id ∧ sideA.id ≠ sideB.id ∧
      m.Partner event sideA eA sideB ∧ m.Partner event sideB eB sideA ∧
      (m.step (.meeting event a b)).2 = m.meet event sideA sideB eA eB := by
  cases event with
  | connect =>
    have hstep : m.step (.meeting .connect a b) = answer (fun _ => .done) (m.connect a b) := rfl
    rw [hstep] at h ⊢
    rcases connect_cases m a b with
      ⟨_, hcall⟩ | ⟨sideA, sideB, eA, eB, ha, hb, hne, hA, hB, ⟨_, hcall⟩ | hcall⟩
    · rw [hcall] at h
      cases h
    · rw [hcall] at h
      cases h
    · exact ⟨sideA, sideB, eA, eB, ha, hb, hne, hA, hB, by rw [hcall]; rfl⟩
  | disconnect =>
    have hstep : m.step (.meeting .disconnect a b) =
        answer (fun _ => .done) (m.disconnect a b) := rfl
    rw [hstep] at h ⊢
    rcases disconnect_cases m a b with
      ⟨_, hcall⟩ | ⟨sideA, sideB, eA, eB, ha, hb, hne, hA, hB, hcall⟩
    · rw [hcall] at h
      cases h
    · exact ⟨sideA, sideB, eA, eB, ha, hb, hne, hA, hB, by rw [hcall]; rfl⟩

/-- A meeting leaves an entry with either side, whichever is named first. -/
theorem Meets.entries {event : Event} {peer : EnclaveId} (h : m.Meets act event id peer) :
    ∃ e f entry, m.enclave? id = some e ∧ (m.act act).enclave? id = some f ∧
      f.log.entries = e.log.entries ++ [entry] := by
  obtain ⟨call, hcall, rfl, hdone⟩ := h
  rcases hcall with rfl | rfl
  · obtain ⟨sideA, sideB, eA, eB, rfl, rfl, hne, hA, hB, hafter⟩ := meeting_of_done hdone
    refine ⟨eA, eA.meet event sideA sideB, sideA.entry, hA.live, ?_, rfl⟩
    show (m.step (.meeting event sideA.id sideB.id)).2.enclave? sideA.id = _
    rw [hafter, enclave?_meet hne hA hB, if_pos rfl]
  · obtain ⟨sideA, sideB, eA, eB, rfl, rfl, hne, hA, hB, hafter⟩ := meeting_of_done hdone
    refine ⟨eB, eB.meet event sideB sideA, sideB.entry, hB.live, ?_, rfl⟩
    show (m.step (.meeting event sideA.id sideB.id)).2.enclave? sideB.id = _
    rw [hafter, enclave?_meet hne hA hB, if_neg hne.symm, if_pos rfl]

end Monitor

end Enclaves

import Enclaves.Proofs.Links

/-!
# Refused calls

A call that is refused leaves the monitor as it was, all of it: `afterRefusal` says what is left,
and it is the monitor itself but for an entry that fails underneath, which leaves what a destruction
would have left and one more line on the platform's record.

Two calls do something before they know that they are refused. An allocation takes pages and gives
them back, and the free list is the same list again; a connection maps a region and unmaps it, and
the mappings are the same again. The first rests on the free list being canonical
(`PageAllocator.eq_of_reserveAll_error`), the second on links and mappings agreeing
(`LinksSound.retract_of_partners`), so both hold where the monitor can be reached and not of any
monitor that could be written down.
-/

namespace Enclaves

namespace Monitor

variable {m : Monitor} {α : Type}

/-- An operation that either is refused without a trace or goes through. -/
inductive Clean (m : Monitor) : Except MonitorError α × Monitor → Prop
  | refused (error : MonitorError) : Clean m (.error error, m)
  | done (a : α) (m' : Monitor) : Clean m (.ok a, m')

/-- A clean operation that fails has done nothing. -/
theorem Clean.eq_of_error {outcome : Except MonitorError α × Monitor} (h : m.Clean outcome)
    {error : MonitorError} (herror : outcome.1 = .error error) : outcome.2 = m := by
  cases h with
  | refused => rfl
  | done => cases herror

/-- An outcome that is told as a reply is as clean as before. -/
theorem Clean.answer {outcome : Except MonitorError α × Monitor} (h : m.Clean outcome)
    (reply : α → Reply) : m.Clean (answer reply outcome) := by
  cases h with
  | refused error => exact .refused error
  | done a m' => exact .done (reply a) m'

/-! ## Operation by operation -/

/-- An allocation that fails gives back what it took. -/
theorem clean_allocate (h : m.Sound) (minPages : Nat) : m.Clean (m.allocate minPages) := by
  obtain ⟨⟨config, hmemory⟩, -⟩ := h
  rcases allocate_cases m minPages with ⟨_, hcall⟩ | ⟨_, pages, hreserve, hcall⟩ |
    ⟨_, _, _, _, -, hcall⟩
  · rw [hcall]
    exact .refused _
  · obtain rfl := PageAllocator.eq_of_reserveAll_error hmemory.lends.after hreserve
    rw [hcall]
    exact .refused _
  · rw [hcall]
    exact .done _ _

/-- A reference that is refused is not kept. -/
theorem clean_setReference (m : Monitor) (id : EnclaveId) (text : String) :
    m.Clean (m.setReference id text) := by
  rcases setReference_cases m id text with ⟨_, hcall⟩ | ⟨_, _, -, -, -, hcall⟩
  · rw [hcall]
    exact .refused _
  · rw [hcall]
    exact .done _ _

/-- An image that is refused is checked before any byte of it is written. -/
theorem clean_load (m : Monitor) (id : EnclaveId) (bundle : Bundle) :
    m.Clean (m.load id bundle) := by
  rcases load_cases m id bundle with ⟨_, hcall⟩ | ⟨_, _, -, -, -, -, hcall⟩
  · rw [hcall]
    exact .refused _
  · rw [hcall]
    exact .done _ _

/-- A layout that is refused leaves the enclave unmeasured. -/
theorem clean_finalize (m : Monitor) (id : EnclaveId) (layout : Layout) :
    m.Clean (m.finalize id layout) := by
  rcases finalize_cases m id layout with ⟨_, hcall⟩ | ⟨_, _, -, -, -, hcall⟩
  · rw [hcall]
    exact .refused _
  · rw [hcall]
    exact .done _ _

/-- The flag is set of an enclave that is there, or of none. -/
theorem clean_setDestroyOnRelease (m : Monitor) (id : EnclaveId) (flag : Bool) :
    m.Clean (m.setDestroyOnRelease id flag) := by
  rcases setDestroyOnRelease_cases m id flag with ⟨_, hcall⟩ | ⟨_, -, hcall⟩
  · rw [hcall]
    exact .refused _
  · rw [hcall]
    exact .done _ _

/-- A connection that fails takes its mapping out again. -/
theorem clean_connect (h : m.Sound) (a b : EnclaveId) : m.Clean (m.connect a b) := by
  obtain ⟨⟨config, hmemory⟩, hlinks⟩ := h
  rcases connect_cases m a b with
    ⟨_, hcall⟩ | ⟨sideA, sideB, eA, eB, -, -, -, hA, hB, ⟨_, hcall⟩ | hcall⟩
  · rw [hcall]
    exact .refused _
  · rw [hcall, hlinks.retract_of_partners hmemory hA hB]
    exact .refused _
  · rw [hcall]
    exact .done _ _

/-- A disconnection is refused before either side is touched. -/
theorem clean_disconnect (m : Monitor) (a b : EnclaveId) : m.Clean (m.disconnect a b) := by
  rcases disconnect_cases m a b with ⟨_, hcall⟩ | ⟨_, _, _, _, -, -, -, -, -, hcall⟩
  · rw [hcall]
    exact .refused _
  · rw [hcall]
    exact .done _ _

/-- An entry is refused without a trace, or fails underneath and takes the enclave with it. -/
theorem enterFrom_refused {id : EnclaveId} {state : EnclaveState} {refusal : Refusal}
    {entry : Entry} {error : MonitorError}
    (h : (m.enterFrom id state refusal entry).1 = .error error) :
    ((∀ into fault, error ≠ .lowLevelCall into fault) ∧
      (m.enterFrom id state refusal entry).2 = m) ∨
    ((∃ fault, error = .lowLevelCall id fault) ∧
      (m.enterFrom id state refusal entry).2 = (m.destroy id).2.noteEntry id entry) := by
  rcases enterFrom_cases m id state refusal entry with ⟨_, hnot, hcall⟩ | ⟨e, hlive, -, hcall⟩
  · rw [hcall] at h ⊢
    cases h
    exact .inl ⟨hnot, rfl⟩
  · have hdestroy : (m.destroy id).2 = m.teardown id := by
      unfold destroy
      rw [hlive]
    rw [hcall] at h ⊢
    rcases enter_cases hlive entry with ⟨fault, henter⟩ | ⟨_, henter⟩ | ⟨_, henter⟩
    · rw [henter] at h ⊢
      cases h
      exact .inr ⟨⟨fault, rfl⟩, by rw [hdestroy]⟩
    · rw [henter] at h
      cases h
    · rw [henter] at h
      cases h

/-! ## All calls -/

/-- What a refused call leaves. -/
def afterRefusal (m : Monitor) : Call → MonitorError → Monitor
  | .run id, .lowLevelCall _ _ => (m.destroy id).2.noteEntry id .run
  | .resume id, .lowLevelCall _ _ => (m.destroy id).2.noteEntry id .resume
  | _, _ => m

/-- Unless the platform failed, a refusal leaves everything as it was. -/
theorem afterRefusal_of_ne {error : MonitorError}
    (h : ∀ into fault, error ≠ .lowLevelCall into fault) (call : Call) :
    m.afterRefusal call error = m := by
  unfold afterRefusal
  split
  · exact absurd rfl (h _ _)
  · exact absurd rfl (h _ _)
  · rfl

/-- A meeting that does not pass the checks. -/
theorem step_meeting_of_refused {event : Event} {a b : EnclaveId} {error : MonitorError}
    (h : m.prepare a b event = .error error) :
    m.step (.meeting event a b) = (.error error, m) := by
  cases event with
  | connect =>
    show Monitor.answer _ (m.connect a b) = _
    rw [connect, h]
    rfl
  | disconnect =>
    show Monitor.answer _ (m.disconnect a b) = _
    rw [disconnect, h]
    rfl

/-- A refusal is told as it is. -/
theorem answer_error {outcome : Except MonitorError α × Monitor} {reply : α → Reply}
    {error : MonitorError} (h : (answer reply outcome).1 = .error error) :
    outcome.1 = .error error := by
  obtain ⟨outcome, m'⟩ := outcome
  cases outcome with
  | error _ => exact congrArg Except.error (Except.error.inj h)
  | ok _ => cases h

/-- A refused call leaves the monitor as it was, but for the entry of an enclave whose platform
failed. -/
theorem Sound.step_refused (h : m.Sound) {call : Call} {error : MonitorError}
    (herror : (m.step call).1 = .error error) : (m.step call).2 = m.afterRefusal call error := by
  cases call with
  | allocate minPages => exact ((clean_allocate h minPages).answer _).eq_of_error herror
  | setReference id text => exact ((clean_setReference m id text).answer _).eq_of_error herror
  | load id bundle => exact ((clean_load m id bundle).answer _).eq_of_error herror
  | finalize id layout => exact ((clean_finalize m id layout).answer _).eq_of_error herror
  | run id =>
    rcases enterFrom_refused (answer_error herror) with ⟨hnot, hsame⟩ | ⟨⟨fault, rfl⟩, hgone⟩
    · rw [afterRefusal_of_ne hnot]
      exact hsame
    · exact hgone
  | resume id =>
    rcases enterFrom_refused (answer_error herror) with ⟨hnot, hsame⟩ | ⟨⟨fault, rfl⟩, hgone⟩
    · rw [afterRefusal_of_ne hnot]
      exact hsame
    · exact hgone
  | destroy id => cases herror
  | release id => cases herror
  | setDestroyOnRelease id flag =>
    exact ((clean_setDestroyOnRelease m id flag).answer _).eq_of_error herror
  | connect a b => exact ((clean_connect h a b).answer _).eq_of_error herror
  | disconnect a b => exact ((clean_disconnect m a b).answer _).eq_of_error herror
  | attest id data => rfl

/-- Where nobody is there is nobody to destroy, and nothing is done. -/
theorem destroy_of_gone {id : EnclaveId} (h : m.enclave? id = none) :
    m.destroy id = (.alreadyGone, m) := by
  unfold destroy
  rw [h]

/-- Nor is there anybody to release. -/
theorem release_of_gone {id : EnclaveId} (h : m.enclave? id = none) :
    m.release id = (.alreadyGone, m) := by
  unfold release
  rw [h]
  exact destroy_of_gone h

/-- A refused call leaves no trace but for a failed entry, which leaves what destroying the enclave
leaves. Destroying or releasing what is gone already is no refusal, and no change either. -/
theorem refused_call_leaves_no_trace (h : m.Reachable) :
    (∀ call error, (m.step call).1 = .error error →
      (m.step call).2 = m.afterRefusal call error) ∧
    ∀ id, m.enclave? id = none →
      m.step (.destroy id) = (.ok (.gone .alreadyGone), m) ∧
      m.step (.release id) = (.ok (.gone .alreadyGone), m) := by
  refine ⟨?_, ?_⟩
  · intro call error herror
    exact h.sound.step_refused herror
  intro id hgone
  refine ⟨?_, ?_⟩
  · show (Except.ok (Reply.gone (m.destroy id).1), (m.destroy id).2) = _
    rw [destroy_of_gone hgone]
  · show (Except.ok (Reply.gone (m.release id).1), (m.release id).2) = _
    rw [release_of_gone hgone]

/-- With room for an exclusive region but not for an untrusted one, an allocation takes pages and
gives them back. -/
theorem refused_allocation_leaves_no_trace :
    ∃ m, Monitor.start { totalPages := 20 } .initial
        ⟨⟨⟨List.replicate 32 7, rfl⟩⟩, ⟨⟨List.replicate 64 9, rfl⟩⟩⟩ = .ok m ∧
      (m.step (.allocate 16)).1 =
        .error (.resourceExhausted (.pages 64 .untrusted 16)) ∧
      (m.step (.allocate 16)).2 = m := by
  refine ⟨_, rfl, rfl, ?_⟩
  exact (refused_call_leaves_no_trace (@Reachable.start { totalPages := 20 } .initial _ _
    (fun _ => rfl) rfl)).1 _ (.resourceExhausted (.pages 64 .untrusted 16)) rfl

end Monitor

end Enclaves

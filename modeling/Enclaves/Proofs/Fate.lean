import Enclaves.Proofs.Record

/-!
# What becomes of one enclave

`Effect` tells what an act does to a monitor and leaves open which act it was. Here an act is
looked at from one enclave: `Fate` lists what can become of the enclave behind a handle, and each
case names the act, with what it answered. `fate_act` says that the list is complete.

An enclave ends in three ways, by name: it is destroyed, it is released for good, or an entry into
it fails (`Ends`). Everyone else only loses the link to it. It is in this that the cases of one
enclave speak of another; all others are about calls under its own handle, and about meetings.

Of the monitor it is only asked that the stack of cleared slots is sound: otherwise a new enclave
could take the slot of a live one.
-/

namespace Enclaves

/-- The state that an entry is made from. -/
def Entry.origin : Entry → EnclaveState
  | .run => .finalized
  | .resume => .suspended

/-- The state of an enclave once control came back from it. -/
def DomainExit.state : DomainExit → EnclaveState
  | .exited _ => .running
  | .yielded _ => .suspended

/-- The call that makes an entry. -/
def Call.entering : Entry → EnclaveId → Call
  | .run, id => .run id
  | .resume, id => .resume id

/-- No entry starts from an enclave that is not measured. -/
theorem Entry.origin_ne_allocated (entry : Entry) : entry.origin ≠ .allocated := by
  cases entry <;> decide

/-- No exit leads back there. -/
theorem DomainExit.state_ne_allocated (exit : DomainExit) : exit.state ≠ .allocated := by
  cases exit <;> simp [state]

/-- An exit does not end an enclave. -/
theorem DomainExit.state_ne_destroyed (exit : DomainExit) : exit.state ≠ .destroyed := by
  cases exit <;> simp [state]

namespace Monitor

variable {m : Monitor} {act : Act} {id into : EnclaveId} {e f g : Enclave}

/-- An act that ends an enclave. -/
inductive Ends (m : Monitor) (act : Act) (id : EnclaveId) : Prop
  | destroyed (hact : act = .call (.destroy id))
      (hanswer : (m.step (.destroy id)).1 = .ok (.gone .destroyed))
  | released (hact : act = .call (.release id))
      (hanswer : (m.step (.release id)).1 = .ok (.gone .destroyed))
  | failed (entry : Entry) (fault : PlatformFault) (hact : act = .call (.entering entry id))
      (hanswer : (m.step (.entering entry id)).1 = .error (.lowLevelCall id fault))

/-- What becomes of an enclave in an act, under its own handle. -/
inductive Fate (m : Monitor) (act : Act) (id : EnclaveId) (e : Enclave) : Option Enclave → Prop
  /-- The act passes it by. -/
  | passed : m.Fate act id e (some e)
  | referenced {text : String} {reference : Reference}
      (hact : act = .call (.setReference id text))
      (hanswer : (m.step (.setReference id text)).1 = .ok .done) (hstate : e.state = .allocated)
      (htext : Reference.ofString text = .ok reference) :
      m.Fate act id e (some { e with reference := some reference })
  | loaded {bundle : Bundle} {layout : Layout} {reference : Reference}
      (hact : act = .call (.load id bundle))
      (hanswer : (m.step (.load id bundle)).1 = .ok (.loaded layout))
      (hstate : e.state = .allocated)
      (htext : Reference.ofString bundle.reference = .ok reference) :
      m.Fate act id e (some { e with
        memory := bundle.image.loadInto e.exclusive.size, reference := some reference })
  | finalized {layout : Layout} {digest : Digest} (hact : act = .call (.finalize id layout))
      (hanswer : (m.step (.finalize id layout)).1 = .ok (.finalized digest))
      (hstate : e.state = .allocated)
      (hmeasure : layout.measure e.exclusive e.memory = .ok digest) :
      m.Fate act id e (some { e with
        layout := some layout, digest := some digest, history := some digest,
        state := .finalized })
  | entered {entry : Entry} {exit : DomainExit} (hact : act = .call (.entering entry id))
      (hanswer : (m.step (.entering entry id)).1 = .ok (.entered exit))
      (hstate : e.state = entry.origin) :
      m.Fate act id e (some { e with state := exit.state, lastExit := some exit.value })
  | flagged {flag : Bool} (hact : act = .call (.setDestroyOnRelease id flag)) :
      m.Fate act id e (some { e with destroyOnRelease := flag })
  | written {offset : Nat} {bytes : Bytes} {region : Region} {memory : Memory}
      (hact : act = .happening (.writeUntrusted id offset bytes))
      (huntrusted : e.untrusted = some (region, memory)) :
      m.Fate act id e (some { e with untrusted := some (region, memory.write offset bytes) })
  /-- Another enclave goes, to which it may have been connected. -/
  | bereft {gone : EnclaveId} (hne : gone ≠ id) (hends : m.Ends act gone) :
      m.Fate act id e (some (e.unlink gone))
  | met {event : Event} {side peer : Side} {f : Enclave} (hid : side.id = id)
      (hside : m.Partner event side e peer) (hpeer : m.Partner event peer f side)
      (hmeets : m.Meets act event side.id peer.id) :
      m.Fate act id e (some (e.meet event side peer))
  | ended (hends : m.Ends act id) : m.Fate act id e none

/-! ## Changes of the table, from one handle -/

/-- Whoever is left alone stays as it was. -/
theorem Fate.of_same {found : Option Enclave} (hlive : m.enclave? id = some e)
    (hsame : found = m.enclave? id) : m.Fate act id e found := by
  rw [hsame, hlive]
  exact .passed

/-- One record was replaced, and it is the one in question or it is not. -/
theorem Fate.of_put (hlive : m.enclave? id = some e) (hinto : m.enclave? into = some f)
    (hself : into = id → f = e → m.Fate act id e (some g)) :
    m.Fate act id e ((m.put into g).enclave? id) := by
  rw [enclave?_put hinto]
  split
  · rename_i hid
    apply hself hid.symm
    exact Option.some.inj ((hid ▸ hinto).symm.trans hlive)
  · exact .of_same hlive rfl

/-- One enclave goes, and the others lose their links to it at most. -/
theorem Fate.of_teardown (hlive : m.enclave? id = some e) (hinto : m.enclave? into = some f)
    (hends : m.Ends act into) : m.Fate act id e ((m.teardown into).enclave? id) := by
  rw [enclave?_teardown hinto]
  split
  · rename_i hid
    exact .ended (hid ▸ hends)
  · rename_i hid
    rw [hlive]
    exact .bereft (Ne.symm hid) hends

/-- Two enclaves meet, and the others stay as they were. -/
theorem Fate.of_meet {event : Event} {sideA sideB : Side} {eA eB : Enclave}
    (hlive : m.enclave? id = some e) (hne : sideA.id ≠ sideB.id)
    (hA : m.Partner event sideA eA sideB) (hB : m.Partner event sideB eB sideA)
    (hdone : (m.step (.meeting event sideA.id sideB.id)).1 = .ok .done) :
    m.Fate (.call (.meeting event sideA.id sideB.id)) id e
      ((m.meet event sideA sideB eA eB).enclave? id) := by
  rw [enclave?_meet hne hA hB]
  split
  · rename_i hid
    obtain rfl := Option.some.inj ((hid ▸ hA.live).symm.trans hlive)
    exact .met hid.symm hA hB ⟨_, .inl rfl, rfl, hdone⟩
  split
  · rename_i hid
    obtain rfl := Option.some.inj ((hid ▸ hB.live).symm.trans hlive)
    exact .met hid.symm hB hA ⟨_, .inr rfl, rfl, hdone⟩
  · exact .of_same hlive rfl

/-! ## Call by call -/

/-- A new enclave changes nobody who is there. -/
theorem fate_allocate (hstack : m.StackSound) (minPages : Nat) (hlive : m.enclave? id = some e) :
    m.Fate (.call (.allocate minPages)) id e ((m.allocate minPages).2.enclave? id) := by
  rcases allocate_cases m minPages with ⟨_, hcall⟩ | ⟨_, pages, -, hcall⟩ |
    ⟨exclusive, untrusted, connector, pages, -, hcall⟩
  · rw [hcall]
    exact .of_same hlive rfl
  · rw [hcall]
    exact .of_same hlive rfl
  · rw [hcall]
    rcases enclave?_enroll hstack exclusive untrusted connector pages id with hsame | ⟨hnone, -⟩
    · exact .of_same hlive hsame
    · rw [hlive] at hnone
      cases hnone

/-- A reference is written into one enclave. -/
theorem fate_setReference (text : String) (hlive : m.enclave? id = some e) :
    m.Fate (.call (.setReference into text)) id e ((m.setReference into text).2.enclave? id) := by
  rcases setReference_cases m into text with
    ⟨_, hcall⟩ | ⟨f, reference, hinto, hstate, htext, hcall⟩
  · rw [hcall]
    exact .of_same hlive rfl
  · have hanswer : (m.step (.setReference into text)).1 = .ok .done := by
      simp [step, answer, hcall, Except.map]
    rw [hcall]
    apply Fate.of_put hlive hinto
    rintro rfl rfl
    exact .referenced rfl hanswer hstate htext

/-- An image is written into one enclave. -/
theorem fate_load (bundle : Bundle) (hlive : m.enclave? id = some e) :
    m.Fate (.call (.load into bundle)) id e ((m.load into bundle).2.enclave? id) := by
  rcases load_cases m into bundle with
    ⟨_, hcall⟩ | ⟨f, reference, hinto, hstate, htext, -, hcall⟩
  · rw [hcall]
    exact .of_same hlive rfl
  · have hanswer : (m.step (.load into bundle)).1 =
        .ok (.loaded (bundle.image.layoutAt f.exclusive.base)) := by
      simp [step, answer, hcall, Except.map]
    rw [hcall]
    apply Fate.of_put hlive hinto
    rintro rfl rfl
    exact .loaded rfl hanswer hstate htext

/-- A measurement is written into one enclave. -/
theorem fate_finalize (layout : Layout) (hlive : m.enclave? id = some e) :
    m.Fate (.call (.finalize into layout)) id e ((m.finalize into layout).2.enclave? id) := by
  rcases finalize_cases m into layout with
    ⟨_, hcall⟩ | ⟨f, digest, hinto, hstate, hmeasure, hcall⟩
  · rw [hcall]
    exact .of_same hlive rfl
  · have hanswer : (m.step (.finalize into layout)).1 = .ok (.finalized digest) := by
      simp [step, answer, hcall, Except.map]
    rw [hcall]
    apply Fate.of_put hlive hinto
    rintro rfl rfl
    exact .finalized rfl hanswer hstate hmeasure

/-- Both calls that enter an enclave do the same, each from a state of its own. -/
theorem step_entering (entry : Entry) (into : EnclaveId) :
    ∃ refusal, ∀ m : Monitor, m.step (.entering entry into) =
      answer .entered (m.enterFrom into entry.origin refusal entry) := by
  cases entry with
  | run => exact ⟨.run, fun _ => rfl⟩
  | resume => exact ⟨.resume, fun _ => rfl⟩

/-- One enclave is entered, and ends if that fails. -/
theorem fate_entering (entry : Entry) (hlive : m.enclave? id = some e) :
    m.Fate (.call (.entering entry into)) id e
      ((m.step (.entering entry into)).2.enclave? id) := by
  obtain ⟨refusal, hstep⟩ := step_entering entry into
  have hafter : (m.step (.entering entry into)).2 =
      (m.enterFrom into entry.origin refusal entry).2 := by rw [hstep]; rfl
  rw [hafter]
  rcases enterFrom_cases m into entry.origin refusal entry with
    ⟨_, -, hcall⟩ | ⟨f, hinto, hstate, hcall⟩
  · rw [hcall]
    exact .of_same hlive rfl
  rcases enter_cases hinto entry with ⟨fault, henter⟩ | ⟨value, henter⟩ | ⟨value, henter⟩
  · have hanswer : (m.step (.entering entry into)).1 = .error (.lowLevelCall into fault) := by
      rw [hstep, hcall, henter]
      rfl
    rw [hcall, henter]
    exact .of_teardown hlive hinto (.failed entry fault rfl hanswer)
  · have hanswer : (m.step (.entering entry into)).1 = .ok (.entered (.exited value)) := by
      rw [hstep, hcall, henter]
      rfl
    rw [hcall, henter]
    apply Fate.of_put hlive hinto
    rintro rfl rfl
    exact .entered rfl hanswer hstate
  · have hanswer : (m.step (.entering entry into)).1 = .ok (.entered (.yielded value)) := by
      rw [hstep, hcall, henter]
      rfl
    rw [hcall, henter]
    apply Fate.of_put hlive hinto
    rintro rfl rfl
    exact .entered rfl hanswer hstate

/-- One enclave is destroyed. -/
theorem fate_destroy (hlive : m.enclave? id = some e) :
    m.Fate (.call (.destroy into)) id e ((m.destroy into).2.enclave? id) := by
  rcases destroy_cases m into with ⟨-, hcall⟩ | ⟨f, hinto, hcall⟩
  · rw [hcall]
    exact .of_same hlive rfl
  · have hanswer : (m.step (.destroy into)).1 = .ok (.gone .destroyed) := by
      simp [step, hcall]
    rw [hcall]
    exact .of_teardown hlive hinto (.destroyed rfl hanswer)

/-- One enclave is released, and may end by it. -/
theorem fate_release (hlive : m.enclave? id = some e) :
    m.Fate (.call (.release into)) id e ((m.release into).2.enclave? id) := by
  rcases release_cases m into with ⟨-, hcall⟩ | hcall | ⟨f, hinto, hcall⟩
  · rw [hcall]
    exact .of_same hlive rfl
  · rw [hcall]
    exact .of_same hlive rfl
  · have hanswer : (m.step (.release into)).1 = .ok (.gone .destroyed) := by
      simp [step, hcall]
    rw [hcall]
    exact .of_teardown hlive hinto (.released rfl hanswer)

/-- A flag is written into one enclave. -/
theorem fate_setDestroyOnRelease (flag : Bool) (hlive : m.enclave? id = some e) :
    m.Fate (.call (.setDestroyOnRelease into flag)) id e
      ((m.setDestroyOnRelease into flag).2.enclave? id) := by
  rcases setDestroyOnRelease_cases m into flag with ⟨_, hcall⟩ | ⟨f, hinto, hcall⟩
  · rw [hcall]
    exact .of_same hlive rfl
  · rw [hcall]
    apply Fate.of_put hlive hinto
    rintro rfl rfl
    exact .flagged rfl

/-- Two enclaves are connected, or nobody is changed. -/
theorem fate_connect (a b : EnclaveId) (hlive : m.enclave? id = some e) :
    m.Fate (.call (.connect a b)) id e ((m.connect a b).2.enclave? id) := by
  rcases connect_cases m a b with
    ⟨_, hcall⟩ | ⟨sideA, sideB, eA, eB, rfl, rfl, hne, hA, hB, ⟨_, hcall⟩ | hcall⟩
  · rw [hcall]
    exact .of_same hlive rfl
  · rw [hcall]
    exact .of_same hlive rfl
  · have hdone : (m.step (.meeting .connect sideA.id sideB.id)).1 = .ok .done := by
      simp [Call.meeting, step, answer, hcall, Except.map]
    rw [hcall]
    exact .of_meet hlive hne hA hB hdone

/-- Two enclaves are disconnected, or nobody is changed. -/
theorem fate_disconnect (a b : EnclaveId) (hlive : m.enclave? id = some e) :
    m.Fate (.call (.disconnect a b)) id e ((m.disconnect a b).2.enclave? id) := by
  rcases disconnect_cases m a b with
    ⟨_, hcall⟩ | ⟨sideA, sideB, eA, eB, rfl, rfl, hne, hA, hB, hcall⟩
  · rw [hcall]
    exact .of_same hlive rfl
  · have hdone : (m.step (.meeting .disconnect sideA.id sideB.id)).1 = .ok .done := by
      simp [Call.meeting, step, answer, hcall, Except.map]
    rw [hcall]
    exact .of_meet hlive hne hA hB hdone

/-- What any call does to a live enclave. -/
theorem fate_call (hstack : m.StackSound) (call : Call) (hlive : m.enclave? id = some e) :
    m.Fate (.call call) id e ((m.step call).2.enclave? id) := by
  cases call with
  | allocate minPages => exact fate_allocate hstack minPages hlive
  | setReference into text => exact fate_setReference text hlive
  | load into bundle => exact fate_load bundle hlive
  | finalize into layout => exact fate_finalize layout hlive
  | run into => exact fate_entering .run hlive
  | resume into => exact fate_entering .resume hlive
  | destroy into => exact fate_destroy hlive
  | release into => exact fate_release hlive
  | setDestroyOnRelease into flag => exact fate_setDestroyOnRelease flag hlive
  | connect a b => exact fate_connect a b hlive
  | disconnect a b => exact fate_disconnect a b hlive
  | attest into data => exact .of_same hlive rfl

/-- What happens around the calls changes no record. -/
theorem fate_happening (happening : Happening) (hlive : m.enclave? id = some e) :
    m.Fate (.happening happening) id e ((m.undergo happening).enclave? id) := by
  rcases undergo_cases m happening with ⟨platform, mailboxes, -, hafter⟩ |
    ⟨into, offset, bytes, f, region, memory, rfl, hinto, huntrusted, hafter⟩
  · rw [hafter]
    exact .of_same hlive rfl
  · rw [hafter]
    apply Fate.of_put hlive hinto
    rintro rfl rfl
    exact .written rfl huntrusted

/-- In every act an enclave that is live has one of the listed fates. -/
theorem fate_act (hstack : m.StackSound) (act : Act) (hlive : m.enclave? id = some e) :
    m.Fate act id e ((m.act act).enclave? id) := by
  cases act with
  | call call => exact fate_call hstack call hlive
  | happening happening => exact fate_happening happening hlive

/-- Only a live enclave ends, and then its handle reaches nothing. -/
theorem Ends.live (h : m.Ends act id) :
    (∃ e, m.enclave? id = some e) ∧ (m.act act).enclave? id = none := by
  have hgone {e : Enclave} (hlive : m.enclave? id = some e) : (m.teardown id).enclave? id = none :=
    enclave?_teardown_self hlive
  cases h with
  | destroyed hact hanswer =>
    subst hact
    rcases destroy_cases m id with ⟨-, hcall⟩ | ⟨e, hlive, hcall⟩
    · rw [step, hcall] at hanswer
      cases hanswer
    · refine ⟨⟨e, hlive⟩, ?_⟩
      show (m.destroy id).2.enclave? id = none
      rw [hcall, hgone hlive]
  | released hact hanswer =>
    subst hact
    rcases release_cases m id with ⟨-, hcall⟩ | hcall | ⟨e, hlive, hcall⟩
    · rw [step, hcall] at hanswer
      cases hanswer
    · rw [step, hcall] at hanswer
      cases hanswer
    · refine ⟨⟨e, hlive⟩, ?_⟩
      show (m.release id).2.enclave? id = none
      rw [hcall, hgone hlive]
  | failed entry fault hact hanswer =>
    subst hact
    obtain ⟨refusal, hstep⟩ := step_entering entry id
    show (∃ e, m.enclave? id = some e) ∧ (m.step (.entering entry id)).2.enclave? id = none
    rw [hstep] at hanswer ⊢
    rcases enterFrom_cases m id entry.origin refusal entry with
      ⟨error, hnot, hcall⟩ | ⟨e, hlive, -, hcall⟩
    · rw [hcall] at hanswer
      exact absurd (Except.error.inj hanswer) (hnot _ _)
    · refine ⟨⟨e, hlive⟩, ?_⟩
      rcases enter_cases hlive entry with ⟨_, henter⟩ | ⟨_, henter⟩ | ⟨_, henter⟩
      · rw [hcall, henter]
        exact hgone hlive
      · rw [hcall, henter] at hanswer
        cases hanswer
      · rw [hcall, henter] at hanswer
        cases hanswer

end Monitor

end Enclaves

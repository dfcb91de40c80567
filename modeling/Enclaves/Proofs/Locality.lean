import Enclaves.Proofs.Refusal
import Enclaves.Proofs.Strokes

/-!
# What a call reads and writes

A call reads the records that it names, and what the platform has in store for them, and nothing
else of a monitor. `Does` says what it answers and which stroke it makes.

Two monitors may have the records that a call names in common, but for the links to an enclave that
has gone (`Alike`). Then the call answers the same in both, and the strokes are the same but for
those links: this is `Alike.mirrors`, call by call. With one monitor in both places it says that
every call has a stroke.

An allocation names nothing and is left out: it depends on all enclaves, by their number.
-/

namespace Enclaves

/-- The handles that a call names. -/
def Call.names : Call → List EnclaveId
  | .allocate _ => []
  | .setReference id _ => [id]
  | .load id _ => [id]
  | .finalize id _ => [id]
  | .run id => [id]
  | .resume id => [id]
  | .destroy id => [id]
  | .release id => [id]
  | .setDestroyOnRelease id _ => [id]
  | .connect a b => [a, b]
  | .disconnect a b => [a, b]
  | .attest id _ => [id]

/-- The calls in which an enclave can end. -/
def Call.mayEnd : Call → Bool
  | .run _ | .resume _ | .destroy _ | .release _ => true
  | _ => false

/-- The calls that bring an enclave into being. -/
def Call.allocates : Call → Bool
  | .allocate _ => true
  | _ => false

/-- A record that is finalized with a layout and the answer to it, or why it is refused. -/
def Enclave.finalizedBy (e : Enclave) (layout : Layout) : Except MonitorError (Reply × Enclave) :=
  match layout.validate e.exclusive (e.regions.filter (·.kind ≠ .exclusive)) with
  | .error fault => .error (.layoutInvalid (.layout fault))
  | .ok () =>
    match layout.measure e.exclusive e.memory with
    | .error fault => .error (.layoutInvalid (.layout fault))
    | .ok digest => .ok (.finalized digest, { e with
      layout := some layout, digest := some digest, history := some digest, state := .finalized })

namespace Monitor

variable {m m' : Monitor} {call : Call} {answer : Except MonitorError Reply} {stroke : Stroke}
  {names : List EnclaveId} {gone : Option EnclaveId} {id : EnclaveId} {e f : Enclave}

/-- What a call answers, and what it does. -/
structure Does (m : Monitor) (call : Call) (answer : Except MonitorError Reply) (stroke : Stroke) :
    Prop where
  answer_eq : (m.step call).1 = answer
  after_eq : (m.step call).2.unmapped = (m.strike stroke).unmapped
  lands : m.Lands stroke
  named : ∀ id ∈ stroke.targets, id ∈ call.names
  quiet : call.mayEnd = false → ∃ records, stroke = .write records

/-- A report is issued and nothing changed. -/
theorem step_attest (m : Monitor) (id : EnclaveId) (data : Bytes) :
    m.step (.attest id data) = ((m.attest id data).map .attested, m) :=
  rfl

/-! ### Shapes of calls -/

/-- A call that leaves the monitor as it is writes nothing. -/
theorem Does.idle (h : m.step call = (answer, m)) : m.Does call answer (.write []) where
  answer_eq := congrArg Prod.fst h
  after_eq := congrArg (·.2.unmapped) h
  lands id hid := by cases hid
  named id hid := by cases hid
  quiet _ := ⟨[], rfl⟩

/-- A stroke about one enclave; only a call in which an enclave can end does more than write. -/
theorem Does.single (hlive : m.enclave? id = some e) (hname : id ∈ call.names)
    (htargets : stroke.targets = [id])
    (hquiet : (∃ records, stroke = .write records) ∨ call.mayEnd = true)
    (h : m.step call = (answer, m.strike stroke)) : m.Does call answer stroke where
  answer_eq := congrArg Prod.fst h
  after_eq := congrArg (·.2.unmapped) h
  lands other hother := by
    rw [htargets] at hother
    rw [List.mem_singleton.mp hother, hlive]
    rfl
  named other hother := by
    rw [htargets] at hother
    rwa [List.mem_singleton.mp hother]
  quiet hcall := hquiet.resolve_right (Bool.eq_false_iff.mp hcall)

section Meeting

variable {event : Event} {sideA sideB : Side} {eA eB fA fB : Enclave}

/-- A meeting, as far as the records go. -/
theorem does_meeting (hne : sideA.id ≠ sideB.id) (hA : m.Partner event sideA eA sideB)
    (hB : m.Partner event sideB eB sideA)
    (hunhinderedA : m.platform.hinders event sideA.id = false)
    (hunhinderedB : m.platform.hinders event sideB.id = false) :
    m.Does (.meeting event sideA.id sideB.id) (.ok .done)
      (.write [(sideA.id, eA.meet event sideA sideB), (sideB.id, eB.meet event sideB sideA)]) := by
  have hstep := step_meeting_of_partners hne hA hB hunhinderedA hunhinderedB
  have hnames : (Call.meeting event sideA.id sideB.id).names = [sideA.id, sideB.id] := by
    cases event <;> rfl
  refine ⟨congrArg Prod.fst hstep, ?_, ?_, fun id hid => ?_, fun _ => ⟨_, rfl⟩⟩
  · rw [hstep]
    cases event <;> rfl
  · intro id hid
    rcases List.mem_cons.mp hid with rfl | hid
    · rw [hA.live]
      rfl
    · obtain rfl := List.mem_singleton.mp hid
      rw [hB.live]
      rfl
  · rw [hnames]
    exact hid

/-- A connection that the platform refuses to one of the sides: what was mapped is unmapped. -/
theorem does_hindered (hne : sideA.id ≠ sideB.id) (hA : m.Partner .connect sideA eA sideB)
    (hB : m.Partner .connect sideB eB sideA)
    (h : ¬ (m.platform.refusesMaps sideA.id = false ∧ m.platform.refusesMaps sideB.id = false)) :
    m.Does (.connect sideA.id sideB.id)
      (.error (if m.platform.refusesMaps sideA.id then .lowLevelCall sideA.id (.map sideA.id)
        else .lowLevelCall sideB.id (.map sideB.id))) (.write []) := by
  have hstep : m.step (.connect sideA.id sideB.id) =
      Monitor.answer (fun _ => .done) (m.connect sideA.id sideB.id) := rfl
  rw [connect_of_partners hne hA hB] at hstep
  by_cases hrefuseA : m.platform.refusesMaps sideA.id = true
  · rw [if_pos hrefuseA] at hstep ⊢
    exact .idle hstep
  · have hrefuseB : m.platform.refusesMaps sideB.id = true := by
      simp only [Bool.not_eq_true] at hrefuseA
      simpa [hrefuseA] using h
    rw [if_neg hrefuseA, if_pos hrefuseB] at hstep
    rw [if_neg hrefuseA]
    refine ⟨congrArg Prod.fst hstep, ?_, nofun, nofun, fun _ => ⟨[], rfl⟩⟩
    rw [hstep]
    rfl

end Meeting

/-! ## Two monitors -/

/-- Two monitors that have some records in common, but for the links to an enclave that has gone. -/
structure Alike (m m' : Monitor) (names : List EnclaveId) (gone : Option EnclaveId) : Prop where
  config_eq : m'.config = m.config
  identity_eq : m'.identity = m.identity
  refusesMaps_eq : m'.platform.refusesMaps = m.platform.refusesMaps
  script_eq : ∀ id ∈ names, m'.platform.script id = m.platform.script id
  enclave?_eq : ∀ id ∈ names, m'.enclave? id = (m.enclave? id).map (Enclave.without gone)
  gone_ne : ∀ id ∈ names, gone ≠ some id

/-- A call that does the same in two monitors, but for the links to an enclave that has gone. -/
def Mirrors (m m' : Monitor) (call : Call) (gone : Option EnclaveId) : Prop :=
  ∃ answer stroke, m.Does call answer stroke ∧ m'.Does call answer (stroke.without gone)

/-- A monitor is like itself, with nobody gone. -/
theorem Alike.refl (m : Monitor) (names : List EnclaveId) : m.Alike m names none :=
  ⟨rfl, rfl, rfl, fun _ _ => rfl, fun _ _ => Option.map_id'.symm, fun _ _ => nofun⟩

/-- A call that leaves both monitors as they are. -/
theorem Mirrors.idle (h : m.step call = (answer, m)) (h' : m'.step call = (answer, m')) :
    m.Mirrors m' call gone :=
  ⟨answer, .write [], .idle h, .idle h'⟩

/-- A call that looks for one record and edits it, or refuses to. -/
theorem Mirrors.edit (find : Monitor → Except MonitorError Enclave)
    (body : Enclave → Except MonitorError (Reply × Enclave)) (hname : id ∈ call.names)
    (hlike : m.Alike m' call.names gone)
    (hfind : find m' = (find m).map (Enclave.without gone))
    (hlive : ∀ e, find m = .ok e → m.enclave? id = some e)
    (hbody : ∀ e, body (e.without gone) =
      (body e).map fun edited => (edited.1, edited.2.without gone))
    (hstep : ∀ n : Monitor, n.step call =
      match find n with
      | .error error => (.error error, n)
      | .ok e =>
        match body e with
        | .error error => (.error error, n)
        | .ok (reply, e') => (.ok reply, n.put id e')) :
    m.Mirrors m' call gone := by
  have hstep' := hstep m'
  have hstep := hstep m
  rw [hfind] at hstep'
  cases hfound : find m with
  | error error =>
    rw [hfound] at hstep hstep'
    exact .idle hstep hstep'
  | ok e =>
    have hbefore := hlive e hfound
    have hbefore' := hlike.enclave?_eq id hname
    rw [hbefore, Option.map_some] at hbefore'
    rw [hfound] at hstep hstep'
    dsimp only [Except.map] at hstep hstep'
    rw [hbody] at hstep'
    cases hedited : body e with
    | error error =>
      rw [hedited] at hstep hstep'
      exact .idle hstep hstep'
    | ok edited =>
      rw [hedited] at hstep hstep'
      exact ⟨_, .write [(id, edited.2)], .single hbefore hname rfl (.inl ⟨_, rfl⟩) hstep,
        .single hbefore' hname rfl (.inl ⟨_, rfl⟩) hstep'⟩

namespace Alike

/-- Lookups of the handles named are alike. -/
theorem lookup_eq (h : m.Alike m' names gone) (hname : id ∈ names) :
    m'.lookup id = (m.lookup id).map (Enclave.without gone) := by
  unfold lookup
  rw [h.enclave?_eq id hname]
  cases m.enclave? id <;> rfl

/-- Requirements on them are met alike. -/
theorem require_eq (h : m.Alike m' names gone) (hname : id ∈ names) (state : EnclaveState)
    (refusal : Refusal) :
    m'.require id state refusal = (m.require id state refusal).map (Enclave.without gone) := by
  unfold require
  rw [h.lookup_eq hname]
  cases m.lookup id with
  | error error => rfl
  | ok e =>
    simp only [Except.map, Enclave.state_without]
    split <;> rfl

/-! ### Calls about one record -/

/-- A reference is given alike. -/
theorem mirrors_setReference {text : String}
    (h : m.Alike m' (Call.setReference id text).names gone) :
    m.Mirrors m' (.setReference id text) gone := by
  have hname : id ∈ (Call.setReference id text).names := List.mem_singleton_self id
  cases htext : Reference.ofString text with
  | error fault =>
    have hstep (n : Monitor) : n.step (.setReference id text) =
        (.error (.invalidArgument (.reference fault)), n) := by
      simp only [step, setReference, htext]
      rfl
    exact .idle (hstep m) (hstep m')
  | ok reference =>
    refine .edit (fun n => n.require id .allocated .setReference)
      (fun e => .ok (.done, { e with reference := some reference })) hname h
      (h.require_eq hname _ _) (fun e he => (require_eq_ok_iff.mp he).1) ?_ ?_
    · intro e
      cases gone <;> rfl
    · intro n
      simp only [step, setReference, htext]
      cases n.require id .allocated .setReference <;> rfl

/-- An image is loaded alike. -/
theorem mirrors_load {bundle : Bundle} (h : m.Alike m' (Call.load id bundle).names gone) :
    m.Mirrors m' (.load id bundle) gone := by
  have hname : id ∈ (Call.load id bundle).names := List.mem_singleton_self id
  cases htext : Reference.ofString bundle.reference with
  | error fault =>
    have hstep (n : Monitor) : n.step (.load id bundle) =
        (.error (.invalidArgument (.reference fault)), n) := by
      simp only [step, load, htext]
      rfl
    exact .idle (hstep m) (hstep m')
  | ok reference =>
    by_cases hsegments : bundle.image.segments.any List.isEmpty = true
    · have hstep (n : Monitor) : n.step (.load id bundle) =
          (.error (.layoutInvalid .emptySegment), n) := by
        simp only [step, load, htext, hsegments]
        rfl
      exact .idle (hstep m) (hstep m')
    · refine .edit (fun n => n.require id .allocated .load)
        (fun e =>
          if e.exclusive.pages < bundle.image.pages then
            .error (.invalidArgument (.imageTooLarge bundle.image.pages e.exclusive.pages))
          else .ok (.loaded (bundle.image.layoutAt e.exclusive.base), { e with
            memory := bundle.image.loadInto e.exclusive.size, reference := some reference }))
        hname h (h.require_eq hname _ _) (fun e he => (require_eq_ok_iff.mp he).1) ?_ ?_
      · intro e
        rw [Enclave.exclusive_without]
        split
        · rfl
        · cases gone <;> rfl
      · intro n
        simp only [step, load, htext, if_neg hsegments]
        cases n.require id .allocated .load with
        | error error => rfl
        | ok e =>
          dsimp only
          split <;> rfl

/-- An enclave is measured alike. -/
theorem mirrors_finalize {layout : Layout} (h : m.Alike m' (Call.finalize id layout).names gone) :
    m.Mirrors m' (.finalize id layout) gone := by
  have hname : id ∈ (Call.finalize id layout).names := List.mem_singleton_self id
  refine .edit (fun n => n.require id .allocated .finalize) (·.finalizedBy layout) hname h
    (h.require_eq hname _ _) (fun e he => (require_eq_ok_iff.mp he).1) ?_ ?_
  · intro e
    unfold Enclave.finalizedBy
    simp only [Enclave.exclusive_without, Enclave.regions_without, Enclave.memory_without]
    cases layout.validate e.exclusive (e.regions.filter (·.kind ≠ .exclusive)) with
    | error fault => rfl
    | ok _ =>
      cases layout.measure e.exclusive e.memory with
      | error fault => rfl
      | ok digest => cases gone <;> rfl
  · intro n
    simp only [step, finalize]
    cases n.require id .allocated .finalize with
    | error error => rfl
    | ok e =>
      simp only [Enclave.finalizedBy]
      cases layout.validate e.exclusive (e.regions.filter (·.kind ≠ .exclusive)) with
      | error fault => rfl
      | ok _ => cases layout.measure e.exclusive e.memory <;> rfl

/-- A flag is set alike. -/
theorem mirrors_setDestroyOnRelease {flag : Bool}
    (h : m.Alike m' (Call.setDestroyOnRelease id flag).names gone) :
    m.Mirrors m' (.setDestroyOnRelease id flag) gone := by
  have hname : id ∈ (Call.setDestroyOnRelease id flag).names := List.mem_singleton_self id
  refine .edit (fun n => n.lookup id) (fun e => .ok (.done, { e with destroyOnRelease := flag }))
    hname h (h.lookup_eq hname) (fun e => lookup_eq_ok_iff.mp) ?_ ?_
  · intro e
    cases gone <;> rfl
  · intro n
    simp only [step, setDestroyOnRelease]
    cases n.lookup id <;> rfl

/-- A report is issued alike. -/
theorem mirrors_attest {data : Bytes} (h : m.Alike m' (Call.attest id data).names gone) :
    m.Mirrors m' (.attest id data) gone := by
  have hname : id ∈ (Call.attest id data).names := List.mem_singleton_self id
  have hsame : m'.attest id data = m.attest id data := by
    unfold attest
    rw [h.lookup_eq hname, h.config_eq, h.identity_eq]
    cases m.lookup id with
    | error error => rfl
    | ok e =>
      simp only [Except.map, Enclave.digest_without, Enclave.history_without,
        Enclave.state_without, Enclave.log_without]
  refine .idle (m.step_attest id data) ?_
  rw [m'.step_attest, hsame]

/-! ### Meetings -/

/-- Either side of a meeting is checked alike, since the one who goes is neither. -/
theorem checkSide_eq (h : m.Alike m' names gone) (hname : id ∈ names) {peer : EnclaveId}
    (hpeer : peer ∈ names) (event : Event) :
    m'.checkSide id peer event = m.checkSide id peer event := by
  unfold checkSide
  rw [h.lookup_eq hname]
  cases m.lookup id with
  | error error => rfl
  | ok e =>
    simp only [Except.map, Enclave.state_without, Enclave.connector_without,
      Enclave.reference_without, Enclave.log_without, Enclave.digest_without,
      Enclave.linkTo?_without (h.gone_ne peer hpeer)]

/-- So a meeting is prepared alike. -/
theorem prepare_eq {a b : EnclaveId} (h : m.Alike m' [a, b] gone) (event : Event) :
    m'.prepare a b event = m.prepare a b event := by
  have ha : a ∈ [a, b] := List.mem_cons_self
  have hb : b ∈ [a, b] := List.mem_cons_of_mem _ (List.mem_singleton_self b)
  unfold prepare
  rw [h.lookup_eq ha, h.checkSide_eq ha hb, h.checkSide_eq hb ha]
  split
  · cases m.lookup a with
    | error error => rfl
    | ok e => simp only [Except.map, Enclave.state_without]
  · rfl

/-- An event goes through alike. -/
theorem mirrors_meeting (event : Event) {a b : EnclaveId} (h : m.Alike m' [a, b] gone) :
    m.Mirrors m' (.meeting event a b) gone := by
  have hprepare' := h.prepare_eq event
  cases hprepare : m.prepare a b event with
  | error error =>
    rw [hprepare] at hprepare'
    exact .idle (step_meeting_of_refused hprepare) (step_meeting_of_refused hprepare')
  | ok sides =>
    obtain ⟨sideA, sideB⟩ := sides
    rw [hprepare] at hprepare'
    obtain ⟨rfl, rfl, hne, ⟨eA, hA⟩, ⟨eB, hB⟩⟩ := prepare_eq_ok_iff.mp hprepare
    obtain ⟨-, -, -, ⟨fA, hA'⟩, ⟨fB, hB'⟩⟩ := prepare_eq_ok_iff.mp hprepare'
    have hmemA : sideA.id ∈ [sideA.id, sideB.id] := List.mem_cons_self
    have hmemB : sideB.id ∈ [sideA.id, sideB.id] :=
      List.mem_cons_of_mem _ (List.mem_singleton_self _)
    obtain rfl : fA = eA.without gone := by
      have hlive := h.enclave?_eq sideA.id hmemA
      rw [hA'.live, hA.live] at hlive
      exact Option.some.inj hlive
    obtain rfl : fB = eB.without gone := by
      have hlive := h.enclave?_eq sideB.id hmemB
      rw [hB'.live, hB.live] at hlive
      exact Option.some.inj hlive
    have hhinders (id : EnclaveId) :
        m'.platform.hinders event id = m.platform.hinders event id := by
      cases event with
      | connect => exact congrFun h.refusesMaps_eq id
      | disconnect => rfl
    by_cases hfree : m.platform.hinders event sideA.id = false ∧
        m.platform.hinders event sideB.id = false
    · have hdoes' := does_meeting hne hA' hB' ((hhinders _).trans hfree.1)
        ((hhinders _).trans hfree.2)
      rw [Enclave.meet_without event sideA (h.gone_ne _ hmemB),
        Enclave.meet_without event sideB (h.gone_ne _ hmemA)] at hdoes'
      exact ⟨_, _, does_meeting hne hA hB hfree.1 hfree.2, hdoes'⟩
    · cases event with
      | disconnect => exact absurd ⟨rfl, rfl⟩ hfree
      | connect =>
        have hfree' : ¬ (m'.platform.refusesMaps sideA.id = false ∧
            m'.platform.refusesMaps sideB.id = false) := h.refusesMaps_eq ▸ hfree
        have hdoes' := does_hindered hne hA' hB' hfree'
        rw [h.refusesMaps_eq] at hdoes'
        exact ⟨_, _, does_hindered hne hA hB hfree, hdoes'⟩

/-! ### Entering and leaving -/

/-- An enclave is entered alike. -/
theorem mirrors_entering (entry : Entry) (h : m.Alike m' [id] gone) :
    m.Mirrors m' (.entering entry id) gone := by
  have hmem : id ∈ [id] := List.mem_singleton_self id
  have hname : id ∈ (Call.entering entry id).names := by cases entry <;> exact hmem
  have hend : (Call.entering entry id).mayEnd = true := by cases entry <;> rfl
  obtain ⟨refusal, hstep⟩ := step_entering entry id
  have hrequire' := h.require_eq hmem entry.origin refusal
  have hcall := hstep m
  have hcall' := hstep m'
  unfold enterFrom at hcall hcall'
  cases hrequire : m.require id entry.origin refusal with
  | error error =>
    rw [hrequire] at hcall hrequire'
    rw [hrequire'] at hcall'
    exact .idle hcall hcall'
  | ok e =>
    have hlive := (require_eq_ok_iff.mp hrequire).1
    rw [hrequire] at hcall hrequire'
    have hlive' := (require_eq_ok_iff.mp hrequire').1
    have hanswer : (m'.platform.enter id entry).1 = (m.platform.enter id entry).1 := by
      simp only [Platform.enter, h.script_eq id hmem]
      split <;> rfl
    rw [hrequire'] at hcall'
    dsimp only [Except.map] at hcall hcall'
    rw [enter_eq hlive] at hcall
    rw [enter_eq hlive', hanswer] at hcall'
    cases hexit : (m.platform.enter id entry).1 with
    | error fault =>
      rw [hexit] at hcall hcall'
      exact ⟨_, .remove id (some entry), .single hlive hname rfl (.inr hend) hcall,
        .single hlive' hname rfl (.inr hend) hcall'⟩
    | ok exit =>
      rw [hexit] at hcall hcall'
      cases exit with
      | exited value =>
        refine ⟨_, .enter id _ entry, .single hlive hname rfl (.inr hend) hcall,
          .single hlive' hname rfl (.inr hend) ?_⟩
        rw [hcall']
        cases gone <;> rfl
      | yielded value =>
        refine ⟨_, .enter id _ entry, .single hlive hname rfl (.inr hend) hcall,
          .single hlive' hname rfl (.inr hend) ?_⟩
        rw [hcall']
        cases gone <;> rfl

/-- An enclave is destroyed alike. -/
theorem mirrors_destroy (h : m.Alike m' [id] gone) : m.Mirrors m' (.destroy id) gone := by
  have hmem : id ∈ [id] := List.mem_singleton_self id
  have hlive' := h.enclave?_eq id hmem
  cases hlive : m.enclave? id with
  | none =>
    rw [hlive] at hlive'
    have hstep {n : Monitor} (hgone : n.enclave? id = none) :
        n.step (.destroy id) = (.ok (.gone .alreadyGone), n) := by
      simp only [step, destroy_of_gone hgone]
    exact .idle (hstep hlive) (hstep hlive')
  | some e =>
    rw [hlive] at hlive'
    have hstep {n : Monitor} {f : Enclave} (hlive : n.enclave? id = some f) :
        n.step (.destroy id) = (.ok (.gone .destroyed), n.strike (.remove id none)) := by
      simp only [step, destroy, hlive]
      rfl
    have hname : id ∈ (Call.destroy id).names := hmem
    exact ⟨_, .remove id none, .single hlive hname rfl (.inr rfl) (hstep hlive),
      .single hlive' hname rfl (.inr rfl) (hstep hlive')⟩

/-- An enclave is released alike. -/
theorem mirrors_release (h : m.Alike m' [id] gone) : m.Mirrors m' (.release id) gone := by
  have hmem : id ∈ [id] := List.mem_singleton_self id
  have hlive' := h.enclave?_eq id hmem
  cases hlive : m.enclave? id with
  | none =>
    rw [hlive] at hlive'
    have hstep {n : Monitor} (hgone : n.enclave? id = none) :
        n.step (.release id) = (.ok (.gone .alreadyGone), n) := by
      simp only [step, release_of_gone hgone]
    exact .idle (hstep hlive) (hstep hlive')
  | some e =>
    rw [hlive, Option.map_some] at hlive'
    cases hflag : e.destroyOnRelease with
    | false =>
      have hstep {n : Monitor} {f : Enclave} (hlive : n.enclave? id = some f)
          (hflag : f.destroyOnRelease = false) :
          n.step (.release id) = (.ok (.gone .retained), n) := by
        simp only [step, release, hlive, hflag]
        rfl
      exact .idle (hstep hlive hflag)
        (hstep hlive' (by rw [Enclave.destroyOnRelease_without, hflag]))
    | true =>
      have hstep {n : Monitor} {f : Enclave} (hlive : n.enclave? id = some f)
          (hflag : f.destroyOnRelease = true) :
          n.step (.release id) = (.ok (.gone .destroyed), n.strike (.remove id none)) := by
        simp only [step, release, destroy, hlive, hflag]
        rfl
      have hname : id ∈ (Call.release id).names := hmem
      exact ⟨_, .remove id none, .single hlive hname rfl (.inr rfl) (hstep hlive hflag),
        .single hlive' hname rfl (.inr rfl)
          (hstep hlive' (by rw [Enclave.destroyOnRelease_without, hflag]))⟩

end Alike

/-- A call does the same in two monitors that have in common what it reads. -/
theorem Alike.mirrors (h : m.Alike m' call.names gone) (hcall : call.allocates = false) :
    m.Mirrors m' call gone := by
  cases call with
  | allocate minPages => cases hcall
  | setReference id text => exact h.mirrors_setReference
  | load id bundle => exact h.mirrors_load
  | finalize id layout => exact h.mirrors_finalize
  | run id => exact h.mirrors_entering .run
  | resume id => exact h.mirrors_entering .resume
  | destroy id => exact h.mirrors_destroy
  | release id => exact h.mirrors_release
  | setDestroyOnRelease id flag => exact h.mirrors_setDestroyOnRelease
  | connect a b => exact h.mirrors_meeting .connect
  | disconnect a b => exact h.mirrors_meeting .disconnect
  | attest id data => exact h.mirrors_attest

/-- Every call but an allocation has a stroke. -/
theorem exists_does (m : Monitor) (hcall : call.allocates = false) :
    ∃ answer stroke, m.Does call answer stroke := by
  obtain ⟨answer, stroke, hdoes, -⟩ := (Alike.refl m call.names).mirrors hcall
  exact ⟨answer, stroke, hdoes⟩

/-! ## After a call -/

namespace Does

variable {other : EnclaveId} {i : Nat} {generation : UInt32}

/-- What a handle reaches that a call does not name. -/
theorem enclave?_eq (h : m.Does call answer stroke) (hother : other ∉ call.names) :
    (m.step call).2.enclave? other = (m.enclave? other).map (Enclave.without stroke.gone) := by
  have hsame :
      (m.step call).2.unmapped.enclave? other = (m.strike stroke).unmapped.enclave? other :=
    congrArg (Monitor.enclave? · other) h.after_eq
  exact hsame.trans (enclave?_strike h.lands (mt (h.named other) hother))

/-- An enclave that a call does not name stays in its place. -/
theorem holds (h : m.Does call answer stroke) (hholds : m.Holds i generation e)
    (hother : ∀ id ∈ call.names, ¬ id.Names i generation) :
    (m.step call).2.Holds i generation (e.without stroke.gone) := by
  have hslots : (m.step call).2.unmapped.slots = (m.strike stroke).unmapped.slots :=
    congrArg slots h.after_eq
  have hkept := holds_strike h.lands hholds fun id hid => hother id (h.named id hid)
  exact (congrArg (·[i]?) hslots).trans hkept

/-- What a call leaves alone on the platform and elsewhere, for handles that it does not name. -/
theorem framed (h : m.Does call answer stroke) : m.Framed (m.step call).2 call.names := by
  obtain ⟨hconfig, hidentity, hmailboxes, hrefuses, hfails, hscript⟩ := framed_strike h.lands
  have hplatform := congrArg platform h.after_eq
  refine ⟨?_, ?_, ?_, ?_, ?_, ?_⟩
  · exact (congrArg config h.after_eq).trans hconfig
  · exact (congrArg identity h.after_eq).trans hidentity
  · exact (congrArg mailboxes h.after_eq).trans hmailboxes
  · exact (congrArg Platform.refusesMaps hplatform).trans hrefuses
  · exact (congrArg Platform.failsReleases hplatform).trans hfails
  · intro id hid
    have hsame := congrFun (congrArg Platform.script hplatform) id
    exact hsame.trans (hscript id (mt (h.named id) hid))

/-- To a call that names other enclaves, a monitor looks the same afterwards. -/
theorem alike (h : m.Does call answer stroke) (hapart : ∀ id ∈ names, id ∉ call.names) :
    m.Alike (m.step call).2 names stroke.gone where
  config_eq := h.framed.config_eq
  identity_eq := h.framed.identity_eq
  refusesMaps_eq := h.framed.refusesMaps_eq
  script_eq id hid := h.framed.script_eq id (hapart id hid)
  enclave?_eq id hid := h.enclave?_eq (hapart id hid)
  gone_ne id hid hgone := by
    refine hapart id hid (h.named id ?_)
    cases stroke with
    | write records => cases hgone
    | enter other e entry => cases hgone
    | remove other entry =>
      cases hgone
      exact List.mem_singleton_self id

/-- A call in which no enclave can end only writes records. -/
theorem gone_eq_none (h : m.Does call answer stroke) (hquiet : call.mayEnd = false) :
    stroke.gone = none := by
  obtain ⟨records, rfl⟩ := h.quiet hquiet
  rfl

end Does

end Monitor

end Enclaves

import Enclaves.Proofs.Issuing

/-!
# Entries into an enclave

The platform keeps a record of the entries that were made, with the handle and the way of entering
and nothing else. How each of them ended is told by what the call answered, so an entry is read off
the call (`visit?`), and `entries_act` says that the platform has recorded these entries and no
others.

`EntersInTurn` is the protocol of the entries that are made into one enclave over its life: it is
run once and resumed from then on, as long as it yields, and an entry that fails is the end of it.
The record of the enclave says at every moment how the last entry ended (`Enclave.Entered`). This is
one step for each act (`entered_act`) and an induction from the moment at which the place of
the enclave was taken.

Nothing is asked of the platform, of what it is told to do, or of the length of the run.
-/

namespace Enclaves

/-- An entry into an enclave, and how it ended. -/
structure Visit where
  id : EnclaveId
  entry : Entry
  result : Except PlatformFault DomainExit

/-- What the platform records of an entry. -/
def Visit.record (visit : Visit) : EnclaveId × Entry := (visit.id, visit.entry)

instance (id : EnclaveId) (i : Nat) (generation : UInt32) : Decidable (id.Names i generation) :=
  inferInstanceAs (Decidable (_ ∧ _))

/-- The record of an enclave after the entries that were made into it. -/
structure Enclave.Entered (e : Enclave) (visits : List Visit) : Prop where
  unentered : visits = [] → (e.state = .allocated ∨ e.state = .finalized) ∧ e.lastExit = none
  entry_eq : ∀ k visit, visits[k]? = some visit → visit.entry = if k = 0 then .run else .resume
  yielded : ∀ k visit, visits[k]? = some visit → k + 1 < visits.length →
    ∃ value, visit.result = .ok (.yielded value)
  suspended_iff : e.state = .suspended ↔
    ∃ visit value, visits.getLast? = some visit ∧ visit.result = .ok (.yielded value)
  running_iff : e.state = .running ↔
    ∃ visit value, visits.getLast? = some visit ∧ visit.result = .ok (.exited value)
  lastExit_eq : ∀ visit, visits.getLast? = some visit →
    ∃ exit, visit.result = .ok exit ∧ e.lastExit = some exit.value

namespace Enclave.Entered

variable {e e' : Enclave} {visits : List Visit} {visit : Visit} {exit : DomainExit}

/-- An enclave that awaits its first entry has none behind it. -/
theorem of_unentered (hstate : e.state = .allocated ∨ e.state = .finalized)
    (hexit : e.lastExit = none) : e.Entered [] where
  unentered _ := ⟨hstate, hexit⟩
  entry_eq k visit hget := by cases hget
  yielded k visit hget := by cases hget
  suspended_iff := by
    refine iff_of_false ?_ ?_
    · rintro hsuspended
      rw [hsuspended] at hstate
      rcases hstate with h | h <;> cases h
    · rintro ⟨_, _, hlast, -⟩
      cases hlast
  running_iff := by
    refine iff_of_false ?_ ?_
    · rintro hrunning
      rw [hrunning] at hstate
      rcases hstate with h | h <;> cases h
    · rintro ⟨_, _, hlast, -⟩
      cases hlast
  lastExit_eq visit hlast := by cases hlast

/-- The state is what the last entry left. -/
theorem state_eq (h : e.Entered visits) (hlast : visits.getLast? = some visit) :
    ∃ exit, visit.result = .ok exit ∧ e.state = exit.state := by
  obtain ⟨exit, hresult, -⟩ := h.lastExit_eq visit hlast
  refine ⟨exit, hresult, ?_⟩
  cases exit with
  | exited value => exact h.running_iff.mpr ⟨visit, value, hlast, hresult⟩
  | yielded value => exact h.suspended_iff.mpr ⟨visit, value, hlast, hresult⟩

/-- Which entry an enclave is ready for, by those that were made. -/
theorem of_origin (h : e.Entered visits) {entry : Entry} (horigin : e.state = entry.origin) :
    entry = .run ∧ visits = [] ∨
      entry = .resume ∧ ∃ last value, visits.getLast? = some last ∧
        last.result = .ok (.yielded value) := by
  cases entry with
  | resume => exact .inr ⟨rfl, h.suspended_iff.mp horigin⟩
  | run =>
    refine .inl ⟨rfl, ?_⟩
    cases hlast : visits.getLast? with
    | none => exact List.getLast?_eq_none_iff.mp hlast
    | some last =>
      obtain ⟨exit, -, hstate⟩ := h.state_eq hlast
      rw [horigin] at hstate
      cases exit <;> cases hstate

/-- An act that leaves state and last value alone, or finalizes the enclave. -/
theorem keep (h : e.Entered visits) (hexit : e'.lastExit = e.lastExit)
    (hstate : e'.state = e.state ∨ e.state = .allocated ∧ e'.state = .finalized) :
    e'.Entered visits := by
  rcases hstate with hsame | ⟨hbefore, hafter⟩
  · obtain ⟨unentered, entry_eq, yielded, suspended_iff, running_iff, lastExit_eq⟩ := h
    rw [← hsame] at unentered suspended_iff running_iff
    rw [← hexit] at unentered lastExit_eq
    exact ⟨unentered, entry_eq, yielded, suspended_iff, running_iff, lastExit_eq⟩
  · cases hlast : visits.getLast? with
    | none =>
      obtain rfl := List.getLast?_eq_none_iff.mp hlast
      exact .of_unentered (.inr hafter) (hexit.trans (h.unentered rfl).2)
    | some last =>
      obtain ⟨exit, -, hstate⟩ := h.state_eq hlast
      exact absurd (hstate.symm.trans hbefore) exit.state_ne_allocated

/-- One more entry, into an enclave that was ready for it. -/
theorem concat (h : e.Entered visits) (horigin : e.state = visit.entry.origin)
    (hresult : visit.result = .ok exit) :
    { e with state := exit.state, lastExit := some exit.value : Enclave }.Entered
      (visits ++ [visit]) := by
  have hlast : (visits ++ [visit]).getLast? = some visit := List.getLast?_concat
  refine ⟨?_, ?_, ?_, ?_, ?_, ?_⟩
  · intro hnil
    exact absurd hnil (by simp)
  · intro k other hget
    rcases getElem?_concat_cases hget with ⟨-, hold⟩ | ⟨rfl, rfl⟩
    · exact h.entry_eq k other hold
    · rcases h.of_origin horigin with ⟨hrun, rfl⟩ | ⟨hresume, last, _, hlast', -⟩
      · exact hrun
      · have hne : visits.length ≠ 0 := by
          rintro hzero
          rw [List.length_eq_zero_iff.mp hzero] at hlast'
          cases hlast'
        rw [hresume, if_neg hne]
  · intro k other hget hlt
    rw [List.length_append, List.length_singleton] at hlt
    rcases getElem?_concat_cases hget with ⟨-, hold⟩ | ⟨rfl, -⟩
    · rcases Nat.lt_or_ge (k + 1) visits.length with hbefore | hlast'
      · exact h.yielded k other hold hbefore
      · -- the last entry before this one: an enclave that is ready for another has yielded
        have hlength : visits.length - 1 = k := by omega
        rcases h.of_origin horigin with ⟨-, rfl⟩ | ⟨-, last, value, hprevious, hyielded⟩
        · cases hold
        · rw [List.getLast?_eq_getElem?, hlength, hold] at hprevious
          cases hprevious
          exact ⟨value, hyielded⟩
    · exact absurd hlt (Nat.lt_irrefl _)
  · rw [hlast]
    cases exit <;> simp [DomainExit.state, hresult]
  · rw [hlast]
    cases exit <;> simp [DomainExit.state, hresult]
  · intro other hother
    rw [hlast] at hother
    cases hother
    exact ⟨exit, hresult, rfl⟩

end Enclave.Entered

namespace Monitor

variable {m m' : Monitor} {act : Act} {acts : List Act} {i : Nat} {generation : UInt32}
  {id : EnclaveId} {e e' : Enclave} {visit : Visit} {earlier : List Visit}
  {first last moment : Nat}

/-! ## The entry that an act makes -/

/-- How an entry ended, by what the call answered. A call that was refused has made none. -/
def ending? : Except MonitorError Reply → Option (Except PlatformFault DomainExit)
  | .ok (.entered exit) => some (.ok exit)
  | .error (.lowLevelCall _ fault) => some (.error fault)
  | _ => none

/-- The entry that an act makes, if it makes one. -/
def visit? (m : Monitor) : Act → Option Visit
  | .call (.run id) => (ending? (m.step (.run id)).1).map (⟨id, .run, ·⟩)
  | .call (.resume id) => (ending? (m.step (.resume id)).1).map (⟨id, .resume, ·⟩)
  | _ => none

/-- A call to enter makes an entry exactly if it is not refused before. -/
theorem visit?_entering (entry : Entry) (id : EnclaveId) :
    m.visit? (.call (.entering entry id)) =
      (ending? (m.step (.entering entry id)).1).map (⟨id, entry, ·⟩) := by
  cases entry <;> rfl

/-- An entry is made by one of the two calls. -/
theorem entering_of_visit? (h : m.visit? act = some visit) :
    act = .call (.entering visit.entry visit.id) := by
  unfold visit? at h
  split at h
  · obtain ⟨_, -, rfl⟩ := Option.map_eq_some_iff.mp h
    rfl
  · obtain ⟨_, -, rfl⟩ := Option.map_eq_some_iff.mp h
    rfl
  · cases h

/-- A call that enters an enclave is refused, with no entry made, or the platform enters it. -/
theorem visit_cases (m : Monitor) (entry : Entry) (id : EnclaveId) :
    (m.visit? (.call (.entering entry id)) = none ∧ m.act (.call (.entering entry id)) = m) ∨
    ∃ e, m.enclave? id = some e ∧ e.state = entry.origin ∧
      m.visit? (.call (.entering entry id)) = some ⟨id, entry, (m.platform.enter id entry).1⟩ ∧
      m.act (.call (.entering entry id)) = (m.enter id e entry).2 := by
  obtain ⟨refusal, hstep⟩ := step_entering entry id
  have hact : m.act (.call (.entering entry id)) =
      (m.enterFrom id entry.origin refusal entry).2 := congrArg Prod.snd (hstep m)
  rw [visit?_entering, hstep, hact]
  rcases enterFrom_cases m id entry.origin refusal entry with
    ⟨error, hnot, hcall⟩ | ⟨e, hlive, hstate, hcall⟩
  · rw [hcall]
    refine .inl ⟨?_, rfl⟩
    cases error with
    | lowLevelCall into fault => exact absurd rfl (hnot into fault)
    | _ => rfl
  · refine .inr ⟨e, hlive, hstate, ?_, by rw [hcall]⟩
    rw [hcall, enter_eq hlive]
    split
    · rename_i fault hfault
      rw [hfault]
      rfl
    · rename_i value hexit
      rw [hexit]
      rfl
    · rename_i value hexit
      rw [hexit]
      rfl

/-- What an entry finds, and what it leaves. -/
structure Admits (m : Monitor) (act : Act) (visit : Visit) (e : Enclave) : Prop where
  live : m.enclave? visit.id = some e
  state_eq : e.state = visit.entry.origin
  result_eq : visit.result = (m.platform.enter visit.id visit.entry).1
  after_eq : m.act act = (m.enter visit.id e visit.entry).2

/-- An entry is made into a live enclave, in the state that the kind of entry starts from. -/
theorem exists_admits (h : m.visit? act = some visit) : ∃ e, m.Admits act visit e := by
  obtain rfl := entering_of_visit? h
  rcases m.visit_cases visit.entry visit.id with ⟨hnone, -⟩ | ⟨e, hlive, hstate, hsome, hafter⟩
  · rw [hnone] at h
    cases h
  · rw [hsome] at h
    refine ⟨e, hlive, hstate, ?_, hafter⟩
    rw [← Option.some.inj h]

/-- Coming back from an entry, an enclave is as the entry left it. -/
theorem Admits.enclave?_of_ok (h : m.Admits act visit e) {exit : DomainExit}
    (hresult : visit.result = .ok exit) : (m.act act).enclave? visit.id =
      some { e with state := exit.state, lastExit := some exit.value } := by
  have hanswer := h.result_eq.symm.trans hresult
  rw [h.after_eq, enter_eq h.live, hanswer]
  cases exit with
  | exited value => exact enclave?_put_self h.live _
  | yielded value => exact enclave?_put_self h.live _

/-- From a failed entry it does not come back. -/
theorem Admits.act_of_error (h : m.Admits act visit e) {fault : PlatformFault}
    (hresult : visit.result = .error fault) :
    m.act act = (m.teardown visit.id).noteEntry visit.id visit.entry := by
  have hanswer := h.result_eq.symm.trans hresult
  rw [h.after_eq, enter_eq h.live, hanswer]

/-! ## The platform's record -/

/-- A teardown keeps the record. -/
theorem entries_teardown (h : m.enclave? id = some e) :
    (m.teardown id).platform.entries = m.platform.entries := by
  rw [teardown_eq h]

/-- So does an event. -/
theorem entries_meet (p : Platform) (event : Event) (sideA sideB : Side) :
    (p.meet event sideA sideB).entries = p.entries := by
  cases event <;> rfl

/-- Entering adds one line to it. -/
theorem entries_enter (p : Platform) (id : EnclaveId) (entry : Entry) :
    (p.enter id entry).2.entries = p.entries ++ [(id, entry)] := by
  simp only [Platform.enter]
  split <;> rfl

/-- The record grows by the entry that a call makes, if it makes one. -/
theorem entries_entering (m : Monitor) (entry : Entry) (id : EnclaveId) :
    (m.act (.call (.entering entry id))).platform.entries = m.platform.entries ++
      ((m.visit? (.call (.entering entry id))).map Visit.record).toList := by
  rcases m.visit_cases entry id with ⟨hnone, hsame⟩ | ⟨e, hlive, -, hsome, hafter⟩
  · rw [hnone, hsame]
    exact (List.append_nil _).symm
  · rw [hsome, hafter]
    rcases enter_cases hlive entry with ⟨_, henter⟩ | ⟨_, henter⟩ | ⟨_, henter⟩
    · rw [henter]
      show (m.teardown id).platform.entries ++ [(id, entry)] = _
      rw [entries_teardown hlive]
      rfl
    · rw [henter]
      exact entries_enter m.platform id entry
    · rw [henter]
      exact entries_enter m.platform id entry

/-- No other call enters anything. -/
theorem entries_call (call : Call) (hrun : ∀ id, call ≠ .run id)
    (hresume : ∀ id, call ≠ .resume id) :
    (m.step call).2.platform.entries = m.platform.entries := by
  cases call with
  | run id => exact absurd rfl (hrun id)
  | resume id => exact absurd rfl (hresume id)
  | attest id data => rfl
  | allocate minPages =>
    show (m.allocate minPages).2.platform.entries = _
    rcases allocate_cases m minPages with ⟨_, hcall⟩ | ⟨_, pages, -, hcall⟩ |
      ⟨exclusive, untrusted, connector, pages, -, hcall⟩
    · rw [hcall]
    · rw [hcall]
    · rw [hcall]
      exact congrArg Platform.entries (platform_settle _ _)
  | setReference id text =>
    show (m.setReference id text).2.platform.entries = _
    rcases setReference_cases m id text with ⟨_, hcall⟩ | ⟨_, _, -, -, -, hcall⟩
    · rw [hcall]
    · rw [hcall]
      rfl
  | load id bundle =>
    show (m.load id bundle).2.platform.entries = _
    rcases load_cases m id bundle with ⟨_, hcall⟩ | ⟨_, _, -, -, -, -, hcall⟩
    · rw [hcall]
    · rw [hcall]
      rfl
  | finalize id layout =>
    show (m.finalize id layout).2.platform.entries = _
    rcases finalize_cases m id layout with ⟨_, hcall⟩ | ⟨_, _, -, -, -, hcall⟩
    · rw [hcall]
    · rw [hcall]
      rfl
  | destroy id =>
    show (m.destroy id).2.platform.entries = _
    rcases destroy_cases m id with ⟨-, hcall⟩ | ⟨_, hlive, hcall⟩
    · rw [hcall]
    · rw [hcall, entries_teardown hlive]
  | release id =>
    show (m.release id).2.platform.entries = _
    rcases release_cases m id with ⟨-, hcall⟩ | hcall | ⟨_, hlive, hcall⟩
    · rw [hcall]
    · rw [hcall]
    · rw [hcall, entries_teardown hlive]
  | setDestroyOnRelease id flag =>
    show (m.setDestroyOnRelease id flag).2.platform.entries = _
    rcases setDestroyOnRelease_cases m id flag with ⟨_, hcall⟩ | ⟨_, -, hcall⟩
    · rw [hcall]
    · rw [hcall]
      rfl
  | connect a b =>
    show (m.connect a b).2.platform.entries = _
    rcases connect_cases m a b with
      ⟨_, hcall⟩ | ⟨_, _, _, _, -, -, -, -, -, ⟨_, hcall⟩ | hcall⟩
    · rw [hcall]
    · rw [hcall]
      rfl
    · rw [hcall]
      exact entries_meet _ _ _ _
  | disconnect a b =>
    show (m.disconnect a b).2.platform.entries = _
    rcases disconnect_cases m a b with ⟨_, hcall⟩ | ⟨_, _, _, _, -, -, -, -, -, hcall⟩
    · rw [hcall]
    · rw [hcall]
      exact entries_meet _ _ _ _

/-- What happens around the calls adds nothing to it. -/
theorem entries_undergo (m : Monitor) (happening : Happening) :
    (m.undergo happening).platform.entries = m.platform.entries := by
  cases happening with
  | scriptEntry id result => rfl
  | refuseMaps id refuse => rfl
  | failReleases fail => rfl
  | writeUntrusted id offset bytes =>
    simp only [undergo, writeUntrusted]
    split
    · rfl
    split <;> rfl
  | send mailbox message =>
    simp only [undergo, send?]
    split
    · rename_i hsend
      split at hsend
      · cases hsend
      split at hsend
      · cases hsend
      cases hsend
      rfl
    · rfl
  | receive mailbox room =>
    simp only [undergo, receive?]
    split
    · rename_i hreceive
      split at hreceive
      · cases hreceive
      split at hreceive
      · cases hreceive
      cases hreceive
      rfl
    · rfl

/-- The platform has recorded the entry that an act made, and nothing else. -/
theorem entries_act (m : Monitor) (act : Act) : (m.act act).platform.entries =
    m.platform.entries ++ ((m.visit? act).map Visit.record).toList := by
  cases act with
  | happening happening => exact (entries_undergo m happening).trans (List.append_nil _).symm
  | call call =>
    cases call with
    | run id => exact entries_entering m .run id
    | resume id => exact entries_entering m .resume id
    | _ => exact (entries_call _ (by simp) (by simp)).trans (List.append_nil _).symm

/-! ## One enclave through an act -/

/-- An act that makes no entry leaves state and last value alone, or finalizes the enclave. -/
theorem Remains.keeps_state (h : m.Remains act i generation e e')
    (hnone : ∀ visit, m.visit? act = some visit → ¬ visit.id.Names i generation) :
    e'.lastExit = e.lastExit ∧
      (e'.state = e.state ∨ e.state = .allocated ∧ e'.state = .finalized) := by
  cases h with
  | same => exact ⟨rfl, .inl rfl⟩
  | bereft gone => exact ⟨rfl, .inl rfl⟩
  | @reached id e' hid hfate =>
    cases hfate with
    | finalized _ _ hstate _ => exact ⟨rfl, .inr ⟨hstate, rfl⟩⟩
    | @entered entry exit hact hanswer _ =>
      have hvisit : m.visit? act = some ⟨id, entry, .ok exit⟩ := by
        rw [hact, visit?_entering, hanswer]
        rfl
      exact absurd hid (hnone _ hvisit)
    | _ => exact ⟨rfl, .inl rfl⟩

/-- The entries among some that were made into one enclave. -/
def made (i : Nat) (generation : UInt32) (visits : List Visit) : List Visit :=
  visits.filter fun visit => visit.id.Names i generation

/-- The entries into one enclave, in two parts. -/
theorem made_append (i : Nat) (generation : UInt32) (visits more : List Visit) :
    made i generation (visits ++ more) = made i generation visits ++ made i generation more :=
  List.filter_append _ _

/-- What the entries say of an enclave they say after every act that leaves it in its place. -/
theorem entered_act (hstack : m.StackSound) (h : e.Entered earlier)
    (hbefore : m.Holds i generation e) (hafter : (m.act act).Holds i generation e') :
    e'.Entered (earlier ++ made i generation (m.visit? act).toList) := by
  by_cases hmade : ∃ visit, m.visit? act = some visit ∧ visit.id.Names i generation
  · obtain ⟨visit, hvisit, hid⟩ := hmade
    obtain ⟨f, hadmits⟩ := exists_admits hvisit
    obtain rfl : e = f :=
      Option.some.inj (((holds_iff_enclave? hid).mp hbefore).symm.trans hadmits.live)
    have hlive := (holds_iff_enclave? hid).mp hafter
    have honly : made i generation (m.visit? act).toList = [visit] := by
      rw [hvisit, Option.toList_some, made, List.filter_cons_of_pos (by simpa using hid),
        List.filter_nil]
    rw [honly]
    cases hresult : visit.result with
    | error fault =>
      -- a failed entry leaves nothing behind the handle
      rw [hadmits.act_of_error hresult] at hlive
      have hgone := (enclave?_teardown_self hadmits.live).symm.trans hlive
      cases hgone
    | ok exit =>
      rw [hadmits.enclave?_of_ok hresult] at hlive
      cases hlive
      exact h.concat hadmits.state_eq hresult
  · have hnone : ∀ visit, m.visit? act = some visit → ¬ visit.id.Names i generation :=
      fun visit hvisit hid => hmade ⟨visit, hvisit, hid⟩
    have hempty : made i generation (m.visit? act).toList = [] := by
      rw [made, List.filter_eq_nil_iff]
      intro visit hvisit
      simpa using hnone visit (Option.mem_toList.mp hvisit)
    rw [hempty, List.append_nil]
    rcases holds_act hstack hafter with ⟨hvacant, -⟩ | ⟨before, hthen, hremains⟩
    · rw [taken_of_holds hbefore] at hvacant
      cases hvacant
    · unfold Holds at hbefore hthen
      rw [hbefore] at hthen
      cases hthen
      obtain ⟨hexit, hstate⟩ := hremains.keeps_state hnone
      exact h.keep hexit hstate

/-! ## Whole lives -/

/-- The entry at some moment of a run, if one is made there. -/
def visitAt? (m : Monitor) (acts : List Act) (moment : Nat) : Option Visit :=
  acts[moment]?.bind (m.upTo acts moment).visit?

/-- The entries that a run makes from one moment to another. -/
def visits (m : Monitor) (acts : List Act) (first last : Nat) : List Visit :=
  (List.range' first (last - first)).flatMap fun moment => (m.visitAt? acts moment).toList

/-- In no time no entries are made. -/
theorem visits_self (m : Monitor) (acts : List Act) (first : Nat) :
    m.visits acts first first = [] := by
  rw [visits, Nat.sub_self]
  rfl

/-- One more act adds the entry that it makes. -/
theorem visits_succ (h : first ≤ last) : m.visits acts first (last + 1) =
    m.visits acts first last ++ (m.visitAt? acts last).toList := by
  have hlength : last + 1 - first = last - first + 1 := Nat.sub_add_comm h
  have hlast : first + (last - first) = last := Nat.add_sub_cancel' h
  rw [visits, visits, hlength, List.range'_1_concat, List.flatMap_append, hlast,
    List.flatMap_singleton]

/-- The entry of a moment is that of the act of the moment. -/
theorem visitAt?_eq_some_iff : m.visitAt? acts moment = some visit ↔
    ∃ act, acts[moment]? = some act ∧ (m.upTo acts moment).visit? act = some visit := by
  rw [visitAt?, Option.bind_eq_some_iff]

/-- The life that goes on in a place at some moment, from the act that began it. -/
structure LifeFrom (m : Monitor) (acts : List Act) (i first last : Nat) : Prop where
  lt : first < last
  vacant : (m.upTo acts first).taken i = false
  taken : ∀ t, first < t → t ≤ last → (m.upTo acts t).taken i = true

/-- The platform has recorded the entries of a run. -/
theorem entries_upTo (m : Monitor) (acts : List Act) (h : first ≤ last) :
    (m.upTo acts last).platform.entries =
      (m.upTo acts first).platform.entries ++ (m.visits acts first last).map Visit.record := by
  induction h with
  | refl => rw [visits_self, List.map_nil, List.append_nil]
  | @step last hle ih =>
    rw [visits_succ hle, List.map_append, ← List.append_assoc, ← ih]
    rcases Nat.lt_or_ge last acts.length with hlt | hge
    · have hact := List.getElem?_eq_getElem hlt
      rw [upTo_succ hact, entries_act, visitAt?, hact, Option.bind_some]
      cases (m.upTo acts last).visit? acts[last] <;> rfl
    · rw [upTo_of_length_le m hge, upTo_of_length_le m (Nat.le_succ_of_le hge), visitAt?,
        List.getElem?_eq_none hge]
      exact (List.append_nil _).symm

section Run

variable {config : Config} {platform : Platform} {identity : Identity}

/-- Whoever is in a place has a life there. -/
theorem exists_lifeFrom (hstart : Monitor.start config platform identity = .ok m)
    (h : (m.upTo acts last).taken i = true) : ∃ first, m.LifeFrom acts i first last := by
  induction last with
  | zero =>
    have hempty : (m.upTo acts 0).register = [] := register_start hstart
    rw [taken_eq, hempty] at h
    cases h
  | succ last ih =>
    cases hbefore : (m.upTo acts last).taken i with
    | false =>
      refine ⟨last, Nat.lt_succ_self last, hbefore, ?_⟩
      intro t hfrom hto
      obtain rfl : t = last + 1 := by omega
      exact h
    | true =>
      obtain ⟨first, hlt, hvacant, htaken⟩ := ih hbefore
      refine ⟨first, Nat.lt_succ_of_lt hlt, hvacant, ?_⟩
      intro t hfrom hto
      rcases Nat.lt_or_ge last t with hnew | hold
      · obtain rfl : t = last + 1 := by omega
        exact h
      · exact htaken t hfrom hold

/-- At every moment of a life the record tells of the entries that were made in it. -/
theorem entered_upTo (hstart : Monitor.start config platform identity = .ok m)
    (hlife : m.LifeFrom acts i first last) (hlast : (m.upTo acts last).Holds i generation e) :
    e.Entered (made i generation (m.visits acts first last)) := by
  obtain ⟨hlt, hvacant, htaken⟩ := hlife
  induction hlt generalizing generation e with
  | refl =>
    obtain ⟨act, hact, minPages, _, _, _, rfl, rfl⟩ := newborn_upTo hstart hvacant hlast
    have hvisit : m.visitAt? acts first = none := by
      rw [visitAt?, hact]
      rfl
    rw [visits_succ (Nat.le_refl first), visits_self, hvisit]
    exact .of_unentered (.inl rfl) rfl
  | @step last hlt ih =>
    have hle : first ≤ last := Nat.le_of_lt hlt
    have htaken' (t : Nat) (hfrom : first < t) (hto : t ≤ last) :
        (m.upTo acts t).taken i = true := htaken t hfrom (Nat.le_succ_of_le hto)
    obtain ⟨generation', f, hthen⟩ := exists_holds_of_taken (htaken' last hlt (Nat.le_refl last))
    have hentered := ih hthen htaken'
    rw [visits_succ hle, made_append]
    rcases Nat.lt_or_ge last acts.length with hin | hover
    · have hact := List.getElem?_eq_getElem hin
      obtain ⟨rfl, -⟩ := advances_upTo hstart hact hthen hlast
      rw [upTo_succ hact] at hlast
      rw [visitAt?, hact, Option.bind_some]
      exact entered_act (stackSound_upTo hstart acts last) hentered hthen hlast
    · rw [upTo_of_length_le m (Nat.le_succ_of_le hover), ← upTo_of_length_le m hover] at hlast
      unfold Holds at hthen hlast
      rw [hthen] at hlast
      cases hlast
      rw [visitAt?, List.getElem?_eq_none hover]
      exact (List.append_nil (made i generation (m.visits acts first last))).symm ▸ hentered

/-- The handle of an enclave that is entered names a place with a life in it. -/
theorem exists_life_of_visit (hstart : Monitor.start config platform identity = .ok m)
    (hvisit : m.visitAt? acts moment = some visit) (hid : visit.id.Names i generation) :
    ∃ act e first, acts[moment]? = some act ∧ (m.upTo acts moment).Admits act visit e ∧
      (m.upTo acts moment).Holds i generation e ∧ m.LifeFrom acts i first moment := by
  obtain ⟨act, hact, hmade⟩ := visitAt?_eq_some_iff.mp hvisit
  obtain ⟨e, hadmits⟩ := exists_admits hmade
  have hholds := (holds_iff_enclave? hid).mpr hadmits.live
  obtain ⟨first, hlife⟩ := exists_lifeFrom hstart (taken_of_holds hholds)
  exact ⟨act, e, first, hact, hadmits, hholds, hlife⟩

/-- After a failed entry the place is vacant, and the memory of the enclave is free. -/
theorem vacated_of_failure (hmemory : MemorySound config m) (h : m.Admits act visit e)
    {fault : PlatformFault} (hresult : visit.result = .error fault) :
    (m.act act).enclave? visit.id = none ∧ (m.act act).taken visit.id.index.toNat = false ∧
      ∀ r ∈ e.regions, ∀ x, r.contains x → ∃ run ∈ (m.act act).pages.free, run.contains x := by
  have hafter := h.act_of_error hresult
  have hremoved := hmemory.remove h.live
  have hperm := regions_teardown h.live
  rw [hafter]
  refine ⟨enclave?_teardown_self h.live, ?_, ?_⟩
  · show (m.teardown visit.id).taken _ = false
    have hplace := isSome_enclave?_iff.mp (by rw [h.live]; rfl : (m.enclave? visit.id).isSome)
    rw [taken_eq, register_teardown h.live,
      List.getElem?_set_self (List.getElem?_eq_some_iff.mp hplace).1]
    rfl
  · intro r hr x hx
    have hmem : r ∈ m.regions := hperm.mem_iff.mpr (List.mem_append_left _ hr)
    have hinside := (hmemory.contains_iff x).mpr (.inl ⟨r, hmem, hx⟩)
    rcases (hremoved.contains_iff x).mp hinside with ⟨s, hs, hx'⟩ | hfree
    · -- the regions that are left are apart from those that went
      have hapart := hmemory.apart.perm hperm Region.Apart.symm
      have hrs := (List.pairwise_append.mp hapart).2.2 r hr s hs
      rw [Region.contains_iff] at hx hx'
      simp only [Region.Apart] at hrs
      omega
    · exact hfree

/-- The protocol of the entries into the enclaves that live in some place during a run. -/
structure EntersInTurn (m : Monitor) (acts : List Act) (i : Nat) : Prop where
  recorded : ∀ {first last}, first ≤ last → (m.upTo acts last).platform.entries =
    (m.upTo acts first).platform.entries ++ (m.visits acts first last).map Visit.record
  answered : ∀ {moment visit}, m.visitAt? acts moment = some visit →
    visit.result = ((m.upTo acts moment).platform.enter visit.id visit.entry).1
  begins : ∀ {last}, (m.upTo acts last).taken i = true → ∃ first, m.LifeFrom acts i first last
  entered : ∀ {first last generation e}, m.LifeFrom acts i first last →
    (m.upTo acts last).Holds i generation e →
    e.Entered (made i generation (m.visits acts first last))
  /-- An entry is the first one into a finalized enclave, or follows one that yielded. -/
  admitted : ∀ {moment generation visit}, m.visitAt? acts moment = some visit →
    visit.id.Names i generation → ∃ e first, (m.upTo acts moment).Holds i generation e ∧
      m.LifeFrom acts i first moment ∧
      (visit.entry = .run ∧ e.state = .finalized ∧
          made i generation (m.visits acts first moment) = [] ∨
        visit.entry = .resume ∧ e.state = .suspended ∧
          ∃ last value, (made i generation (m.visits acts first moment)).getLast? = some last ∧
            last.result = .ok (.yielded value))
  /-- A failed entry is the end of the enclave, and leaves its memory free. -/
  failed : ∀ {moment generation visit fault}, m.visitAt? acts moment = some visit →
    visit.id.Names i generation → visit.result = .error fault →
    (m.upTo acts (moment + 1)).enclave? visit.id = none ∧
      (m.upTo acts (moment + 1)).taken i = false ∧
      ∃ e, (m.upTo acts moment).Holds i generation e ∧ ∀ r ∈ e.regions, ∀ x, r.contains x →
        ∃ run ∈ (m.upTo acts (moment + 1)).pages.free, run.contains x

/-- In every place of the table, and in every run, enclaves are entered in turn. -/
theorem enclaves_are_entered_in_turn (hstart : Monitor.start config platform identity = .ok m)
    (acts : List Act) (i : Nat) : m.EntersInTurn acts i where
  recorded hle := entries_upTo m acts hle
  answered hvisit := by
    obtain ⟨act, -, hmade⟩ := visitAt?_eq_some_iff.mp hvisit
    obtain ⟨e, hadmits⟩ := exists_admits hmade
    exact hadmits.result_eq
  begins htaken := exists_lifeFrom hstart htaken
  entered hlife hlast := entered_upTo hstart hlife hlast
  admitted hvisit hid := by
    obtain ⟨_, e, first, -, hadmits, hholds, hlife⟩ := exists_life_of_visit hstart hvisit hid
    have hentered := entered_upTo hstart hlife hholds
    refine ⟨e, first, hholds, hlife, ?_⟩
    have hstate := hadmits.state_eq
    rcases hentered.of_origin hstate with ⟨hrun, hnone⟩ | ⟨hresume, hyielded⟩
    · rw [hrun] at hstate
      exact .inl ⟨hrun, hstate, hnone⟩
    · rw [hresume] at hstate
      exact .inr ⟨hresume, hstate, hyielded⟩
  failed hvisit hid hresult := by
    obtain ⟨act, e, _, hact, hadmits, hholds, -⟩ := exists_life_of_visit hstart hvisit hid
    obtain ⟨hgone, hvacant, hfree⟩ :=
      vacated_of_failure ((MemorySound.start hstart).perform _) hadmits hresult
    rw [upTo_succ hact, ← hid.1]
    exact ⟨hgone, hvacant, e, hid.1 ▸ hholds, hfree⟩

/-- Two enclaves: one yields, exits and is not entered again, the other fails when it is resumed. -/
theorem enclaves_are_entered_in_turn_default :
    let acts : List Act := [.call (.allocate 3), .call (.allocate 3),
      .call (.finalize ⟨0, 1⟩ ⟨0x80000000, 0x80001000, 0x80002000, 0x80003000⟩),
      .call (.finalize ⟨1, 1⟩ ⟨0x80045000, 0x80046000, 0x80047000, 0x80048000⟩),
      .happening (.scriptEntry ⟨0, 1⟩ (.ok (.yielded 7))),
      .happening (.scriptEntry ⟨1, 1⟩ (.ok (.yielded 8))),
      .happening (.scriptEntry ⟨1, 1⟩ (.error (.enter "fault"))),
      .call (.run ⟨0, 1⟩), .call (.run ⟨1, 1⟩), .call (.resume ⟨0, 1⟩), .call (.resume ⟨0, 1⟩),
      .call (.resume ⟨1, 1⟩)]
    ∃ m, Monitor.start {} .initial
        ⟨⟨⟨List.replicate 32 7, rfl⟩⟩, ⟨⟨List.replicate 64 9, rfl⟩⟩⟩ = .ok m ∧
      (m.perform acts).platform.entries =
        [(⟨0, 1⟩, .run), (⟨1, 1⟩, .run), (⟨0, 1⟩, .resume), (⟨1, 1⟩, .resume)] ∧
      [⟨0, 1⟩, ⟨1, 1⟩].map (m.perform acts).state = [.ok .running, .ok .destroyed] ∧
      m.EntersInTurn acts 0 ∧ m.EntersInTurn acts 1 := by
  intro acts
  obtain ⟨m, hstart⟩ : ∃ m, Monitor.start {} .initial
    ⟨⟨⟨List.replicate 32 7, rfl⟩⟩, ⟨⟨List.replicate 64 9, rfl⟩⟩⟩ = .ok m := ⟨_, rfl⟩
  refine ⟨m, hstart, ?_, ?_, enclaves_are_entered_in_turn hstart acts 0,
    enclaves_are_entered_in_turn hstart acts 1⟩
  · cases hstart
    rfl
  · cases hstart
    rfl

end Run

end Monitor

end Enclaves

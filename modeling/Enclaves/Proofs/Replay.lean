import Enclaves.Proofs.Partition
import Enclaves.Proofs.Record
import Mathlib.Data.List.Induction

/-!
# The replay law

A history can be replayed from the log, given the digest that each peer had when the entry was made.
The law is about runs: an entry is tied to the act that made it (`Happened`), a connection event
between the two enclaves that went through, and the peer's digest and reference are read off the
peer's record just before that act.

The induction is on the run, one act at a time at its end, and its hypothesis is for all handles at
once. What an entry says of a peer is carried along for as long as the peer lives (`Bears`) and
for good once it is gone, since the act lies in the past.

The law pins an entry by the log before and after its act. Under a handle that never stops reaching
an enclave (`LivesFrom`) this is one enclave, so that the reuse of a slot, and of a handle after the
generations have gone round, does not come into it.
-/

namespace Enclaves

/-- A connection event in the life of an enclave: the act of the run, the entry made, and the
measurement of the peer. -/
structure Meeting where
  moment : Nat
  entry : PeerDescriptor
  digest : Digest

/-- What a history absorbs at a meeting. -/
def Meeting.absorbed (meeting : Meeting) : Event × Digest := (meeting.entry.event, meeting.digest)

/-- What stands at a place of a list with one item more. -/
theorem getElem?_concat_cases {α : Type} {items : List α} {last a : α} {k : Nat}
    (h : (items ++ [last])[k]? = some a) :
    k < items.length ∧ items[k]? = some a ∨ k = items.length ∧ a = last := by
  have hlt := (List.getElem?_eq_some_iff.mp h).1
  rw [List.length_append, List.length_singleton] at hlt
  rcases Nat.lt_or_ge k items.length with hold | hnew
  · rw [List.getElem?_append_left hold] at h
    exact .inl ⟨hold, h⟩
  · obtain rfl : k = items.length := by omega
    rw [List.getElem?_concat_length] at h
    exact .inr ⟨rfl, (Option.some.inj h).symm⟩

/-! ## Records -/

/-- A record whose log and history tell of some meetings. -/
structure Enclave.Recounts (e : Enclave) (meetings : List Meeting) : Prop where
  entries_eq : e.log.entries = meetings.map Meeting.entry
  unmeasured : e.state = .allocated → e.digest = none ∧ meetings = []
  measured : e.state ≠ .allocated → ∃ digest, e.digest = some digest ∧
    e.history = some (replayHistory digest (meetings.map Meeting.absorbed))

namespace Enclave

variable {e e' : Enclave} {meetings : List Meeting}

/-- A new record has nothing to recount. -/
theorem Fresh.recounts (h : e.Fresh) : e.Recounts [] :=
  ⟨h.entries_eq, fun _ => ⟨h.digest_eq, rfl⟩, fun hne => absurd h.state_eq hne⟩

/-- No update of a record adds to what it recounts. -/
theorem Recounts.update (h : e.Recounts meetings) (hupdate : e.Update e') :
    e'.Recounts meetings := by
  cases hupdate with
  | setReference _ hstate => exact ⟨h.entries_eq, h.unmeasured, h.measured⟩
  | load _ _ hstate => exact ⟨h.entries_eq, h.unmeasured, h.measured⟩
  | finalize _ digest hstate =>
    obtain ⟨-, rfl⟩ := h.unmeasured hstate
    exact ⟨h.entries_eq, fun hstate' => (by cases hstate'), fun _ => ⟨digest, rfl, rfl⟩⟩
  | exit _ hstate =>
    have hne : e.state ≠ .allocated := fun h => by simp [h] at hstate
    exact ⟨h.entries_eq, fun hstate' => (by cases hstate'), fun _ => h.measured hne⟩
  | yield _ hstate =>
    have hne : e.state ≠ .allocated := fun h => by simp [h] at hstate
    exact ⟨h.entries_eq, fun hstate' => (by cases hstate'), fun _ => h.measured hne⟩
  | setDestroyOnRelease _ => exact ⟨h.entries_eq, h.unmeasured, h.measured⟩
  | writeUntrusted _ _ _ _ => exact ⟨h.entries_eq, h.unmeasured, h.measured⟩

/-- A record that is carried on recounts what it did. -/
theorem Recounts.carried (h : e.Recounts meetings) (hcarried : e.Carried e') :
    e'.Recounts meetings := by
  cases hcarried with
  | same => exact h
  | update hupdate => exact h.update hupdate
  | unlink gone => exact ⟨h.entries_eq, h.unmeasured, h.measured⟩

/-- After a meeting the record tells of one meeting more. -/
theorem Recounts.meet (h : e.Recounts meetings) {event : Event} {side peer : Side}
    (hfit : e.Fit event peer.id side.digest side.connector peer.entry.reference)
    (hevent : side.entry.event = event) (moment : Nat) :
    (e.meet event side peer).Recounts (meetings ++ [⟨moment, side.entry, peer.digest⟩]) := by
  refine ⟨?_, fun hstate => absurd hstate hfit.state_ne, fun _ => ?_⟩
  · rw [List.map_append, ← h.entries_eq]
    rfl
  · obtain ⟨digest, hdigest, hhistory⟩ := h.measured hfit.state_ne
    refine ⟨digest, hdigest, ?_⟩
    show some (extendHistory (e.history.getD side.digest) peer.digest event) = _
    rw [hhistory, List.map_append, replayHistory_append, ← hevent]
    rfl

end Enclave

namespace Monitor

variable {m : Monitor} {acts before : List Act} {act : Act} {id other : EnclaveId} {moment : Nat}

/-! ## Runs and their moments -/

/-- The monitor in a run, before the act in some place. -/
def upTo (m : Monitor) (acts : List Act) (moment : Nat) : Monitor := m.perform (acts.take moment)

/-- At its length a run is over. -/
theorem upTo_length (m : Monitor) (acts : List Act) : m.upTo acts acts.length = m.perform acts := by
  rw [upTo, List.take_length]

/-- A later act changes no earlier moment. -/
theorem upTo_concat (h : moment ≤ before.length) :
    m.upTo (before ++ [act]) moment = m.upTo before moment := by
  rw [upTo, upTo, List.take_append_of_le_length h]

/-- The last act is done last. -/
theorem perform_concat (m : Monitor) (before : List Act) (act : Act) :
    m.perform (before ++ [act]) = (m.perform before).act act := by
  rw [perform_append]
  rfl

/-- At the moment of the last act all others are done. -/
theorem upTo_last (m : Monitor) (before : List Act) (act : Act) :
    m.upTo (before ++ [act]) before.length = m.perform before := by
  rw [upTo_concat (Nat.le_refl _), upTo_length]

/-- Behind the last act the run is over. -/
theorem upTo_end (m : Monitor) (before : List Act) (act : Act) :
    m.upTo (before ++ [act]) (before.length + 1) = (m.perform before).act act := by
  rw [← perform_concat, ← upTo_length, List.length_append, List.length_singleton]

/-- From some moment to the end of a run a handle reaches an enclave. -/
def LivesFrom (m : Monitor) (acts : List Act) (id : EnclaveId) (moment : Nat) : Prop :=
  ∀ t, moment ≤ t → t ≤ acts.length → ((m.upTo acts t).enclave? id).isSome = true

/-- An enclave lives through one more act if it lives before and after it. -/
theorem livesFrom_concat_iff (h : moment ≤ before.length) :
    m.LivesFrom (before ++ [act]) id moment ↔
      m.LivesFrom before id moment ∧ (((m.perform before).act act).enclave? id).isSome = true := by
  constructor
  · intro hlives
    refine ⟨?_, ?_⟩
    · intro t hfrom hto
      rw [← @upTo_concat m before act t hto]
      exact hlives t hfrom (by rw [List.length_append]; omega)
    · rw [← upTo_end]
      exact hlives _ (by omega) (by simp)
  · rintro ⟨hlives, hlast⟩ t hfrom hto
    rw [List.length_append, List.length_singleton] at hto
    rcases Nat.lt_or_ge before.length t with hlt | hge
    · obtain rfl : t = before.length + 1 := by omega
      rwa [upTo_end]
    · rw [upTo_concat hge]
      exact hlives t hfrom hge

/-! ## What happened -/

/-- A meeting of an enclave, as it happened in a run: an act that went through between the enclave,
with the log it had by then, and its peer, with the digest and the reference that it had. -/
structure Happened (m : Monitor) (acts : List Act) (id : EnclaveId)
    (earlier : List PeerDescriptor) (meeting : Meeting) : Prop where
  act : ∃ act, acts[meeting.moment]? = some act ∧
    (m.upTo acts meeting.moment).Meets act meeting.entry.event id meeting.entry.peer
  log_before : (m.upTo acts meeting.moment).connectionLog id = .ok earlier
  log_after : (m.upTo acts (meeting.moment + 1)).connectionLog id = .ok (earlier ++ [meeting.entry])
  /-- It is the same enclave that is there at the end. -/
  lives : m.LivesFrom acts id meeting.moment
  peer_before : ∃ f, (m.upTo acts meeting.moment).enclave? meeting.entry.peer = some f ∧
    f.Bears meeting.digest meeting.entry.reference
  /-- What was said of the peer is still so, if the peer is still there. -/
  peer_now : m.LivesFrom acts meeting.entry.peer meeting.moment →
    ∃ f, (m.perform acts).enclave? meeting.entry.peer = some f ∧
      f.Bears meeting.digest meeting.entry.reference

/-- All meetings of an enclave in a run, in the order in which they happened. -/
structure Account (m : Monitor) (acts : List Act) (id : EnclaveId) (meetings : List Meeting) :
    Prop where
  ordered : meetings.Pairwise (·.moment < ·.moment)
  happened : ∀ k meeting, meetings[k]? = some meeting →
    m.Happened acts id ((meetings.take k).map Meeting.entry) meeting
  complete : ∀ moment act event peer, m.LivesFrom acts id moment → acts[moment]? = some act →
    (m.upTo acts moment).Meets act event id peer → ∃ meeting ∈ meetings, meeting.moment = moment

/-- The log of a live enclave is told. -/
theorem connectionLog_of_live {e : Enclave} (h : m.enclave? id = some e) :
    m.connectionLog id = .ok e.log.entries := by
  rw [connectionLog, lookup_eq_ok_iff.mpr h]
  rfl

/-- What happened did so before the run was over. -/
theorem Happened.moment_lt {earlier : List PeerDescriptor} {meeting : Meeting}
    (h : m.Happened acts id earlier meeting) : meeting.moment < acts.length := by
  obtain ⟨act, hact, -⟩ := h.act
  exact (List.getElem?_eq_some_iff.mp hact).1

/-- A meeting is part of a longer run in which its enclave still lives. -/
theorem Happened.concat {earlier : List PeerDescriptor} {meeting : Meeting}
    (h : m.Happened before id earlier meeting) (hstack : (m.perform before).StackSound)
    (hlive : (((m.perform before).act act).enclave? id).isSome = true) :
    m.Happened (before ++ [act]) id earlier meeting := by
  have hlt := h.moment_lt
  have hle := Nat.le_of_lt hlt
  refine ⟨?_, ?_, ?_, ?_, ?_, ?_⟩
  · rw [List.getElem?_append_left hlt, upTo_concat hle]
    exact h.act
  · rw [upTo_concat hle]
    exact h.log_before
  · rw [upTo_concat hlt]
    exact h.log_after
  · exact (livesFrom_concat_iff hle).mpr ⟨h.lives, hlive⟩
  · rw [upTo_concat hle]
    exact h.peer_before
  · intro hlives
    obtain ⟨hpeer, hlast⟩ := (livesFrom_concat_iff hle).mp hlives
    obtain ⟨f, hbefore, hbears⟩ := h.peer_now hpeer
    obtain ⟨f', hafter⟩ := Option.isSome_iff_exists.mp hlast
    rw [perform_concat]
    exact ⟨f', hafter, bears_of_effect hstack (effect_act _ act) hbefore hbears hafter⟩

/-- The last act of a run, if it was a meeting. -/
theorem Partner.happened (hstack : (m.perform before).StackSound) {event : Event}
    {side peer : Side} {e f : Enclave} (hside : (m.perform before).Partner event side e peer)
    (hpeer : (m.perform before).Partner event peer f side)
    (hmeets : (m.perform before).Meets act event side.id peer.id)
    (hafter : ((m.perform before).act act).enclave? side.id = some (e.meet event side peer)) :
    m.Happened (before ++ [act]) side.id e.log.entries
      ⟨before.length, side.entry, peer.digest⟩ := by
  have hlive : (((m.perform before).act act).enclave? side.id).isSome = true := by
    rw [hafter]
    rfl
  refine ⟨⟨act, List.getElem?_concat_length, ?_⟩, ?_, ?_, ?_, ?_, ?_⟩
  · rw [upTo_last, hside.entry_event, hside.entry_peer]
    exact hmeets
  · rw [upTo_last, connectionLog_of_live hside.live]
  · rw [upTo_end, connectionLog_of_live hafter]
    rfl
  · refine (livesFrom_concat_iff (Nat.le_refl _)).mpr ⟨fun t hfrom hto => ?_, hlive⟩
    obtain rfl := Nat.le_antisymm hto hfrom
    rw [upTo_length, hside.live]
    rfl
  · rw [upTo_last, hside.entry_peer]
    exact ⟨f, hpeer.live, hpeer.fit.bears⟩
  · intro hlives
    have hlast := ((livesFrom_concat_iff (Nat.le_refl _)).mp hlives).2
    obtain ⟨f', hpeer'⟩ := Option.isSome_iff_exists.mp hlast
    rw [perform_concat]
    refine ⟨f', hpeer', bears_of_effect hstack (effect_act _ act) ?_ hpeer.fit.bears hpeer'⟩
    rw [hside.entry_peer]
    exact hpeer.live

/-- A new enclave has met nobody. -/
theorem Account.born (h : (m.perform before).enclave? id = none) :
    m.Account (before ++ [act]) id [] := by
  refine ⟨.nil, fun k meeting hmeeting => (by cases hmeeting), ?_⟩
  intro moment act' event peer hlives hact hmeets
  have hlt := (List.getElem?_eq_some_iff.mp hact).1
  rw [List.length_append, List.length_singleton] at hlt
  have hthen := hlives before.length (by omega) (by simp)
  rw [upTo_last, h] at hthen
  cases hthen

/-- Nothing that an account tells is lost by one act more. -/
theorem Account.exists_of_earlier {meetings : List Meeting} (h : m.Account before id meetings)
    {act' : Act} {event : Event} {peer : EnclaveId} (hlt : moment < before.length)
    (hlives : m.LivesFrom (before ++ [act]) id moment) (hact : before[moment]? = some act')
    (hmeets : (m.upTo (before ++ [act]) moment).Meets act' event id peer) :
    ∃ meeting ∈ meetings, meeting.moment = moment := by
  rw [upTo_concat (Nat.le_of_lt hlt)] at hmeets
  exact h.complete moment act' event peer
    ((livesFrom_concat_iff (Nat.le_of_lt hlt)).mp hlives).1 hact hmeets

/-- An act without an entry leaves the account as it is. -/
theorem Account.carried {meetings : List Meeting} (h : m.Account before id meetings)
    (hstack : (m.perform before).StackSound) {e e' : Enclave}
    (hbefore : (m.perform before).enclave? id = some e)
    (hafter : ((m.perform before).act act).enclave? id = some e') (hcarried : e.Carried e') :
    m.Account (before ++ [act]) id meetings := by
  have hlive : (((m.perform before).act act).enclave? id).isSome = true := by
    rw [hafter]
    rfl
  refine ⟨h.ordered, ?_, ?_⟩
  · intro k meeting hmeeting
    exact (h.happened k meeting hmeeting).concat hstack hlive
  · intro moment act' event peer hlives hact hmeets
    rcases getElem?_concat_cases hact with ⟨hlt, hold⟩ | ⟨rfl, rfl⟩
    · exact h.exists_of_earlier hlt hlives hold hmeets
    · -- the last act would have made an entry
      rw [upTo_last] at hmeets
      obtain ⟨f, f', entry, hf, hf', hentries⟩ := hmeets.entries
      obtain rfl := Option.some.inj (hf.symm.trans hbefore)
      obtain rfl := Option.some.inj (hf'.symm.trans hafter)
      rw [hcarried.log_eq] at hentries
      have hlength := congrArg List.length hentries
      simp at hlength

/-- A meeting is one more in the account. -/
theorem Account.met {meetings : List Meeting} (h : m.Account before id meetings)
    (hstack : (m.perform before).StackSound) {meeting : Meeting}
    (hmoment : meeting.moment = before.length)
    (hnew : m.Happened (before ++ [act]) id (meetings.map Meeting.entry) meeting)
    (hlive : (((m.perform before).act act).enclave? id).isSome = true) :
    m.Account (before ++ [act]) id (meetings ++ [meeting]) := by
  refine ⟨?_, ?_, ?_⟩
  · refine List.pairwise_append.mpr ⟨h.ordered, List.pairwise_singleton _ _, ?_⟩
    intro earlier hmem last hlast
    obtain ⟨k, hk⟩ := List.getElem?_of_mem hmem
    rw [List.mem_singleton.mp hlast, hmoment]
    exact (h.happened k earlier hk).moment_lt
  · intro k other hother
    rcases getElem?_concat_cases hother with ⟨hlt, hold⟩ | ⟨rfl, rfl⟩
    · rw [List.take_append_of_le_length (Nat.le_of_lt hlt)]
      exact (h.happened k other hold).concat hstack hlive
    · rw [List.take_left]
      exact hnew
  · intro moment act' event peer hlives hact hmeets
    rcases getElem?_concat_cases hact with ⟨hlt, hold⟩ | ⟨rfl, -⟩
    · obtain ⟨earlier, hmem, hearlier⟩ := h.exists_of_earlier hlt hlives hold hmeets
      exact ⟨earlier, List.mem_append_left _ hmem, hearlier⟩
    · exact ⟨meeting, List.mem_append_right _ (List.mem_singleton_self _), hmoment⟩

/-! ## The law -/

/-- Every record of a run tells of the meetings that its enclave had. -/
theorem MemorySound.exists_account {config : Config} (h : MemorySound config m)
    (hempty : ∀ id, m.enclave? id = none) (acts : List Act) {e : Enclave}
    (hlive : (m.perform acts).enclave? id = some e) :
    ∃ meetings, e.Recounts meetings ∧ m.Account acts id meetings := by
  induction acts using List.reverseRecOn generalizing id e with
  | nil =>
    rw [perform_nil, hempty] at hlive
    cases hlive
  | append_singleton before act ih =>
    have hstack := (h.perform before).stack
    rw [perform_concat] at hlive
    cases follows_of_effect hstack (effect_act _ act) hlive with
    | born hnone hfresh => exact ⟨[], hfresh.recounts, .born hnone⟩
    | carried hbefore hcarried =>
      obtain ⟨meetings, hrecounts, haccount⟩ := ih hbefore
      exact ⟨meetings, hrecounts.carried hcarried,
        haccount.carried hstack hbefore hlive hcarried⟩
    | met hid hside hpeer hmeets =>
      subst hid
      obtain ⟨meetings, hrecounts, haccount⟩ := ih hside.live
      have hnew := hside.happened hstack hpeer hmeets hlive
      rw [hrecounts.entries_eq] at hnew
      refine ⟨_, hrecounts.meet hside.fit hside.entry_event before.length,
        haccount.met hstack rfl hnew ?_⟩
      rw [hlive]
      rfl

/-- At the start no handle reaches anything. -/
theorem enclave?_start {config : Config} {platform : Platform} {identity : Identity}
    (h : Monitor.start config platform identity = .ok m) (id : EnclaveId) :
    m.enclave? id = none := by
  unfold Monitor.start at h
  split at h
  · cases h
  · cases h
    rfl

/-- A measurement is told if the enclave lives and has one. -/
theorem measurement_eq_ok_iff {digest : Digest} :
    m.measurement id = .ok digest ↔ ∃ e, m.enclave? id = some e ∧ e.digest = some digest := by
  unfold measurement
  constructor
  · intro h
    split at h
    · cases h
    rename_i e hlookup
    split at h
    · rename_i hdigest
      cases h
      exact ⟨e, lookup_eq_ok_iff.mp hlookup, hdigest⟩
    · cases h
  · rintro ⟨e, hlive, hdigest⟩
    simp [lookup_eq_ok_iff.mpr hlive, hdigest]

/-- The replay law. After any run, the history of a measured enclave is its measurement, extended by
the events of its log in order, each with the digest that the peer named by the entry had when the
event happened. -/
theorem history_replays {config : Config} {platform : Platform} {identity : Identity}
    (hstart : Monitor.start config platform identity = .ok m) (acts : List Act) (id : EnclaveId)
    {digest : Digest} (hmeasured : (m.perform acts).measurement id = .ok digest) :
    ∃ meetings : List Meeting,
      (m.perform acts).connectionLog id = .ok (meetings.map Meeting.entry) ∧
      (m.perform acts).history id =
        .ok (replayHistory digest (meetings.map Meeting.absorbed)) ∧
      m.Account acts id meetings := by
  obtain ⟨e, hlive, hdigest⟩ := measurement_eq_ok_iff.mp hmeasured
  obtain ⟨meetings, hrecounts, haccount⟩ :=
    (MemorySound.start hstart).exists_account (enclave?_start hstart) acts hlive
  have hstate : e.state ≠ .allocated := fun hstate => by
    rw [(hrecounts.unmeasured hstate).1] at hdigest
    cases hdigest
  obtain ⟨_, hdigest', hhistory⟩ := hrecounts.measured hstate
  obtain rfl := Option.some.inj (hdigest'.symm.trans hdigest)
  refine ⟨meetings, ?_, ?_, haccount⟩
  · rw [connectionLog_of_live hlive, hrecounts.entries_eq]
  · simp [history, lookup_eq_ok_iff.mpr hlive, hhistory]

/-- Two enclaves that are connected, and disconnected with the second one named first. -/
theorem history_replays_default :
    let acts : List Act := [.call (.allocate 3), .call (.allocate 3),
      .call (.setReference ⟨0, 1⟩ "a"), .call (.setReference ⟨1, 1⟩ "b"),
      .call (.finalize ⟨0, 1⟩ ⟨0x80000000, 0x80001000, 0x80002000, 0x80003000⟩),
      .call (.finalize ⟨1, 1⟩ ⟨0x80045000, 0x80046000, 0x80047000, 0x80048000⟩),
      .call (.connect ⟨0, 1⟩ ⟨1, 1⟩), .call (.disconnect ⟨1, 1⟩ ⟨0, 1⟩)]
    ∃ m digest, Monitor.start {} .initial
        ⟨⟨⟨List.replicate 32 7, rfl⟩⟩, ⟨⟨List.replicate 64 9, rfl⟩⟩⟩ = .ok m ∧
      (m.perform acts).measurement ⟨0, 1⟩ = .ok digest ∧
      ∃ meetings : List Meeting, meetings.length = 2 ∧
        (m.perform acts).history ⟨0, 1⟩ =
          .ok (replayHistory digest (meetings.map Meeting.absorbed)) ∧
        m.Account acts ⟨0, 1⟩ meetings := by
  intro acts
  obtain ⟨m, hstart⟩ : ∃ m, Monitor.start {} .initial
    ⟨⟨⟨List.replicate 32 7, rfl⟩⟩, ⟨⟨List.replicate 64 9, rfl⟩⟩⟩ = .ok m := ⟨_, rfl⟩
  have hrun : ∃ digest, (m.perform acts).measurement ⟨0, 1⟩ = .ok digest ∧
      ((m.perform acts).connectionLog ⟨0, 1⟩).map List.length = .ok 2 := by
    cases hstart
    exact ⟨_, rfl, rfl⟩
  obtain ⟨digest, hmeasured, htwo⟩ := hrun
  obtain ⟨meetings, hlog, hhistory, haccount⟩ := history_replays hstart acts ⟨0, 1⟩ hmeasured
  refine ⟨m, digest, hstart, hmeasured, meetings, ?_, hhistory, haccount⟩
  rw [hlog, Except.map, List.length_map] at htwo
  exact Except.ok.inj htwo

end Monitor

end Enclaves

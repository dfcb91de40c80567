import Enclaves.Proofs.Issuing
import Enclaves.Proofs.Links

/-!
# Two logs tell one story

What an enclave's log says of a peer, and what its links say. A log is only ever added to, so it
also tells of peers that are gone; links are dropped when a peer goes, which leaves no entry.
`standing` is the list of the peers to which a log says that there is a connection, and the links
are those of them that are still there, in the same order.

For this it must not happen that a handle is given out again, or a new enclave would find itself in
old logs (`Unrepeated`). How long a run is and what the platform has mapped does not matter.

`Story` is the invariant, in the words of handles (`linksOf`, `logOf`, `reaches`): an act in which
nobody meets and nobody goes adds nothing to it (`Story.grow`), and there remain the teardown
(`Story.remove`) and the meeting (`Story.meet`).
-/

namespace Enclaves

/-! ## Logs -/

/-- The events that a log has with a peer. -/
def eventsWith (peer : EnclaveId) (entries : List PeerDescriptor) : List Event :=
  (entries.filter (·.peer = peer)).map PeerDescriptor.event

/-- Connections and disconnections in turn, a connection first. -/
def Alternates (events : List Event) : Prop :=
  ∀ k event, events[k]? = some event → event = if k % 2 = 0 then .connect else .disconnect

/-- The peers to which a log says that there is a connection, in the order of the entries that say
so: a connection stands unless the peer is named again. -/
def standing : List PeerDescriptor → List EnclaveId
  | [] => []
  | entry :: rest =>
    if entry.event = .connect ∧ ∀ later ∈ rest, later.peer ≠ entry.peer then
      entry.peer :: standing rest
    else standing rest

section Logs

variable {entries : List PeerDescriptor} {entry : PeerDescriptor} {peer : EnclaveId}
  {events : List Event} {event : Event}

/-- The events with a peer, in two parts of a log. -/
theorem eventsWith_append (peer : EnclaveId) (entries more : List PeerDescriptor) :
    eventsWith peer (entries ++ more) = eventsWith peer entries ++ eventsWith peer more := by
  rw [eventsWith, List.filter_append, List.map_append, eventsWith, eventsWith]

theorem eventsWith_singleton (peer : EnclaveId) (entry : PeerDescriptor) :
    eventsWith peer [entry] = if entry.peer = peer then [entry.event] else [] := by
  by_cases hpeer : entry.peer = peer <;> simp [eventsWith, hpeer]

/-- A log without a peer has no events with it. -/
theorem eventsWith_eq_nil (h : ∀ entry ∈ entries, entry.peer ≠ peer) :
    eventsWith peer entries = [] := by
  rw [eventsWith, List.map_eq_nil_iff, List.filter_eq_nil_iff]
  simpa using h

theorem Alternates.nil : Alternates [] := by
  intro k event hget
  cases hget

/-- The event that is due goes on with it. -/
theorem Alternates.concat (h : Alternates events)
    (hdue : events.getLast? = some .connect ↔ event = .disconnect) :
    Alternates (events ++ [event]) := by
  intro k next hnext
  rcases getElem?_concat_cases hnext with ⟨-, hold⟩ | ⟨rfl, rfl⟩
  · exact h k next hold
  rw [List.getLast?_eq_getElem?] at hdue
  cases hlength : events.length with
  | zero =>
    rw [List.length_eq_zero_iff.mp hlength] at hdue
    cases next with
    | connect => rfl
    | disconnect => cases hdue.mpr rfl
  | succ n =>
    have hlt : n < events.length := hlength ▸ Nat.lt_succ_self n
    have hget := List.getElem?_eq_getElem hlt
    have hlast := h n _ hget
    rw [hlength, Nat.add_sub_cancel, hget, hlast, Option.some.injEq] at hdue
    rcases Nat.mod_two_eq_zero_or_one n with heven | hodd
    · have hnext : (n + 1) % 2 ≠ 0 := by omega
      rw [if_pos heven] at hdue
      rw [if_neg hnext]
      exact hdue.mp rfl
    · have hnext : (n + 1) % 2 = 0 := by omega
      rw [if_neg (by omega)] at hdue
      rw [if_pos hnext]
      cases next with
      | connect => rfl
      | disconnect => cases hdue.mpr rfl

/-- The last entry puts its peer on the list, or takes it off. -/
theorem standing_concat (entries : List PeerDescriptor) (entry : PeerDescriptor) :
    standing (entries ++ [entry]) = (standing entries).filter (· ≠ entry.peer) ++
      if entry.event = .connect then [entry.peer] else [] := by
  induction entries with
  | nil => simp [standing]
  | cons first rest ih =>
    rw [List.cons_append, standing, standing, ih]
    by_cases hstands : first.event = .connect ∧ ∀ later ∈ rest, later.peer ≠ first.peer
    · rw [if_pos hstands]
      by_cases hagain : entry.peer = first.peer
      · rw [if_neg (by simp [hagain]), List.filter_cons_of_neg (by simp [hagain])]
      · rw [List.filter_cons_of_pos (by simpa using Ne.symm hagain), List.cons_append, if_pos]
        refine ⟨hstands.1, ?_⟩
        intro later hlater
        rcases List.mem_append.mp hlater with hold | hnew
        · exact hstands.2 later hold
        · rwa [List.mem_singleton.mp hnew]
    · rw [if_neg hstands, if_neg]
      rintro ⟨hconnect, hlater⟩
      exact hstands ⟨hconnect, fun later hmem => hlater later (List.mem_append_left _ hmem)⟩

/-- Nobody is on the list twice. -/
theorem nodup_standing (entries : List PeerDescriptor) : (standing entries).Nodup := by
  induction entries using List.reverseRecOn with
  | nil => exact .nil
  | append_singleton entries entry ih =>
    rw [standing_concat]
    split
    · rw [List.nodup_append]
      refine ⟨ih.filter _, List.pairwise_singleton _ _, ?_⟩
      rintro peer hpeer _ hsame rfl
      rw [List.mem_singleton.mp hsame] at hpeer
      simp at hpeer
    · rw [List.append_nil]
      exact ih.filter _

/-- A connection to a peer stands if it is the last that the log has with it. -/
theorem mem_standing_iff :
    peer ∈ standing entries ↔ (eventsWith peer entries).getLast? = some .connect := by
  induction entries using List.reverseRecOn with
  | nil => simp [standing, eventsWith]
  | append_singleton entries entry ih =>
    rw [standing_concat, eventsWith_append, eventsWith_singleton, List.mem_append, List.mem_filter]
    by_cases hpeer : entry.peer = peer
    · rw [if_pos hpeer, List.getLast?_concat]
      cases hevent : entry.event <;> simp [hpeer]
    · rw [if_neg hpeer, List.append_nil, ← ih]
      cases hevent : entry.event <;> simp [Ne.symm hpeer]

/-- Whoever is on the list is in the log. -/
theorem exists_entry_of_mem_standing (h : peer ∈ standing entries) :
    ∃ entry ∈ entries, entry.peer = peer := by
  by_contra hnone
  have hunnamed : ∀ entry ∈ entries, entry.peer ≠ peer := fun entry hmem heq =>
    hnone ⟨entry, hmem, heq⟩
  rw [mem_standing_iff, eventsWith_eq_nil hunnamed] at h
  cases h

end Logs

namespace Monitor

variable {m m' : Monitor} {act : Act} {id other a b : EnclaveId} {e f eA eB : Enclave}
  {event : Event} {side peer sideA sideB : Side}

/-! ## Logs by handle -/

/-- The log of the enclave that a handle reaches. -/
def logOf (m : Monitor) (id : EnclaveId) : List PeerDescriptor :=
  (m.enclave? id).elim [] (·.log.entries)

/-- Whether a handle reaches an enclave. -/
def reaches (m : Monitor) (id : EnclaveId) : Bool := (m.enclave? id).isSome

theorem logOf_of_live (h : m.enclave? id = some e) : m.logOf id = e.log.entries := by
  rw [logOf, h, Option.elim_some]

theorem logOf_of_gone (h : m.enclave? id = none) : m.logOf id = [] := by
  rw [logOf, h, Option.elim_none]

theorem reaches_of_live (h : m.enclave? id = some e) : m.reaches id = true := by
  rw [reaches, h, Option.isSome_some]

/-- Writing a record back replaces one log. -/
theorem logOf_put (h : m.enclave? id = some e) (f : Enclave) (other : EnclaveId) :
    (m.put id f).logOf other = if other = id then f.log.entries else m.logOf other :=
  elim_enclave?_put h f [] (·.log.entries) other

/-- Whoever lived lives on when a record is written back. -/
theorem reaches_put (h : m.enclave? id = some e) (f : Enclave) (other : EnclaveId) :
    (m.put id f).reaches other = m.reaches other := by
  rw [reaches, enclave?_put h]
  split
  · rename_i hid
    rw [hid, reaches_of_live h]
    rfl
  · rfl

/-- A new enclave has an empty log. -/
theorem logOf_settle (hstack : m.StackSound) (h : e.log.entries = []) (id : EnclaveId) :
    (m.settle e).2.logOf id = m.logOf id :=
  elim_enclave?_settle hstack h id

/-- With an enclave its log goes. -/
theorem logOf_teardown (h : m.enclave? id = some e) (other : EnclaveId) :
    (m.teardown id).logOf other = if other = id then [] else m.logOf other := by
  rw [logOf, enclave?_teardown h, logOf]
  split
  · rfl
  · cases m.enclave? other <;> rfl

/-- After a teardown one handle reaches nothing. -/
theorem reaches_teardown (h : m.enclave? id = some e) (other : EnclaveId) :
    (m.teardown id).reaches other = (m.reaches other && decide (other ≠ id)) := by
  rw [reaches, enclave?_teardown h, reaches]
  split
  · rename_i hid
    simp [hid]
  · rename_i hid
    cases m.enclave? other <;> simp [hid]

/-- The entries that a meeting makes. -/
def newEntries (sideA sideB : Side) (id : EnclaveId) : List PeerDescriptor :=
  if id = sideA.id then [sideA.entry] else if id = sideB.id then [sideB.entry] else []

/-- An event adds one entry to either log. -/
theorem logOf_meet (hne : sideA.id ≠ sideB.id) (hA : m.Partner event sideA eA sideB)
    (hB : m.Partner event sideB eB sideA) (id : EnclaveId) :
    (m.meet event sideA sideB eA eB).logOf id = m.logOf id ++ newEntries sideA sideB id := by
  rw [logOf, enclave?_meet hne hA hB, newEntries]
  split
  · rename_i hid
    rw [hid, logOf_of_live hA.live]
    rfl
  split
  · rename_i hid
    rw [hid, logOf_of_live hB.live]
    rfl
  · rw [List.append_nil]
    rfl

/-- An event ends nobody. -/
theorem reaches_meet (hne : sideA.id ≠ sideB.id) (hA : m.Partner event sideA eA sideB)
    (hB : m.Partner event sideB eB sideA) (id : EnclaveId) :
    (m.meet event sideA sideB eA eB).reaches id = m.reaches id := by
  rw [reaches, enclave?_meet hne hA hB]
  split
  · rename_i hid
    rw [hid, reaches_of_live hA.live]
    rfl
  split
  · rename_i hid
    rw [hid, reaches_of_live hB.live]
    rfl
  · rfl

/-- Either side writes the same of the other. -/
theorem eventsWith_newEntries (hne : sideA.id ≠ sideB.id) (hA : m.Partner event sideA eA sideB)
    (hB : m.Partner event sideB eB sideA) (a b : EnclaveId) :
    eventsWith b (newEntries sideA sideB a) = eventsWith a (newEntries sideA sideB b) := by
  have hentry {id peer : EnclaveId} : eventsWith peer (newEntries sideA sideB id) =
      if id = sideA.id ∧ peer = sideB.id ∨ id = sideB.id ∧ peer = sideA.id then [event]
      else [] := by
    by_cases hidA : id = sideA.id
    · subst hidA
      simp [newEntries, eventsWith_singleton, hA.entry_peer, hA.entry_event, hne, eq_comm]
    · by_cases hidB : id = sideB.id
      · subst hidB
        simp [newEntries, eventsWith_singleton, hB.entry_peer, hB.entry_event, hne.symm, eq_comm]
      · simp [newEntries, eventsWith, hidA, hidB]
  rw [hentry, hentry]
  simp only [and_comm, or_comm]

/-! ## The invariant -/

/-- Logs and links tell the same, and so do the two logs of any two enclaves. -/
structure Story (m : Monitor) : Prop where
  peers_eq : ∀ id, (m.linksOf id).map Link.peer = (standing (m.logOf id)).filter m.reaches
  alternates : ∀ id peer, Alternates (eventsWith peer (m.logOf id))
  mirrored : ∀ a b, m.reaches a = true → m.reaches b = true →
    eventsWith b (m.logOf a) = eventsWith a (m.logOf b)

namespace Story

/-- At the start there are no logs and nothing to tell. -/
theorem start {config : Config} {platform : Platform} {identity : Identity}
    (hstart : Monitor.start config platform identity = .ok m) : m.Story := by
  have hempty := enclave?_start hstart
  refine ⟨?_, ?_, ?_⟩
  · intro id
    rw [linksOf_of_gone (hempty id), logOf_of_gone (hempty id)]
    rfl
  · intro id peer
    rw [logOf_of_gone (hempty id)]
    exact .nil
  · intro a b ha
    rw [reaches, hempty] at ha
    cases ha

/-- Links and logs are as they were, and at most there is someone new, whom no log names. -/
theorem grow (h : m.Story) (hlinks : ∀ id, m'.linksOf id = m.linksOf id)
    (hlogs : ∀ id, m'.logOf id = m.logOf id)
    (hreaches : ∀ id, m.reaches id = true → m'.reaches id = true)
    (hunnamed : ∀ id, m.reaches id = false → m'.reaches id = true →
      ∀ other, ∀ entry ∈ m.logOf other, entry.peer ≠ id) : m'.Story := by
  have hsame {id other : EnclaveId} {entry : PeerDescriptor} (hmem : entry ∈ m.logOf other)
      (hpeer : entry.peer = id) : m'.reaches id = m.reaches id := by
    cases hbefore : m.reaches id with
    | true => exact hreaches id hbefore
    | false =>
      apply Bool.eq_false_iff.mpr
      intro hafter
      exact hunnamed id hbefore hafter other entry hmem hpeer
  refine ⟨?_, ?_, ?_⟩
  · intro id
    rw [hlinks, hlogs, h.peers_eq]
    apply List.filter_congr
    intro peer hpeer
    obtain ⟨entry, hmem, hentry⟩ := exists_entry_of_mem_standing hpeer
    exact (hsame hmem hentry).symm
  · intro id peer
    rw [hlogs]
    exact h.alternates id peer
  · intro a b ha hb
    have hnew {a b : EnclaveId} (hbefore : m.reaches a = false) (ha : m'.reaches a = true) :
        eventsWith b (m.logOf a) = eventsWith a (m.logOf b) := by
      rw [eventsWith_eq_nil (hunnamed a hbefore ha b),
        logOf_of_gone (Option.isNone_iff_eq_none.mp (by simpa [reaches] using hbefore))]
      rfl
    rw [hlogs, hlogs]
    cases hbeforeA : m.reaches a with
    | false => exact hnew hbeforeA ha
    | true =>
      cases hbeforeB : m.reaches b with
      | false => exact (hnew hbeforeB hb).symm
      | true => exact h.mirrored a b hbeforeA hbeforeB

/-- With an enclave the links to it go, while the entries about it stay in the logs of the
others. -/
theorem remove (h : m.Story) (hlive : m.enclave? id = some e) : (m.teardown id).Story := by
  have hlogs := logOf_teardown hlive
  have hreaches := reaches_teardown hlive
  refine ⟨?_, ?_, ?_⟩
  · intro other
    rw [linksOf_teardown hlive, hlogs]
    split
    · rfl
    · have hnodup : ((m.linksOf other).map Link.peer).Nodup := by
        rw [h.peers_eq]
        exact (nodup_standing _).filter _
      have hmap : ((m.linksOf other).filter (·.peer ≠ id)).map Link.peer =
          ((m.linksOf other).map Link.peer).filter (· ≠ id) := by
        rw [List.filter_map]
        rfl
      rw [eraseP_peer_eq_filter hnodup, hmap, h.peers_eq, List.filter_filter]
      apply List.filter_congr
      intro peer _
      rw [hreaches, Bool.and_comm]
  · intro other peer
    rw [hlogs]
    split
    · exact .nil
    · exact h.alternates other peer
  · intro a b ha hb
    rw [hreaches, Bool.and_eq_true, decide_eq_true_eq] at ha hb
    rw [hlogs, hlogs, if_neg ha.2, if_neg hb.2]
    exact h.mirrored a b ha.1 hb.1

/-- Of two that are about to meet, either log has the other as connected if it is a disconnection
that is due. -/
theorem linked_iff_due (h : m.Story) (hside : m.Partner event side e peer)
    (hpeer : m.Partner event peer f side) :
    (eventsWith peer.id (m.logOf side.id)).getLast? = some .connect ↔ event = .disconnect := by
  rw [← mem_standing_iff, ← hside.linked_iff, h.peers_eq, List.mem_filter,
    reaches_of_live hpeer.live, and_iff_left rfl]

/-- After an event a side is linked to those whom its log says, and who live. -/
theorem peers_meet (h : m.Story) (hside : m.Partner event side e peer)
    (hpeer : m.Partner event peer f side) :
    (e.meet event side peer).peers =
      (standing (m.logOf side.id ++ [side.entry])).filter m.reaches := by
  have hpeers : e.peers = (standing (m.logOf side.id)).filter m.reaches := by
    rw [← h.peers_eq, linksOf_of_live hside.live, Enclave.peers]
  have hdue := h.linked_iff_due hside hpeer
  rw [← mem_standing_iff] at hdue
  rw [standing_concat, hside.entry_peer, hside.entry_event, List.filter_append]
  cases event with
  | connect =>
    have hmeet : (e.meet .connect side peer).peers = e.peers ++ [peer.id] := by
      simp [Enclave.peers, Enclave.meet, Enclave.absorb]
    have hnew : (standing (m.logOf side.id)).filter (· ≠ peer.id) = standing (m.logOf side.id) := by
      apply List.filter_eq_self.mpr
      intro other hother
      apply decide_eq_true
      rintro rfl
      cases hdue.mp hother
    rw [hmeet, hpeers, hnew, if_pos rfl,
      List.filter_cons_of_pos (reaches_of_live hpeer.live), List.filter_nil]
  | disconnect =>
    have hmeet : (e.meet .disconnect side peer).peers = e.peers.filter (· ≠ peer.id) := by
      rw [Enclave.peers, Enclave.peers, List.filter_map]
      rfl
    rw [hmeet, hpeers, if_neg (by simp), List.filter_nil, List.append_nil, List.filter_filter,
      List.filter_filter]
    exact List.filter_congr fun other _ => Bool.and_comm _ _

/-- An event goes on in turn, since a connection needs two that are not linked and the other two
that are. -/
theorem alternates_meet (h : m.Story) (hside : m.Partner event side e peer)
    (hpeer : m.Partner event peer f side) (id : EnclaveId) :
    Alternates (eventsWith id (m.logOf side.id ++ [side.entry])) := by
  rw [eventsWith_append, eventsWith_singleton, hside.entry_peer, hside.entry_event]
  split
  · rename_i hid
    exact hid ▸ (h.alternates side.id peer.id).concat (h.linked_iff_due hside hpeer)
  · rw [List.append_nil]
    exact h.alternates side.id id

/-- An event is told on both sides, so the logs go on telling one story. -/
theorem meet (h : m.Story) (hne : sideA.id ≠ sideB.id) (hA : m.Partner event sideA eA sideB)
    (hB : m.Partner event sideB eB sideA) : (m.meet event sideA sideB eA eB).Story := by
  have hlogs := logOf_meet hne hA hB
  have hreaches : (m.meet event sideA sideB eA eB).reaches = m.reaches :=
    funext (reaches_meet hne hA hB)
  refine ⟨?_, ?_, ?_⟩
  · intro id
    rw [hreaches, hlogs, linksOf, enclave?_meet hne hA hB, newEntries]
    split
    · rename_i hid
      exact hid ▸ h.peers_meet hA hB
    split
    · rename_i hid
      exact hid ▸ h.peers_meet hB hA
    · rw [List.append_nil]
      exact h.peers_eq id
  · intro id other
    rw [hlogs, newEntries]
    split
    · rename_i hid
      exact hid ▸ h.alternates_meet hA hB other
    split
    · rename_i hid
      exact hid ▸ h.alternates_meet hB hA other
    · rw [List.append_nil]
      exact h.alternates id other
  · intro a b ha hb
    rw [hreaches] at ha hb
    rw [hlogs, hlogs, eventsWith_append, eventsWith_append, h.mirrored a b ha hb,
      eventsWith_newEntries hne hA hB]

/-- No act changes that, unless it makes an enclave that some log names already. -/
theorem step (h : m.Story) (hstack : m.StackSound) (heffect : m.Effect act m')
    (hunnamed : ∀ id, m.reaches id = false → m'.reaches id = true →
      ∀ other, ∀ entry ∈ m.logOf other, entry.peer ≠ id) : m'.Story := by
  cases heffect with
  | idle => exact h
  | around => exact h.grow (fun _ => rfl) (fun _ => rfl) (fun _ hid => hid) hunnamed
  | short => exact h.grow (fun _ => rfl) (fun _ => rfl) (fun _ hid => hid) hunnamed
  | retract => exact h.grow (fun _ => rfl) (fun _ => rfl) (fun _ hid => hid) hunnamed
  | @enroll _ exclusive untrusted connector pages =>
    have hsupplied := hstack.supply pages (m.newcomer exclusive untrusted connector)
    refine h.grow (linksOf_settle hsupplied rfl) (logOf_settle hsupplied rfl) ?_ hunnamed
    intro id hid
    obtain ⟨e, hlive⟩ := Option.isSome_iff_exists.mp hid
    exact reaches_of_live (enclave?_settle_of_live hsupplied hlive _)
  | @update _ into e f _ hlive hupdate =>
    have hlog : f.log = e.log := (Enclave.Carried.update hupdate).log_eq
    refine h.grow ?_ ?_ ?_ hunnamed
    · intro id
      refine (linksOf_put hlive f id).trans ?_
      split
      · rename_i hinto
        rw [hinto, linksOf_of_live hlive, hupdate.links_eq]
      · rfl
    · intro id
      refine (logOf_put hlive f id).trans ?_
      split
      · rename_i hinto
        rw [hinto, logOf_of_live hlive, hlog]
      · rfl
    · intro id hid
      exact (reaches_put hlive f id).trans hid
  | remove hlive =>
    have hgone := h.remove hlive
    exact ⟨hgone.peers_eq, hgone.alternates, hgone.mirrored⟩
  | meet hne hA hB => exact h.meet hne hA hB

end Story

/-! ## Whole runs -/

/-- A run in which no handle is given out twice. -/
def Unrepeated (m : Monitor) (acts : List Act) : Prop :=
  ∀ first second id, m.Issues acts first id → m.Issues acts second id → first = second

section Run

variable {config : Config} {platform : Platform} {identity : Identity} {acts : List Act}

/-- A log names those only to whom a handle was given out. -/
theorem issuedBy_of_logged (hstart : Monitor.start config platform identity = .ok m)
    {moment : Nat} {entry : PeerDescriptor} (hlogged : entry ∈ (m.upTo acts moment).logOf id) :
    m.IssuedBy acts moment entry.peer := by
  induction moment generalizing id entry with
  | zero =>
    have hnone : (m.upTo acts 0).enclave? id = none := enclave?_start hstart id
    rw [logOf_of_gone hnone] at hlogged
    cases hlogged
  | succ moment ih =>
    rcases m.upTo_succ_cases acts moment with ⟨act, -, hsucc⟩ | hover
    · rw [hsucc] at hlogged
      cases hlive : ((m.upTo acts moment).act act).enclave? id with
      | none =>
        rw [logOf_of_gone hlive] at hlogged
        cases hlogged
      | some e =>
        rw [logOf_of_live hlive] at hlogged
        cases follows_of_effect (stackSound_upTo hstart acts moment) (effect_act _ act) hlive with
        | born _ hfresh =>
          rw [hfresh.entries_eq] at hlogged
          cases hlogged
        | carried hbefore hcarried =>
          rw [hcarried.log_eq, ← logOf_of_live hbefore] at hlogged
          exact (ih hlogged).succ
        | met _ hside hpeer _ =>
          rcases List.mem_append.mp hlogged with hold | hnew
          · rw [← logOf_of_live hside.live] at hold
            exact (ih hold).succ
          · rw [List.mem_singleton.mp hnew, hside.entry_peer]
            exact (issuedBy_of_live hstart (reaches_of_live hpeer.live)).succ
    · exact (ih (hover ▸ hlogged)).succ

/-- The logs tell the story at every moment of a run in which no handle comes back. -/
theorem story_upTo (hstart : Monitor.start config platform identity = .ok m)
    (hunrepeated : m.Unrepeated acts) (moment : Nat) : (m.upTo acts moment).Story := by
  induction moment with
  | zero => exact .start hstart
  | succ moment ih =>
    rcases m.upTo_succ_cases acts moment with ⟨act, -, hsucc⟩ | hover
    · rw [hsucc]
      refine ih.step (stackSound_upTo hstart acts moment) (effect_act _ act) ?_
      intro id hbefore hafter other entry hlogged hpeer
      rw [← hsucc] at hafter
      have hnone : (m.upTo acts moment).enclave? id = none :=
        Option.isNone_iff_eq_none.mp (by simpa [reaches] using hbefore)
      obtain ⟨earlier, hlt, hissues⟩ := issuedBy_of_logged hstart hlogged
      have hnow := issues_of_arrival hstart hnone hafter
      exact Nat.ne_of_lt hlt (hunrepeated earlier moment id (hpeer ▸ hissues) hnow)
    · rw [hover]
      exact ih

/-- What the logs of the live enclaves tell, and what their links say to it. -/
structure OneStory (m : Monitor) : Prop where
  alternates : ∀ id e, m.enclave? id = some e → ∀ peer,
    Alternates (eventsWith peer e.log.entries)
  linked_iff : ∀ id e, m.enclave? id = some e → ∀ peer, peer ∈ e.peers ↔
    (eventsWith peer e.log.entries).getLast? = some .connect ∧ m.reaches peer = true
  ordered : ∀ id e, m.enclave? id = some e →
    e.peers = (standing e.log.entries).filter m.reaches
  mirrored : ∀ a b eA eB, m.enclave? a = some eA → m.enclave? b = some eB →
    eventsWith b eA.log.entries = eventsWith a eB.log.entries

/-- What the invariant says of the logs by themselves. -/
theorem Story.oneStory (h : m.Story) : m.OneStory := by
  have hpeers {id : EnclaveId} {e : Enclave} (hlive : m.enclave? id = some e) :
      e.peers = (standing e.log.entries).filter m.reaches := by
    rw [← logOf_of_live hlive, ← h.peers_eq, linksOf_of_live hlive, Enclave.peers]
  refine ⟨?_, ?_, ?_, ?_⟩
  · intro id e hlive peer
    exact logOf_of_live hlive ▸ h.alternates id peer
  · intro id e hlive peer
    rw [hpeers hlive, List.mem_filter, mem_standing_iff]
  · intro id e hlive
    exact hpeers hlive
  · intro a b eA eB hA hB
    rw [← logOf_of_live hA, ← logOf_of_live hB]
    exact h.mirrored a b (reaches_of_live hA) (reaches_of_live hB)

/-- At every moment of a run in which no handle is given out twice, the logs tell one story. -/
theorem logs_tell_one_story (hstart : Monitor.start config platform identity = .ok m)
    (hunrepeated : m.Unrepeated acts) (moment : Nat) : (m.upTo acts moment).OneStory :=
  (story_upTo hstart hunrepeated moment).oneStory

/-- In a run that stays inside the words of a handle, none is given out twice. -/
theorem Bounded.unrepeated (hstart : Monitor.start config platform identity = .ok m)
    (hbounded : m.Bounded acts) : m.Unrepeated acts := by
  intro first second id hfirst hsecond
  exact Nat.le_antisymm (hsecond.le_of_issues hstart hbounded hfirst)
    (hfirst.le_of_issues hstart hbounded hsecond)

/-- An enclave that is connected to two others, of which one is left and the other goes. -/
theorem logs_tell_one_story_default :
    let acts : List Act := [.call (.allocate 3), .call (.allocate 3), .call (.allocate 3),
      .call (.setReference ⟨0, 1⟩ "a"), .call (.setReference ⟨1, 1⟩ "b"),
      .call (.setReference ⟨2, 1⟩ "c"),
      .call (.finalize ⟨0, 1⟩ ⟨0x80000000, 0x80001000, 0x80002000, 0x80003000⟩),
      .call (.finalize ⟨1, 1⟩ ⟨0x80045000, 0x80046000, 0x80047000, 0x80048000⟩),
      .call (.finalize ⟨2, 1⟩ ⟨0x8008A000, 0x8008B000, 0x8008C000, 0x8008D000⟩),
      .call (.connect ⟨0, 1⟩ ⟨1, 1⟩), .call (.connect ⟨2, 1⟩ ⟨0, 1⟩),
      .call (.disconnect ⟨1, 1⟩ ⟨0, 1⟩), .call (.connect ⟨1, 1⟩ ⟨0, 1⟩),
      .call (.destroy ⟨2, 1⟩)]
    ∃ m, Monitor.start {} .initial
        ⟨⟨⟨List.replicate 32 7, rfl⟩⟩, ⟨⟨List.replicate 64 9, rfl⟩⟩⟩ = .ok m ∧
      m.Unrepeated acts ∧
      eventsWith ⟨1, 1⟩ ((m.upTo acts 14).logOf ⟨0, 1⟩) = [.connect, .disconnect, .connect] ∧
      standing ((m.upTo acts 14).logOf ⟨0, 1⟩) = [⟨2, 1⟩, ⟨1, 1⟩] ∧
      ((m.upTo acts 14).linksOf ⟨0, 1⟩).map Link.peer = [⟨1, 1⟩] ∧
      (m.upTo acts 14).OneStory := by
  intro acts
  obtain ⟨m, hstart⟩ : ∃ m, Monitor.start {} .initial
    ⟨⟨⟨List.replicate 32 7, rfl⟩⟩, ⟨⟨List.replicate 64 9, rfl⟩⟩⟩ = .ok m := ⟨_, rfl⟩
  have hunrepeated : m.Unrepeated acts :=
    (bounded_of_length hstart (by decide)).unrepeated hstart
  refine ⟨m, hstart, hunrepeated, ?_, ?_, ?_, logs_tell_one_story hstart hunrepeated 14⟩
  all_goals
    cases hstart
    rfl

end Run

end Monitor

end Enclaves

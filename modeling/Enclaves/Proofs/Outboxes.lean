import Enclaves.Proofs.Issuing
import Enclaves.Proofs.Links

/-!
# Handles on mailboxes

Opening the sending end of a peer's mailbox takes a connection, and using it takes none. A handle is
answered while the two are linked; nothing takes it back when they part. What can be said of it
rests on two facts. A mailbox, once made, is never removed and never given to another enclave
(`PostSound`), and nothing but a send through a handle puts a message into it (`mailed_act`).

So `outbox` is refused from a parting until the two are connected again. A handle from before goes
on reaching the mailbox of the enclave that it was opened for, until that enclave is gone, and
never another one's.
-/

namespace Enclaves

namespace Monitor

variable {m : Monitor} {act : Act} {a b id other : EnclaveId} {e e' : Enclave} {box : MailboxId}
  {w : Mailbox}

/-! ## What an act does to a mailbox -/

/-- A call makes mailboxes at most, and they are empty. -/
theorem mailboxes_of_effect {m' : Monitor} {call : Call} (h : m.Effect (.call call) m') :
    ∃ made, m'.mailboxes = m.mailboxes ++ made ∧
      ∀ w ∈ made, w = Mailbox.empty m.config.mailboxCapacity := by
  have hnone (made : Mailbox) (hmem : made ∈ []) : made = Mailbox.empty m.config.mailboxCapacity :=
    absurd hmem List.not_mem_nil
  cases h with
  | idle => exact ⟨[], (List.append_nil _).symm, hnone⟩
  | short => exact ⟨[], (List.append_nil _).symm, hnone⟩
  | update => exact ⟨[], (List.append_nil _).symm, hnone⟩
  | retract => exact ⟨[], (List.append_nil _).symm, hnone⟩
  | meet => exact ⟨[], (List.append_nil _).symm, hnone⟩
  | remove hlive =>
    refine ⟨[], ?_, hnone⟩
    rw [teardown_eq hlive, List.append_nil]
  | enroll =>
    refine ⟨_, mailboxes_settle _ _, ?_⟩
    intro w hw
    obtain ⟨_, -, rfl⟩ := List.mem_map.mp hw
    rfl

/-- A mailbox after an act, if there is one. -/
inductive Mailed (m : Monitor) (act : Act) (box : MailboxId) : Option Mailbox → Prop
  /-- The act passes it by. -/
  | passed : m.Mailed act box (m.mailbox? box)
  | made {call : Call} (hact : act = .call call) (hnone : m.mailbox? box = none) :
    m.Mailed act box (some (.empty m.config.mailboxCapacity))
  | sent {w : Mailbox} {message : Bytes} (hact : act = .happening (.send box message))
    (hbefore : m.mailbox? box = some w) (hempty : w.waiting = none) :
    m.Mailed act box (some { w with waiting := some (Mailbox.payload w.capacity message) })
  | received {w : Mailbox} {room : Nat} (hact : act = .happening (.receive box room))
    (hbefore : m.mailbox? box = some w) :
    m.Mailed act box (some { w with waiting := none })

/-- Writing a mailbox back, seen from any place. -/
theorem getElem?_set_cases {mailboxes : List Mailbox} {i : Nat} (h : mailboxes[i]? = some w)
    (w' : Mailbox) (k : Nat) :
    (k = i ∧ (mailboxes.set i w')[k]? = some w') ∨ (mailboxes.set i w')[k]? = mailboxes[k]? := by
  by_cases hk : i = k
  · subst hk
    exact .inl ⟨rfl, List.getElem?_set_self (List.getElem?_eq_some_iff.mp h).1⟩
  · exact .inr (List.getElem?_set_ne hk)

/-- A send writes one mailbox, and only if it was empty. -/
theorem mailed_send (m : Monitor) (into box : MailboxId) (message : Bytes) :
    m.Mailed (.happening (.send into message)) box
      ((m.undergo (.send into message)).mailbox? box) := by
  simp only [undergo, send?]
  cases hinto : m.mailbox? into with
  | none => exact .passed
  | some w =>
    cases hwaiting : w.waiting with
    | some _ =>
      simp only [Mailbox.send?, hwaiting]
      exact .passed
    | none =>
      simp only [Mailbox.send?, hwaiting]
      rcases getElem?_set_cases hinto { w with
          waiting := some (Mailbox.payload w.capacity message) } box with ⟨rfl, hset⟩ | hset
      · rw [mailbox?, hset]
        exact .sent rfl hinto hwaiting
      · rw [mailbox?, hset]
        exact .passed

/-- A receive empties one mailbox. -/
theorem mailed_receive (m : Monitor) (from_ box : MailboxId) (room : Nat) :
    m.Mailed (.happening (.receive from_ room)) box
      ((m.undergo (.receive from_ room)).mailbox? box) := by
  simp only [undergo, receive?]
  cases hfrom : m.mailbox? from_ with
  | none => exact .passed
  | some w =>
    cases hwaiting : w.waiting with
    | none =>
      simp only [Mailbox.receive?, hwaiting]
      exact .passed
    | some message =>
      simp only [Mailbox.receive?, hwaiting]
      rcases getElem?_set_cases hfrom { w with waiting := none } box with ⟨rfl, hset⟩ | hset
      · rw [mailbox?, hset]
        exact .received rfl hfrom
      · rw [mailbox?, hset]
        exact .passed

/-- Only a send puts a message in, and only a receive takes one out. -/
theorem mailed_act (m : Monitor) (act : Act) (box : MailboxId) :
    m.Mailed act box ((m.act act).mailbox? box) := by
  cases act with
  | call call =>
    obtain ⟨made, hmade, hempty⟩ := mailboxes_of_effect (effect_call m call)
    show m.Mailed _ box (m.step call).2.mailboxes[box]?
    rw [hmade]
    rcases Nat.lt_or_ge box m.mailboxes.length with hlt | hge
    · rw [List.getElem?_append_left hlt]
      exact .passed
    · have hnone : m.mailbox? box = none := List.getElem?_eq_none hge
      cases hget : (m.mailboxes ++ made)[box]? with
      | none => exact hnone ▸ .passed
      | some w =>
        rw [List.getElem?_append_right hge] at hget
        rw [hempty w (List.mem_of_getElem? hget)]
        exact .made rfl hnone
  | happening happening =>
    cases happening with
    | scriptEntry => exact .passed
    | refuseMaps => exact .passed
    | failReleases => exact .passed
    | writeUntrusted id offset bytes =>
      have hsame : (m.undergo (.writeUntrusted id offset bytes)).mailboxes = m.mailboxes := by
        simp only [undergo, writeUntrusted]
        split
        · rfl
        split <;> rfl
      show m.Mailed _ box (m.undergo (.writeUntrusted id offset bytes)).mailboxes[box]?
      rw [hsame]
      exact .passed
    | send into message => exact mailed_send m into box message
    | receive from_ room => exact mailed_receive m from_ box room

/-- No mailbox is ever removed. -/
theorem length_mailboxes_le (m : Monitor) (act : Act) :
    m.mailboxes.length ≤ (m.act act).mailboxes.length := by
  apply Nat.le_of_not_lt
  intro hlt
  have hmailed := mailed_act m act (m.act act).mailboxes.length
  have hgone : (m.act act).mailbox? (m.act act).mailboxes.length = none :=
    List.getElem?_eq_none (Nat.le_refl _)
  rw [hgone] at hmailed
  -- no act takes a mailbox away, so there was none before either
  generalize hnone : none = found at hmailed
  cases hmailed with
  | passed =>
    have hbefore := List.getElem?_eq_none_iff.mp (hnone.symm : m.mailboxes[_]? = none)
    exact Nat.not_le_of_lt hlt hbefore
  | made => cases hnone
  | sent => cases hnone
  | received => cases hnone

/-! ## Whose a mailbox is -/

/-- An enclave with a connector receives in the mailbox of that connector. -/
theorem inbox_eq_ok_iff :
    m.inbox id = .ok box ↔ ∃ c, m.connectorOf id = some c ∧ c.mailbox = box := by
  rw [inbox, lookup, connectorOf]
  cases m.enclave? id with
  | none => simp
  | some e =>
    cases hconnector : e.connector with
    | none => simp [hconnector]
    | some c => simp [hconnector]

/-- A mailbox to send to is that of a link. -/
theorem outbox_eq_ok_iff : m.outbox a b = .ok box ↔
    ∃ e link, m.enclave? a = some e ∧ e.linkTo? b = some link ∧ link.mailbox = box := by
  rw [outbox, lookup]
  cases m.enclave? a with
  | none => simp
  | some e =>
    cases hlink : e.linkTo? b with
    | none => simp [hlink]
    | some link => simp [hlink]

/-- As long as an enclave lives it keeps its connector. -/
theorem connector_eq_of_live (hstack : m.StackSound) (hbefore : m.enclave? id = some e)
    (hafter : (m.act act).enclave? id = some e') : e'.connector = e.connector := by
  cases follows_of_effect hstack (effect_act m act) hafter with
  | born hnone _ =>
    rw [hbefore] at hnone
    cases hnone
  | carried hsame hcarried =>
    obtain rfl := Option.some.inj (hsame.symm.trans hbefore)
    cases hcarried with
    | same => rfl
    | update hupdate => exact hupdate.connector_eq
    | unlink gone => rfl
  | met hid hside _ _ =>
    obtain rfl := Option.some.inj ((hid ▸ hside.live).symm.trans hbefore)
    rfl

/-- A connector that a handle finds after an act was there before, or its mailbox is a new one. -/
theorem connectorOf_act (hstack : m.StackSound) {c : Connector}
    (h : (m.act act).connectorOf id = some c) :
    m.connectorOf id = some c ∨ m.enclave? id = none ∧
      c.mailbox = m.mailboxes.length ∧ m.mailboxes.length < (m.act act).mailboxes.length := by
  obtain ⟨e', hafter, hconnector⟩ := Option.bind_eq_some_iff.mp h
  cases hbefore : m.enclave? id with
  | some e =>
    left
    rw [connectorOf_of_live hbefore, ← connector_eq_of_live hstack hbefore hafter, hconnector]
  | none =>
    right
    obtain ⟨minPages, rfl, hanswer⟩ := allocated_of_arrival hstack hbefore (by rw [hafter]; rfl)
    obtain ⟨exclusive, untrusted, connector, pages, -, henroll⟩ := enroll_of_allocated hanswer
    have henroll : m.act (.call (.allocate minPages)) =
        (m.enroll exclusive untrusted connector pages).2 := henroll
    rw [henroll] at hafter
    rcases enclave?_enroll hstack exclusive untrusted connector pages id with hsame | ⟨-, hnew⟩
    · rw [hsame, hbefore] at hafter
      cases hafter
    · obtain rfl := Option.some.inj (hafter.symm.trans hnew)
      obtain ⟨region, hregion, rfl⟩ := Option.map_eq_some_iff.mp hconnector
      refine ⟨rfl, rfl, ?_⟩
      rw [henroll, enroll, mailboxes_settle, supply, newcomer, newEnclave, hregion]
      simp

/-- Every connector has a mailbox of its own. -/
structure PostSound (m : Monitor) : Prop where
  inside : ∀ {id c}, m.connectorOf id = some c → c.mailbox < m.mailboxes.length
  unshared : ∀ {id other c d}, m.connectorOf id = some c → m.connectorOf other = some d →
    c.mailbox = d.mailbox → id = other

/-- No act moves a mailbox, or gives it to another enclave. -/
theorem PostSound.step (h : m.PostSound) (hstack : m.StackSound) (act : Act) :
    (m.act act).PostSound where
  inside hc := by
    rcases connectorOf_act hstack hc with hold | ⟨-, hnew, hgrown⟩
    · exact Nat.lt_of_lt_of_le (h.inside hold) (m.length_mailboxes_le act)
    · rw [hnew]
      exact hgrown
  unshared {id other c d} hc hd hsame := by
    rcases connectorOf_act hstack hc with hold | ⟨hnone, hnew, -⟩
    · rcases connectorOf_act hstack hd with hold' | ⟨-, hnew', -⟩
      · exact h.unshared hold hold' hsame
      · exact absurd (hsame.trans hnew') (Nat.ne_of_lt (h.inside hold))
    · rcases connectorOf_act hstack hd with hold' | ⟨hnone', -, -⟩
      · exact absurd (hsame.symm.trans hnew) (Nat.ne_of_lt (h.inside hold'))
      · -- an act makes one enclave at most
        obtain ⟨e, he, -⟩ := Option.bind_eq_some_iff.mp hc
        obtain ⟨f, hf, -⟩ := Option.bind_eq_some_iff.mp hd
        obtain ⟨minPages, rfl, hanswer⟩ := allocated_of_arrival hstack hnone (by rw [he]; rfl)
        obtain ⟨_, hact, hanswer'⟩ := allocated_of_arrival hstack hnone' (by rw [hf]; rfl)
        cases hact
        rw [hanswer] at hanswer'
        cases hanswer'
        rfl

/-- Every mailbox has one owner in every monitor that is reached. -/
theorem Reachable.post (h : m.Reachable) : m.PostSound := by
  induction h with
  | @start config platform identity m hfresh hstart =>
    have hnone (id : EnclaveId) : m.connectorOf id = none := by
      rw [connectorOf, enclave?_start hstart]
      rfl
    refine ⟨?_, ?_⟩
    · intro id c hc
      rw [hnone] at hc
      cases hc
    · intro id other c d hc
      rw [hnone] at hc
      cases hc
  | act act hbefore ih => exact ih.step hbefore.stack act

/-! ## Links -/

/-- Two enclaves that are connected. -/
def Linked (m : Monitor) (a b : EnclaveId) : Prop :=
  ∃ e f, m.enclave? a = some e ∧ m.enclave? b = some f ∧ b ∈ e.peers ∧ a ∈ f.peers

/-- An act that parts two enclaves: they are disconnected, in either order, or one of them ends. -/
inductive Parts (m : Monitor) (act : Act) (a b : EnclaveId) : Prop
  | disconnected (h : m.Meets act .disconnect a b)
  | left (h : m.Ends act a)
  | right (h : m.Ends act b)

/-- One record tells whether two enclaves are linked, as the other agrees. -/
theorem Reachable.linked_iff (h : m.Reachable) :
    m.Linked a b ↔ ∃ e, m.enclave? a = some e ∧ b ∈ e.peers := by
  constructor
  · rintro ⟨e, _, hlive, -, hpeer, -⟩
    exact ⟨e, hlive, hpeer⟩
  · rintro ⟨e, hlive, hpeer⟩
    obtain ⟨f, hother, hback⟩ := h.sound.linksAgree.symmetric a e b hlive hpeer
    exact ⟨e, f, hlive, hother, hpeer, hback⟩

/-- The sending end of a mailbox is opened for those who are linked to its owner. -/
theorem Reachable.outbox_eq_ok_iff (h : m.Reachable) :
    m.outbox a b = .ok box ↔ m.Linked a b ∧ m.inbox b = .ok box := by
  have hagree := h.sound.linksAgree
  rw [Monitor.outbox_eq_ok_iff, h.linked_iff, inbox_eq_ok_iff]
  constructor
  · rintro ⟨e, link, hlive, hlink, rfl⟩
    have hmem := List.mem_of_find?_eq_some hlink
    have hpeer : link.peer = b := by simpa using List.find?_some hlink
    obtain ⟨f, hother, hconnector⟩ := hagree.connector a e hlive link hmem
    refine ⟨⟨e, hlive, hpeer ▸ List.mem_map_of_mem hmem⟩, ⟨link.region, link.mailbox⟩, ?_, rfl⟩
    rw [← hpeer, connectorOf_of_live hother, hconnector]
  · rintro ⟨⟨e, hlive, hpeer⟩, c, hconnector, rfl⟩
    obtain ⟨link, hlink⟩ := Option.isSome_iff_exists.mp (Enclave.isSome_linkTo?_iff.mpr hpeer)
    refine ⟨e, link, hlive, hlink, ?_⟩
    have hmem := List.mem_of_find?_eq_some hlink
    have hpeer : link.peer = b := by simpa using List.find?_some hlink
    obtain ⟨f, hother, hlinked⟩ := hagree.connector a e hlive link hmem
    rw [← hpeer, connectorOf_of_live hother, hlinked] at hconnector
    cases hconnector
    rfl

/-- Nobody has a new peer but by being connected to it. -/
theorem Reachable.linked_or_connects (h : m.Reachable) (hlinked : (m.act act).Linked a b) :
    m.Linked a b ∨ m.Meets act .connect a b := by
  rw [(h.act act).linked_iff] at hlinked
  rw [h.linked_iff]
  obtain ⟨e', hafter, hpeer⟩ := hlinked
  cases follows_of_effect h.stack (effect_act m act) hafter with
  | born hnone _ =>
    obtain ⟨_, _, _, _, _, -, rfl⟩ :=
      exists_newcomer_of_effect h.stack (effect_act m act) hnone hafter
    cases hpeer
  | @carried e _ hsame hcarried =>
    refine .inl ⟨e, hsame, ?_⟩
    cases hcarried with
    | same => exact hpeer
    | update hupdate => rwa [Enclave.peers, hupdate.links_eq] at hpeer
    | unlink gone => exact (List.eraseP_sublist.map Link.peer).subset hpeer
  | @met event side peer e f hid hside hpartner hmeets =>
    cases event with
    | connect =>
      have hpeers : (e.meet .connect side peer).peers = e.peers ++ [peer.id] := List.map_append
      rw [hpeers, List.mem_append, List.mem_singleton] at hpeer
      rcases hpeer with hold | rfl
      · exact .inl ⟨e, hid ▸ hside.live, hold⟩
      · exact .inr (hid ▸ hmeets)
    | disconnect =>
      exact .inl ⟨e, hid ▸ hside.live, (List.filter_sublist.map Link.peer).subset hpeer⟩

/-- After a parting two enclaves are not linked. -/
theorem Parts.not_linked (h : m.Parts act a b) : ¬ (m.act act).Linked a b := by
  rintro ⟨e', f', ha, hb, hpeer, -⟩
  cases h with
  | left hends =>
    rw [hends.live.2] at ha
    cases ha
  | right hends =>
    rw [hends.live.2] at hb
    cases hb
  | disconnected hmeets =>
    obtain ⟨call, hcall, rfl, hdone⟩ := hmeets
    have hgone : ∀ sideA sideB eA eB, sideA.id ≠ sideB.id →
        m.Partner .disconnect sideA eA sideB → m.Partner .disconnect sideB eB sideA →
        (a = sideA.id ∧ b = sideB.id ∨ a = sideB.id ∧ b = sideA.id) →
        (m.step call).2 = m.meet .disconnect sideA sideB eA eB → False := by
      intro sideA sideB eA eB hne hA hB hnamed hafter
      have hlinks := linksOf_meet_disconnect hne hA hB a
      have ha : (m.step call).2.enclave? a = some e' := ha
      rw [← hafter, linksOf_of_live ha] at hlinks
      rw [Enclave.peers, hlinks] at hpeer
      obtain ⟨link, hlink, hto⟩ := List.mem_map.mp hpeer
      have hkept := (List.mem_filter.mp hlink).2
      rw [hto] at hkept
      simp [keepsLink, hnamed] at hkept
    rcases hcall with rfl | rfl
    · obtain ⟨sideA, sideB, eA, eB, ha', hb', hne, hA, hB, hafter⟩ := meeting_of_done hdone
      exact hgone sideA sideB eA eB hne hA hB (.inl ⟨ha', hb'⟩) hafter
    · obtain ⟨sideA, sideB, eA, eB, hb', ha', hne, hA, hB, hafter⟩ := meeting_of_done hdone
      exact hgone sideA sideB eA eB hne hA hB (.inr ⟨ha', hb'⟩) hafter

/-! ## Sending -/

/-- The mailbox that an enclave receives in exists. -/
theorem PostSound.exists_mailbox (h : m.PostSound) (hown : m.inbox b = .ok box) :
    ∃ w, m.mailbox? box = some w := by
  obtain ⟨c, hc, rfl⟩ := inbox_eq_ok_iff.mp hown
  exact ⟨_, List.getElem?_eq_getElem (h.inside hc)⟩

/-- No two enclaves receive in one mailbox. -/
theorem PostSound.eq_of_inbox (h : m.PostSound) (ha : m.inbox a = .ok box)
    (hb : m.inbox b = .ok box) : a = b := by
  obtain ⟨c, hc, hbox⟩ := inbox_eq_ok_iff.mp ha
  obtain ⟨d, hd, hbox'⟩ := inbox_eq_ok_iff.mp hb
  exact h.unshared hc hd (hbox.trans hbox'.symm)

/-- What is put into an empty mailbox is what is received, and then all is as before. -/
theorem exists_send?_of_empty (hw : m.mailbox? box = some w) (hempty : w.waiting = none)
    (message : Bytes) : ∃ sent n, m.send? box message = some (sent, n) ∧
      (∀ id, n.inbox id = m.inbox id) ∧
      ∀ room, n.receive? box room = some ((Mailbox.payload w.capacity message).take room, m) := by
  have hsend : w.send? message = some (Sent.ofLength w.capacity message.length,
      { w with waiting := some (Mailbox.payload w.capacity message) }) := by
    simp only [Mailbox.send?, hempty]
  have hlt : box < m.mailboxes.length := (List.getElem?_eq_some_iff.mp hw).1
  refine ⟨Sent.ofLength w.capacity message.length, { m with
    mailboxes := m.mailboxes.set box
      { w with waiting := some (Mailbox.payload w.capacity message) } }, ?_, fun _ => rfl, ?_⟩
  · simp only [send?, hw, hsend]
  intro room
  have hback : m.mailboxes.set box w = m.mailboxes := by
    obtain ⟨_, rfl⟩ := List.getElem?_eq_some_iff.mp hw
    exact List.set_getElem_self hlt
  simp only [receive?, mailbox?, List.getElem?_set_self hlt, Mailbox.receive?_of_send? room hsend,
    List.set_set, hback]

/-- A send into a mailbox where a message waits does not come about. -/
theorem send?_of_full (hw : m.mailbox? box = some w) (hfull : w.waiting ≠ none) (message : Bytes) :
    m.send? box message = none := by
  obtain ⟨waiting, hwaiting⟩ := Option.ne_none_iff_exists'.mp hfull
  simp only [send?, hw, Mailbox.send?, hwaiting]

/-- A send changes the mailbox that it names, and no other. -/
theorem eq_of_send {slot : MailboxId} {message : Bytes}
    (h : (m.undergo (.send box message)).mailbox? slot ≠ m.mailbox? slot) : slot = box := by
  have hmailed := mailed_send m box slot message
  generalize (m.undergo (.send box message)).mailbox? slot = found at h hmailed
  cases hmailed with
  | passed => exact absurd rfl h
  | made hact => cases hact
  | sent hact =>
    cases hact
    rfl
  | received hact => cases hact

/-! ## Whole runs -/

section Run

variable {config : Config} {platform : Platform} {identity : Identity} {acts : List Act}
  {first last : Nat}

theorem reachable_upTo (hstart : Monitor.start config platform identity = .ok m)
    (hfresh : ∀ id, platform.mappings id = []) (acts : List Act) (moment : Nat) :
    (m.upTo acts moment).Reachable :=
  (Reachable.start hfresh hstart).perform (acts.take moment)

/-- The mailboxes only become more. -/
theorem length_mailboxes_upTo (m : Monitor) (acts : List Act) (hle : first ≤ last) :
    (m.upTo acts first).mailboxes.length ≤ (m.upTo acts last).mailboxes.length := by
  induction hle with
  | refl => exact Nat.le_refl _
  | @step last _ ih =>
    rcases m.upTo_succ_cases acts last with ⟨act, -, hsucc⟩ | hover
    · rw [hsucc]
      exact Nat.le_trans ih (length_mailboxes_le _ act)
    · rw [hover]
      exact ih

/-- Whose a mailbox is at some moment, it was before, ever since the mailbox was made. -/
theorem inbox_before (hreach : ∀ t, (m.upTo acts t).Reachable) (hle : first ≤ last)
    (hmade : box < (m.upTo acts first).mailboxes.length)
    (hlater : (m.upTo acts last).inbox id = .ok box) :
    ∀ moment, first ≤ moment → moment ≤ last → (m.upTo acts moment).inbox id = .ok box := by
  induction hle with
  | refl =>
    intro moment hfrom hto
    rwa [Nat.le_antisymm hto hfrom]
  | @step last hle ih =>
    have hbefore : (m.upTo acts last).inbox id = .ok box := by
      rcases m.upTo_succ_cases acts last with ⟨act, -, hsucc⟩ | hover
      · rw [hsucc] at hlater
        obtain ⟨c, hc, rfl⟩ := inbox_eq_ok_iff.mp hlater
        rcases connectorOf_act (hreach last).stack hc with hold | ⟨-, hnew, -⟩
        · exact inbox_eq_ok_iff.mpr ⟨c, hold, rfl⟩
        · have hgrown := length_mailboxes_upTo m acts hle
          exact absurd hnew (Nat.ne_of_lt (Nat.lt_of_lt_of_le hmade hgrown))
      · rwa [hover] at hlater
    intro moment hfrom hto
    rcases Nat.lt_or_eq_of_le hto with hlt | rfl
    · exact ih hbefore moment hfrom (Nat.le_of_lt_succ hlt)
    · exact hlater

/-- An enclave has its mailbox until it ends. -/
theorem inbox_stays (hreach : ∀ t, (m.upTo acts t).Reachable) (hle : first ≤ last)
    (hown : (m.upTo acts first).inbox id = .ok box)
    (hlives : ∀ moment, first ≤ moment → moment < last → ¬ m.EndsAt acts moment id) :
    (m.upTo acts last).inbox id = .ok box := by
  induction hle with
  | refl => exact hown
  | @step last hle ih =>
    have hbefore := ih fun moment hfrom hto => hlives moment hfrom (Nat.lt_succ_of_lt hto)
    rcases m.upTo_succ_cases acts last with ⟨act, hact, hsucc⟩ | hover
    · rw [hsucc]
      obtain ⟨c, hc, hbox⟩ := inbox_eq_ok_iff.mp hbefore
      obtain ⟨e, hlive, hconnector⟩ := Option.bind_eq_some_iff.mp hc
      cases hafter : ((m.upTo acts last).act act).enclave? id with
      | none =>
        have hends := ends_of_departure (hreach last).stack (by rw [hlive]; rfl) hafter
        exact absurd ⟨act, hact, hends⟩ (hlives last hle (Nat.lt_succ_self last))
      | some e' =>
        refine inbox_eq_ok_iff.mpr ⟨c, ?_, hbox⟩
        rw [connectorOf_of_live hafter,
          connector_eq_of_live (hreach last).stack hlive hafter, hconnector]
    · rwa [hover]

/-- What waits in a mailbox was sent to it. -/
theorem sent_of_waiting (hstart : Monitor.start config platform identity = .ok m) {moment : Nat}
    {held : Bytes} (hw : (m.upTo acts moment).mailbox? box = some w)
    (hheld : w.waiting = some held) :
    ∃ i message, i < moment ∧ acts[i]? = some (.happening (.send box message)) ∧
      held = Mailbox.payload w.capacity message := by
  induction moment generalizing w with
  | zero =>
    have hnone : m.mailboxes = [] := by
      unfold Monitor.start at hstart
      split at hstart
      · cases hstart
      · cases hstart
        rfl
    have hw : m.mailboxes[box]? = some w := hw
    rw [hnone] at hw
    cases hw
  | succ moment ih =>
    have hearlier (w : Mailbox) (hw : (m.upTo acts moment).mailbox? box = some w)
        (hheld : w.waiting = some held) : ∃ i message, i < moment + 1 ∧
          acts[i]? = some (.happening (.send box message)) ∧
          held = Mailbox.payload w.capacity message := by
      obtain ⟨i, message, hi, hact, hsame⟩ := ih hw hheld
      exact ⟨i, message, Nat.lt_succ_of_lt hi, hact, hsame⟩
    rcases m.upTo_succ_cases acts moment with ⟨act, hact, hsucc⟩ | hover
    · rw [hsucc] at hw
      have hmailed := mailed_act (m.upTo acts moment) act box
      generalize hfound : ((m.upTo acts moment).act act).mailbox? box = found at hw hmailed
      cases hmailed with
      | passed => exact hearlier w hw hheld
      | made =>
        cases hw
        cases hheld
      | @sent w' message hsend =>
        cases hw
        cases hheld
        exact ⟨moment, message, Nat.lt_succ_self moment, hsend ▸ hact, rfl⟩
      | received =>
        cases hw
        cases hheld
    · rw [hover] at hw
      exact hearlier w hw hheld

/-- From a parting on two enclaves are not linked, until they are connected. -/
theorem not_linked_upTo (hreach : ∀ t, (m.upTo acts t).Reachable) {moment : Nat} {act : Act}
    (hact : acts[moment]? = some act) (hparts : (m.upTo acts moment).Parts act a b)
    (hlt : moment < last)
    (hapart : ∀ t next, moment < t → t < last → acts[t]? = some next →
      ¬ (m.upTo acts t).Meets next .connect a b) : ¬ (m.upTo acts last).Linked a b := by
  induction hlt with
  | refl =>
    rw [upTo_succ hact]
    exact hparts.not_linked
  | @step last hle ih =>
    have hbefore := ih fun t next hfrom hto => hapart t next hfrom (Nat.lt_succ_of_lt hto)
    rcases m.upTo_succ_cases acts last with ⟨next, hnext, hsucc⟩ | hover
    · rw [hsucc]
      intro hlinked
      rcases (hreach last).linked_or_connects hlinked with hstill | hmeets
      · exact hbefore hstill
      · exact hapart last next hle (Nat.lt_succ_self last) hnext hmeets
    · rw [hover]
      exact hbefore

/-- What is sent in a run goes through handles that were kept: `outbox` answered each to someone,
at this moment or before. -/
def KeepsHandles (m : Monitor) (acts : List Act) : Prop :=
  ∀ i box message, acts[i]? = some (.happening (.send box message)) →
    ∃ s a b, s ≤ i ∧ (m.upTo acts s).outbox a b = .ok box

/-- What a handle on the mailbox of `b` is good for, some time after it was answered. Whether the
two are still linked has no part in it. -/
structure HandleLaw (m : Monitor) (acts : List Act) (first last : Nat) (b : EnclaveId)
    (box : MailboxId) : Prop where
  /-- It is `b`'s mailbox as long as that enclave lives. -/
  own : (m.upTo acts last).inbox b = .ok box ↔
    ∀ moment, first ≤ moment → moment < last → ¬ m.EndsAt acts moment b
  /-- So long, a send fills the mailbox if it is empty, and the message is what `b` receives. -/
  delivers : (m.upTo acts last).inbox b = .ok box → ∃ w, (m.upTo acts last).mailbox? box = some w ∧
    ∀ message, (w.waiting = none → ∃ sent n, (m.upTo acts last).send? box message = some (sent, n) ∧
        n.inbox b = .ok box ∧ ∀ room, n.receive? box room =
          some ((Mailbox.payload w.capacity message).take room, m.upTo acts last)) ∧
      (w.waiting ≠ none → (m.upTo acts last).send? box message = none)
  /-- A send changes nobody else's mailbox; once `b` has ended, nobody's at all. -/
  only : ∀ message id slot, (m.upTo acts last).inbox id = .ok slot →
    ((m.upTo acts last).undergo (.send box message)).mailbox? slot ≠
      (m.upTo acts last).mailbox? slot →
    id = b ∧ slot = box ∧ ∀ moment, first ≤ moment → moment < last → ¬ m.EndsAt acts moment b

/-- What mailboxes have to do with connections. -/
structure DataPlane (m : Monitor) (acts : List Act) : Prop where
  /-- The sending end of `b`'s mailbox is opened for `a` just while the two are linked, and it is
  the mailbox from which `b` receives. -/
  opens : ∀ moment a b box, (m.upTo acts moment).outbox a b = .ok box ↔
    (m.upTo acts moment).Linked a b ∧ (m.upTo acts moment).inbox b = .ok box
  /-- After a parting it is refused, until the two are connected again. -/
  refused : ∀ moment act a b, acts[moment]? = some act → (m.upTo acts moment).Parts act a b →
    ∀ last, moment < last →
      (∀ t next, moment < t → t < last → acts[t]? = some next →
        ¬ (m.upTo acts t).Meets next .connect a b) →
      ∀ box, (m.upTo acts last).outbox a b ≠ .ok box
  /-- What waits for `b` was sent through a handle that was opened on it, by someone who was linked
  to `b` at that time. -/
  comes : ∀ moment b box w held, (m.upTo acts moment).inbox b = .ok box →
    (m.upTo acts moment).mailbox? box = some w → w.waiting = some held →
    ∃ s i a message, s ≤ i ∧ i < moment ∧ (m.upTo acts s).outbox a b = .ok box ∧
      (m.upTo acts s).Linked a b ∧ acts[i]? = some (.happening (.send box message)) ∧
      held = Mailbox.payload w.capacity message
  /-- What a handle that was kept is good for. -/
  kept : ∀ first last a b box, first ≤ last → (m.upTo acts first).outbox a b = .ok box →
    m.HandleLaw acts first last b box

/-- What becomes of a handle on a mailbox after it was opened. -/
theorem handleLaw (hreach : ∀ t, (m.upTo acts t).Reachable) (hle : first ≤ last)
    (hopened : (m.upTo acts first).outbox a b = .ok box) : m.HandleLaw acts first last b box := by
  have hown := ((hreach first).outbox_eq_ok_iff.mp hopened).2
  have hmade : box < (m.upTo acts first).mailboxes.length := by
    obtain ⟨c, hc, rfl⟩ := inbox_eq_ok_iff.mp hown
    exact (hreach first).post.inside hc
  have hlives : (m.upTo acts last).inbox b = .ok box →
      ∀ moment, first ≤ moment → moment < last → ¬ m.EndsAt acts moment b := by
    intro hlater moment hfrom hto hends
    have hafter := inbox_before hreach hle hmade hlater (moment + 1) (Nat.le_succ_of_le hfrom) hto
    obtain ⟨c, hc, -⟩ := inbox_eq_ok_iff.mp hafter
    rw [connectorOf, hends.live.2] at hc
    cases hc
  refine ⟨⟨hlives, inbox_stays hreach hle hown⟩, ?_, ?_⟩
  · intro hlater
    obtain ⟨w, hw⟩ := (hreach last).post.exists_mailbox hlater
    refine ⟨w, hw, fun message => ⟨?_, fun hfull => send?_of_full hw hfull message⟩⟩
    intro hempty
    obtain ⟨sent, n, hsend, hinbox, hreceive⟩ := exists_send?_of_empty hw hempty message
    exact ⟨sent, n, hsend, (hinbox b).trans hlater, hreceive⟩
  · intro message id slot hslot hchange
    obtain rfl := eq_of_send hchange
    have hbefore := inbox_before hreach hle hmade hslot first (Nat.le_refl _) hle
    obtain rfl := (hreach first).post.eq_of_inbox hbefore hown
    exact ⟨rfl, rfl, hlives hslot⟩

/-- Opening a handle ends with the connection, and an open handle does not. Take any run from a
fresh platform in which messages are sent through handles that were answered before, whenever. -/
theorem handles_outlive_connections (hstart : Monitor.start config platform identity = .ok m)
    (hfresh : ∀ id, platform.mappings id = []) (hkept : m.KeepsHandles acts) :
    m.DataPlane acts := by
  have hreach := reachable_upTo hstart hfresh acts
  refine ⟨fun moment _ _ _ => (hreach moment).outbox_eq_ok_iff, ?_, ?_, ?_⟩
  · intro moment act a b hact hparts last hlt hapart box hopened
    have hlinked := ((hreach last).outbox_eq_ok_iff.mp hopened).1
    exact not_linked_upTo hreach hact hparts hlt hapart hlinked
  · intro moment b box w held hown hw hheld
    obtain ⟨i, message, hi, hact, hmessage⟩ := sent_of_waiting hstart hw hheld
    obtain ⟨s, a, c, hs, hopened⟩ := hkept i box message hact
    obtain ⟨hlinked, hinbox⟩ := (hreach s).outbox_eq_ok_iff.mp hopened
    obtain ⟨d, hd, hbox⟩ := inbox_eq_ok_iff.mp hinbox
    have hmade := hbox ▸ (hreach s).post.inside hd
    -- the mailbox belongs to the same enclave now as when the handle was answered
    have hle : s ≤ moment := Nat.le_trans hs (Nat.le_of_lt hi)
    have hbefore := inbox_before hreach hle hmade hown s (Nat.le_refl s) hle
    obtain rfl := (hreach s).post.eq_of_inbox hbefore hinbox
    exact ⟨s, i, a, message, hs, hi, hopened, hlinked, hact, hmessage⟩
  · intro first last a b box hle hopened
    exact handleLaw hreach hle hopened

end Run

/-- Two enclaves that are connected, and parted again. A message is sent through the handle from
before. -/
def partingRun : List Act :=
  [.call (.allocate 3), .call (.allocate 3),
    .call (.setReference ⟨0, 1⟩ "a"), .call (.setReference ⟨1, 1⟩ "b"),
    .call (.finalize ⟨0, 1⟩ ⟨0x80000000, 0x80001000, 0x80002000, 0x80003000⟩),
    .call (.finalize ⟨1, 1⟩ ⟨0x80045000, 0x80046000, 0x80047000, 0x80048000⟩),
    .call (.connect ⟨0, 1⟩ ⟨1, 1⟩), .call (.disconnect ⟨0, 1⟩ ⟨1, 1⟩),
    .happening (.send 1 [5, 6])]

/-- Two enclaves are connected and parted, and a message goes through a handle from before. -/
theorem handles_outlive_connections_parted :
    ∃ m, Monitor.start {} .initial ⟨⟨⟨List.replicate 32 7, rfl⟩⟩, ⟨⟨List.replicate 64 9, rfl⟩⟩⟩ =
        .ok m ∧
      m.KeepsHandles partingRun ∧ m.DataPlane partingRun ∧
      (m.upTo partingRun 7).outbox ⟨0, 1⟩ ⟨1, 1⟩ = .ok 1 ∧
      (m.upTo partingRun 9).outbox ⟨0, 1⟩ ⟨1, 1⟩ ≠ .ok 1 ∧
      ((m.upTo partingRun 9).receive? 1 2).map Prod.fst = some [5, 6] := by
  obtain ⟨m, hstart⟩ : ∃ m, Monitor.start {} .initial
    ⟨⟨⟨List.replicate 32 7, rfl⟩⟩, ⟨⟨List.replicate 64 9, rfl⟩⟩⟩ = .ok m := ⟨_, rfl⟩
  have hopened : (m.upTo partingRun 7).outbox ⟨0, 1⟩ ⟨1, 1⟩ = .ok 1 := by
    cases hstart
    rfl
  have hreceived : ((m.upTo partingRun 9).receive? 1 2).map Prod.fst = some [5, 6] := by
    cases hstart
    rfl
  have hdisconnects : (m.upTo partingRun 7).Meets (.call (.disconnect ⟨0, 1⟩ ⟨1, 1⟩)) .disconnect
      ⟨0, 1⟩ ⟨1, 1⟩ := by
    refine ⟨_, .inl rfl, rfl, ?_⟩
    cases hstart
    rfl
  have hkept : m.KeepsHandles partingRun := by
    intro i box message hact
    rcases i with _ | _ | _ | _ | _ | _ | _ | _ | _ | i <;> cases hact
    exact ⟨7, ⟨0, 1⟩, ⟨1, 1⟩, by decide, hopened⟩
  have hplane := handles_outlive_connections hstart (fun _ => rfl) hkept
  refine ⟨m, hstart, hkept, hplane, hopened, ?_, hreceived⟩
  refine hplane.refused 7 _ _ _ rfl (.disconnected hdisconnects) 9 (by decide) ?_ 1
  intro t next hfrom hto hnext
  obtain rfl : t = 8 := by omega
  cases hnext
  rintro ⟨call, -, ⟨⟩, -⟩

/-- The data plane does not end with the connection. `⟨0, 1⟩` was connected to `⟨1, 1⟩` and kept the
handle 1 on its mailbox. However the two part, they are not linked any more; `⟨1, 1⟩` still has that
mailbox and finds it empty, and a message that is sent through the handle then is what it
receives. -/
theorem kept_handle_outlives_connection :
    ∃ m, Monitor.start {} .initial ⟨⟨⟨List.replicate 32 7, rfl⟩⟩, ⟨⟨List.replicate 64 9, rfl⟩⟩⟩ =
        .ok m ∧
      (m.upTo partingRun 7).outbox ⟨0, 1⟩ ⟨1, 1⟩ = .ok 1 ∧
      ∀ parting ∈ [Call.disconnect ⟨0, 1⟩ ⟨1, 1⟩, .disconnect ⟨1, 1⟩ ⟨0, 1⟩, .destroy ⟨0, 1⟩],
        let after := ((m.upTo partingRun 7).step parting).2
        (m.upTo partingRun 7).Parts (.call parting) ⟨0, 1⟩ ⟨1, 1⟩ ∧
          ¬ after.Linked ⟨0, 1⟩ ⟨1, 1⟩ ∧ after.inbox ⟨1, 1⟩ = .ok 1 ∧ after.receive? 1 2 = none ∧
          ((after.undergo (.send 1 [5, 6])).receive? 1 2).map Prod.fst = some [5, 6] := by
  obtain ⟨m, hstart⟩ : ∃ m, Monitor.start {} .initial
    ⟨⟨⟨List.replicate 32 7, rfl⟩⟩, ⟨⟨List.replicate 64 9, rfl⟩⟩⟩ = .ok m := ⟨_, rfl⟩
  refine ⟨m, hstart, ?_, ?_⟩
  · cases hstart
    rfl
  have hparts : ∀ parting ∈
      [Call.disconnect ⟨0, 1⟩ ⟨1, 1⟩, .disconnect ⟨1, 1⟩ ⟨0, 1⟩, .destroy ⟨0, 1⟩],
      (m.upTo partingRun 7).Parts (.call parting) ⟨0, 1⟩ ⟨1, 1⟩ := by
    simp only [List.forall_mem_cons, List.not_mem_nil, false_imp_iff, implies_true, and_true]
    refine ⟨.disconnected ⟨_, .inl rfl, rfl, ?_⟩, .disconnected ⟨_, .inr rfl, rfl, ?_⟩,
      .left (.destroyed rfl ?_)⟩
    all_goals
      cases hstart
      rfl
  intro parting hmem after
  refine ⟨hparts parting hmem, (hparts parting hmem).not_linked, ?_⟩
  simp only [List.mem_cons, List.not_mem_nil, or_false] at hmem
  obtain rfl | rfl | rfl := hmem
  all_goals
    cases hstart
    exact ⟨rfl, rfl, rfl⟩

end Monitor

end Enclaves

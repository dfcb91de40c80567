import Enclaves.Mailbox.Handover
import Mathlib.Data.List.Basic

/-!
# What passes through a slot

Every message that is sent through a slot is received once, whole, and in the order in which the
messages were published, however the steps of senders and receivers are interleaved. `Orderly` is
the statement. It is made at the end of any schedule, and the beginning of a schedule is one too, so
it holds at any time, with calls that have not finished or not begun among the others.

A call is a job of its own here, whichever handle makes it, for an end of a mailbox may be shared
like the slot itself. An attempt to take the slot may also fail without a cause; nothing changes
then, and the run is the one without that attempt.

The invariant is `Sound`. It says of each job how it stands to its request (`Standing`): what lies
in the payload while the job holds the slot, and which message it got once it is done. Whoever takes
the slot finds the state word in a position that no holder leaves it in, so there is no holder
(`Sound.word_of_holds`), and a step touches the standing of nobody else (`Standing.frame`).
-/

namespace Enclaves

/-- A call that is made on an end of a mailbox. -/
inductive HandoverRequest where
  | send (message : Bytes)
  | receive (room : Nat)

/-- The job of a call that has not begun. -/
def HandoverRequest.job : HandoverRequest → HandoverJob
  | .send message => .sendWaiting message
  | .receive room => .receiveWaiting room

/-- Whether a job has taken the slot and not yet given it on. -/
def HandoverJob.holds : HandoverJob → Bool
  | .sendCopying .. | .receiveCopying .. => true
  | .sendWaiting _ | .sent _ | .receiveWaiting _ | .received _ => false

namespace Mailbox

/-- What lies in the slot for a byte of a message, or for a byte behind its end. -/
theorem getElem?_payload {capacity offset : Nat} (message : Bytes) (h : offset < capacity) :
    (payload capacity message)[offset]? = some (message.getD offset 0) := by
  simp only [payload, Bytes.padTo, Bytes.zeros, List.getElem?_append, List.length_take,
    List.getElem?_take, List.getElem?_replicate, List.getD_eq_getElem?_getD]
  rcases Nat.lt_or_ge offset message.length with hin | hbehind
  · rw [if_pos (by omega), if_pos h, List.getElem?_eq_getElem hin, Option.getD_some]
  · rw [if_neg (by omega), if_pos (by omega), List.getElem?_eq_none hbehind, Option.getD_none]

end Mailbox

namespace Handover

variable {capacity : Nat} {requests : List HandoverRequest} {h : Handover}
  {moves : List HandoverMove} {sends sends' receives receives' : List Nat}
  {job : Nat}

/-- A job has taken the slot and not yet given it on. -/
def Holds (h : Handover) (job : Nat) : Prop := ∃ j, h.jobs[job]? = some j ∧ j.holds = true

/-- The send that a move published, if it published one. -/
def published? (requests : List HandoverRequest) : HandoverMove → Option Nat
  | .took _ => none
  | .gaveOn job =>
    match requests[job]? with
    | some (.send _) => some job
    | _ => none

/-- The receive that a move claimed the slot for, if it claimed it for one. -/
def claimed? (requests : List HandoverRequest) : HandoverMove → Option Nat
  | .gaveOn _ => none
  | .took job =>
    match requests[job]? with
    | some (.receive _) => some job
    | _ => none

/-- The sends that were published, in the order in which they were. -/
def published (requests : List HandoverRequest) (moves : List HandoverMove) : List Nat :=
  moves.filterMap (published? requests)

/-- The receives that claimed the slot, in the order in which they did. -/
def claimed (requests : List HandoverRequest) (moves : List HandoverMove) : List Nat :=
  moves.filterMap (claimed? requests)

/-- What holds of a slot and its jobs at any time, the moves so far given. -/
structure Orderly (capacity : Nat) (requests : List HandoverRequest) (h : Handover)
    (moves : List HandoverMove) : Prop where
  /-- One job at most is between its claim and its publication. -/
  exclusive : ∀ i j, h.Holds i → h.Holds j → i = j
  /-- The slot is full exactly when a published message has not been claimed. -/
  full_iff : h.word = .full ↔
    (claimed requests moves).length < (published requests moves).length
  backlog : (published requests moves).length = (claimed requests moves).length ∨
    (published requests moves).length = (claimed requests moves).length + 1
  published_once : (published requests moves).Nodup
  claimed_once : (claimed requests moves).Nodup
  /-- The sends that are done are those that were published. -/
  published_iff : ∀ i, i ∈ published requests moves ↔ ∃ message, h.jobs[i]? = some (.sent message)
  /-- The receives that have claimed the slot are those that copy from it or are done. -/
  claimed_iff : ∀ i, i ∈ claimed requests moves ↔
    (∃ room taken, h.jobs[i]? = some (.receiveCopying room taken)) ∨
      ∃ bytes, h.jobs[i]? = some (.received bytes)
  /-- The receive that claimed the slot as the `k`-th one gets the message that was published as the
  `k`-th one, as it lay in the slot and as far as there is room. -/
  received : ∀ (k i room : Nat) (bytes : Bytes), (claimed requests moves)[k]? = some i →
    requests[i]? = some (.receive room) → h.jobs[i]? = some (.received bytes) →
    ∃ (j : Nat) (message : Bytes), (published requests moves)[k]? = some j ∧
      requests[j]? = some (.send message) ∧
      bytes = (Mailbox.payload capacity message).take (min room capacity)

/-! ## The standing of a job -/

/-- The message of the send that was published when a receive claimed the slot. -/
def Gets (requests : List HandoverRequest) (sends receives : List Nat) (job : Nat)
    (message : Bytes) : Prop :=
  ∃ k i : Nat, receives[k]? = some job ∧ sends[k]? = some i ∧ requests[i]? = some (.send message)

/-- How a job stands to its request. -/
inductive Standing (capacity : Nat) (requests : List HandoverRequest) (word : SlotWord)
    (bytes : Bytes) (sends receives : List Nat) (job : Nat) :
    HandoverRequest → HandoverJob → Prop
  | sendWaiting {message : Bytes} : job ∉ sends → job ∉ receives →
    Standing capacity requests word bytes sends receives job (.send message) (.sendWaiting message)
  | sendCopying {message : Bytes} {offset : Nat} : job ∉ sends → job ∉ receives →
    word = .writing → offset ≤ capacity →
    bytes.take offset = (Mailbox.payload capacity message).take offset →
    Standing capacity requests word bytes sends receives job (.send message)
      (.sendCopying message offset)
  | sent {message : Bytes} : job ∈ sends → job ∉ receives →
    Standing capacity requests word bytes sends receives job (.send message) (.sent message)
  | receiveWaiting {room : Nat} : job ∉ sends → job ∉ receives →
    Standing capacity requests word bytes sends receives job (.receive room) (.receiveWaiting room)
  | receiveCopying {room : Nat} {taken message : Bytes} : job ∉ sends →
    Gets requests sends receives job message → word = .reading →
    bytes = Mailbox.payload capacity message → taken.length ≤ min room capacity →
    taken = (Mailbox.payload capacity message).take taken.length →
    Standing capacity requests word bytes sends receives job (.receive room)
      (.receiveCopying room taken)
  | received {room : Nat} {taken message : Bytes} : job ∉ sends →
    Gets requests sends receives job message →
    taken = (Mailbox.payload capacity message).take (min room capacity) →
    Standing capacity requests word bytes sends receives job (.receive room) (.received taken)

/-- Who gets a message claimed the slot. -/
theorem Gets.mem {message : Bytes} (hgets : Gets requests sends receives job message) :
    job ∈ receives := by
  obtain ⟨k, i, hjob, -, -⟩ := hgets
  exact List.mem_of_getElem? hjob

/-- A list of jobs in which one more may have come at the end. -/
inductive Grows (job : Nat) (jobs : List Nat) : List Nat → Prop
  | same : Grows job jobs jobs
  | push : job ∉ jobs → Grows job jobs (jobs ++ [job])

namespace Grows

variable {jobs jobs' : List Nat} {i : Nat}

/-- One more job at the end is a new one. -/
theorem nodup (hgrows : Grows job jobs jobs') (hjobs : jobs.Nodup) : jobs'.Nodup := by
  cases hgrows with
  | same => exact hjobs
  | push hnew =>
    refine List.nodup_append.mpr ⟨hjobs, List.pairwise_singleton _ job, ?_⟩
    rintro i hi _ hlast rfl
    exact hnew (List.mem_singleton.mp hlast ▸ hi)

/-- Other jobs are on the list exactly if they were. -/
theorem mem_iff (hgrows : Grows job jobs jobs') (hne : i ≠ job) : i ∈ jobs' ↔ i ∈ jobs := by
  cases hgrows with
  | same => exact Iff.rfl
  | push hnew => simp [hne]

/-- A list that grows keeps what it has in its places. -/
theorem getElem?_eq (hgrows : Grows job jobs jobs') {k : Nat} (hk : jobs[k]? = some i) :
    jobs'[k]? = some i := by
  cases hgrows with
  | same => exact hk
  | push hnew => rw [List.getElem?_append_left (List.getElem?_eq_some_iff.mp hk).1, hk]

end Grows

/-- What a job gets is not taken from it by later jobs. -/
theorem Gets.grow {message : Bytes} {i : Nat} (hgets : Gets requests sends receives i message)
    (hsends : Grows job sends sends') (hreceives : Grows job receives receives') :
    Gets requests sends' receives' i message := by
  obtain ⟨k, sender, hreceive, hsend, hrequest⟩ := hgets
  exact ⟨k, sender, hreceives.getElem?_eq hreceive, hsends.getElem?_eq hsend, hrequest⟩

/-- Who does not hold the slot stands as before, whatever another job does to it. -/
theorem Standing.frame {i : Nat} {request : HandoverRequest} {j : HandoverJob}
    {word word' : SlotWord} {bytes bytes' : Bytes}
    (hstands : Standing capacity requests word bytes sends receives i request j)
    (hidle : j.holds = false) (hne : i ≠ job) (hsends : Grows job sends sends')
    (hreceives : Grows job receives receives') :
    Standing capacity requests word' bytes' sends' receives' i request j := by
  have hsend := hsends.mem_iff hne
  have hreceive := hreceives.mem_iff hne
  cases hstands with
  | sendWaiting hs hr => exact .sendWaiting (mt hsend.mp hs) (mt hreceive.mp hr)
  | sendCopying => cases hidle
  | sent hs hr => exact .sent (hsend.mpr hs) (mt hreceive.mp hr)
  | receiveWaiting hs hr => exact .receiveWaiting (mt hsend.mp hs) (mt hreceive.mp hr)
  | receiveCopying => cases hidle
  | received hs hgets htaken =>
    exact .received (mt hsend.mp hs) (hgets.grow hsends hreceives) htaken

/-! ## The invariant -/

/-- What every step keeps. -/
structure Sound (capacity : Nat) (requests : List HandoverRequest) (h : Handover)
    (sends receives : List Nat) : Prop where
  capacity_eq : h.capacity = capacity
  length_payload : h.payload.length = capacity
  length_jobs : h.jobs.length = requests.length
  stands : ∀ i request j, requests[i]? = some request → h.jobs[i]? = some j →
    Standing capacity requests h.word h.payload sends receives i request j
  exclusive : ∀ i j, h.Holds i → h.Holds j → i = j
  count : sends.length = receives.length + if h.word = .full then 1 else 0
  /-- The message that waits in a full slot is the next one to be received. -/
  waits : h.word = .full → ∃ i message, sends[receives.length]? = some i ∧
    requests[i]? = some (.send message) ∧ h.payload = Mailbox.payload capacity message
  sends_nodup : sends.Nodup
  receives_nodup : receives.Nodup

namespace Sound

/-- Every job has a request, and stands to it. -/
theorem exists_request (hsound : Sound capacity requests h sends receives) {i : Nat}
    {j : HandoverJob} (hj : h.jobs[i]? = some j) : ∃ request, requests[i]? = some request ∧
      Standing capacity requests h.word h.payload sends receives i request j := by
  have hlt : i < requests.length := hsound.length_jobs ▸ (List.getElem?_eq_some_iff.mp hj).1
  have hrequest := List.getElem?_eq_getElem hlt
  exact ⟨_, hrequest, hsound.stands i _ j hrequest hj⟩

/-- A job that holds the slot shows in the state word. -/
theorem word_of_holds (hsound : Sound capacity requests h sends receives) {i : Nat}
    (hholds : h.Holds i) : h.word = .writing ∨ h.word = .reading := by
  obtain ⟨j, hj, hin⟩ := hholds
  obtain ⟨request, -, hstands⟩ := hsound.exists_request hj
  cases hstands with
  | sendCopying _ _ hword => exact .inl hword
  | receiveCopying _ _ hword => exact .inr hword
  | _ => cases hin

/-- The state after the step of one job, for which `after` is how far it has come. The other jobs
stand as they did, for none of them holds the slot. -/
theorem advance (hsound : Sound capacity requests h sends receives) {request : HandoverRequest}
    {before after : HandoverJob} {word : SlotWord} {bytes : Bytes}
    (hrequest : requests[job]? = some request) (hjob : h.jobs[job]? = some before)
    (hothers : ∀ i, h.Holds i → i = job) (hbytes : bytes.length = capacity)
    (hsends : Grows job sends sends') (hreceives : Grows job receives receives')
    (hstands : Standing capacity requests word bytes sends' receives' job request after)
    (hcount : sends'.length = receives'.length + if word = .full then 1 else 0)
    (hwaits : word = .full → ∃ i message, sends'[receives'.length]? = some i ∧
      requests[i]? = some (.send message) ∧ bytes = Mailbox.payload capacity message) :
    Sound capacity requests ⟨h.capacity, word, bytes, h.jobs.set job after⟩ sends' receives' := by
  have hlt := (List.getElem?_eq_some_iff.mp hjob).1
  refine ⟨hsound.capacity_eq, hbytes, ?_, ?_, ?_, hcount, hwaits, ?_, ?_⟩
  · rw [List.length_set, hsound.length_jobs]
  · intro i request' j hrequest' hj
    by_cases hi : i = job
    · subst hi
      rw [List.getElem?_set_self hlt] at hj
      obtain rfl := Option.some.inj hj
      obtain rfl := Option.some.inj (hrequest.symm.trans hrequest')
      exact hstands
    · rw [List.getElem?_set_ne (Ne.symm hi)] at hj
      have hidle : j.holds = false := by
        by_contra hholds
        exact hi (hothers i ⟨j, hj, by simpa using hholds⟩)
      exact (hsound.stands i request' j hrequest' hj).frame hidle hi hsends hreceives
  · have honly (i : Nat)
        (hholds : Holds ⟨h.capacity, word, bytes, h.jobs.set job after⟩ i) : i = job := by
      by_contra hi
      obtain ⟨j, hj, hin⟩ := hholds
      rw [List.getElem?_set_ne (Ne.symm hi)] at hj
      exact hi (hothers i ⟨j, hj, hin⟩)
    intro i j hi hj
    rw [honly i hi, honly j hj]
  · exact hsends.nodup hsound.sends_nodup
  · exact hreceives.nodup hsound.receives_nodup

/-- Nobody holds a slot whose state word is one that the other kind waits for. -/
theorem not_holds (hsound : Sound capacity requests h sends receives)
    (hword : h.word = .empty ∨ h.word = .full) (i : Nat) : ¬ h.Holds i := by
  intro hholds
  rcases hsound.word_of_holds hholds with hin | hin <;> rcases hword with hout | hout <;>
    rw [hin] at hout <;> cases hout

/-! ### What the steps do to it -/

variable {message taken : Bytes} {room offset : Nat}

/-- A send claims the slot. -/
theorem claimSend (hsound : Sound capacity requests h sends receives)
    (hrequest : requests[job]? = some (.send message))
    (hjob : h.jobs[job]? = some (.sendWaiting message)) (hword : h.word = .empty) :
    Sound capacity requests
      ⟨h.capacity, .writing, h.payload, h.jobs.set job (.sendCopying message 0)⟩
      sends receives := by
  have hcount := hsound.count
  rw [hword] at hcount
  cases hsound.stands job _ _ hrequest hjob with
  | sendWaiting hsend hreceive =>
    exact hsound.advance hrequest hjob (fun i hi => absurd hi (hsound.not_holds (.inl hword) i))
      hsound.length_payload .same .same
      (.sendCopying hsend hreceive rfl (Nat.zero_le _) rfl) hcount (by simp)

/-- A send writes one byte. -/
theorem write (hsound : Sound capacity requests h sends receives)
    (hrequest : requests[job]? = some (.send message))
    (hjob : h.jobs[job]? = some (.sendCopying message offset)) (hlt : offset < h.capacity) :
    Sound capacity requests
      ⟨h.capacity, h.word, h.payload.set offset (message.getD offset 0),
        h.jobs.set job (.sendCopying message (offset + 1))⟩ sends receives := by
  have hcount := hsound.count
  have hcapacity := hsound.capacity_eq
  cases hsound.stands job _ _ hrequest hjob with
  | sendCopying hsend hreceive hword _ hbytes =>
    have htake : (h.payload.set offset (message.getD offset 0)).take (offset + 1) =
        (Mailbox.payload capacity message).take (offset + 1) := by
      have hin : offset < h.payload.length := by
        rw [hsound.length_payload]
        omega
      rw [List.take_add_one, List.take_add_one, Mailbox.getElem?_payload message (by omega),
        List.getElem?_set_self hin, List.take_set_of_le (Nat.le_refl _), hbytes]
    exact hsound.advance hrequest hjob (fun i hi => hsound.exclusive i job hi ⟨_, hjob, rfl⟩)
      (by rw [List.length_set, hsound.length_payload]) .same .same
      (.sendCopying hsend hreceive hword (by omega) htake) hcount (by simp [hword])

/-- A send publishes its message. -/
theorem publish (hsound : Sound capacity requests h sends receives)
    (hrequest : requests[job]? = some (.send message))
    (hjob : h.jobs[job]? = some (.sendCopying message offset)) (hge : h.capacity ≤ offset) :
    Sound capacity requests ⟨h.capacity, .full, h.payload, h.jobs.set job (.sent message)⟩
      (sends ++ [job]) receives := by
  have hcount := hsound.count
  have hcapacity := hsound.capacity_eq
  cases hsound.stands job _ _ hrequest hjob with
  | sendCopying hsend hreceive hword hle hbytes =>
    rw [hword, if_neg (by decide), Nat.add_zero] at hcount
    have hwhole : h.payload = Mailbox.payload capacity message := by
      rwa [List.take_of_length_le (by rw [hsound.length_payload]; omega),
        List.take_of_length_le (by rw [Mailbox.length_payload]; omega)] at hbytes
    refine hsound.advance hrequest hjob (fun i hi => hsound.exclusive i job hi ⟨_, hjob, rfl⟩)
      hsound.length_payload (.push hsend) .same (.sent (by simp) hreceive) (by simp [hcount]) ?_
    intro _
    exact ⟨job, message, by rw [← hcount, List.getElem?_concat_length], hrequest, hwhole⟩

/-- A receive claims the slot. -/
theorem claimReceive (hsound : Sound capacity requests h sends receives)
    (hrequest : requests[job]? = some (.receive room))
    (hjob : h.jobs[job]? = some (.receiveWaiting room)) (hword : h.word = .full) :
    Sound capacity requests
      ⟨h.capacity, .reading, h.payload, h.jobs.set job (.receiveCopying room [])⟩
      sends (receives ++ [job]) := by
  have hcount := hsound.count
  rw [hword, if_pos rfl] at hcount
  obtain ⟨sender, message, hsender, hsent, hbytes⟩ := hsound.waits hword
  cases hsound.stands job _ _ hrequest hjob with
  | receiveWaiting hsend hreceive =>
    refine hsound.advance hrequest hjob (fun i hi => absurd hi (hsound.not_holds (.inr hword) i))
      hsound.length_payload .same (.push hreceive) ?_ (by simp [hcount]) (by simp)
    exact .receiveCopying hsend
      ⟨receives.length, sender, List.getElem?_concat_length, hsender, hsent⟩ rfl hbytes
      (Nat.zero_le _) rfl

/-- A receive reads one byte. -/
theorem read (hsound : Sound capacity requests h sends receives)
    (hrequest : requests[job]? = some (.receive room))
    (hjob : h.jobs[job]? = some (.receiveCopying room taken))
    (hlt : taken.length < min room h.capacity) :
    Sound capacity requests
      ⟨h.capacity, h.word, h.payload,
        h.jobs.set job (.receiveCopying room (taken ++ [h.payload.getD taken.length 0]))⟩
      sends receives := by
  have hcount := hsound.count
  have hcapacity := hsound.capacity_eq
  cases hsound.stands job _ _ hrequest hjob with
  | @receiveCopying _ _ message hsend hgets hword hbytes hle htaken =>
    refine hsound.advance hrequest hjob (fun i hi => hsound.exclusive i job hi ⟨_, hjob, rfl⟩)
      hsound.length_payload .same .same
      (.receiveCopying hsend hgets hword hbytes ?_ ?_) hcount (by simp [hword])
    · rw [List.length_append, List.length_singleton]
      omega
    · have hin : taken.length < h.payload.length := by
        rw [hsound.length_payload]
        omega
      rw [List.length_append, List.length_singleton, List.take_add_one, ← htaken, ← hbytes,
        List.getD_eq_getElem?_getD, List.getElem?_eq_getElem hin]
      rfl

/-- A receive gives the slot back. -/
theorem giveBack (hsound : Sound capacity requests h sends receives)
    (hrequest : requests[job]? = some (.receive room))
    (hjob : h.jobs[job]? = some (.receiveCopying room taken))
    (hge : min room h.capacity ≤ taken.length) :
    Sound capacity requests ⟨h.capacity, .empty, h.payload, h.jobs.set job (.received taken)⟩
      sends receives := by
  have hcount := hsound.count
  have hcapacity := hsound.capacity_eq
  cases hsound.stands job _ _ hrequest hjob with
  | @receiveCopying _ _ message hsend hgets hword hbytes hle htaken =>
    rw [hword] at hcount
    have hall : taken.length = min room capacity := by omega
    rw [hall] at htaken
    exact hsound.advance hrequest hjob (fun i hi => hsound.exclusive i job hi ⟨_, hjob, rfl⟩)
      hsound.length_payload .same .same (.received hsend hgets htaken) hcount (by simp)

end Sound

/-! ## Moves -/

variable {message : Bytes} {room : Nat}

/-- A send that gives the slot on has published. -/
theorem published_gaveOn (h : requests[job]? = some (.send message)) (moves : List HandoverMove) :
    published requests (moves ++ [.gaveOn job]) = published requests moves ++ [job] := by
  simp [published, published?, h]

/-- A receive that gives the slot back has published nothing. -/
theorem published_gaveBack (h : requests[job]? = some (.receive room))
    (moves : List HandoverMove) :
    published requests (moves ++ [.gaveOn job]) = published requests moves := by
  simp [published, published?, h]

/-- Nothing is published by taking the slot. -/
theorem published_took (requests : List HandoverRequest) (moves : List HandoverMove) (job : Nat) :
    published requests (moves ++ [.took job]) = published requests moves := by
  simp [published, published?]

/-- A receive that takes the slot has claimed it. -/
theorem claimed_took (h : requests[job]? = some (.receive room)) (moves : List HandoverMove) :
    claimed requests (moves ++ [.took job]) = claimed requests moves ++ [job] := by
  simp [claimed, claimed?, h]

/-- A send that takes the slot has claimed no message. -/
theorem claimed_tookToSend (h : requests[job]? = some (.send message))
    (moves : List HandoverMove) :
    claimed requests (moves ++ [.took job]) = claimed requests moves := by
  simp [claimed, claimed?, h]

/-- No message is claimed by giving the slot on. -/
theorem claimed_gaveOn (requests : List HandoverRequest) (moves : List HandoverMove) (job : Nat) :
    claimed requests (moves ++ [.gaveOn job]) = claimed requests moves := by
  simp [claimed, claimed?]

/-- A slot, its jobs and the moves so far. -/
def SoundAfter (capacity : Nat) (requests : List HandoverRequest) (h : Handover)
    (moves : List HandoverMove) : Prop :=
  Sound capacity requests h (published requests moves) (claimed requests moves)

/-- No step changes that. -/
theorem SoundAfter.step (hsound : SoundAfter capacity requests h moves) (job : Nat) :
    SoundAfter capacity requests (h.step job).1 (moves ++ (h.step job).2.toList) := by
  have hsame : SoundAfter capacity requests h (moves ++ []) := by rwa [List.append_nil]
  unfold Handover.step
  split
  · rename_i message hjob
    obtain ⟨_, hrequest, hstands⟩ := Sound.exists_request hsound hjob
    cases hstands
    split
    · rename_i hword
      rw [SoundAfter, Option.toList_some, published_took, claimed_tookToSend hrequest]
      exact Sound.claimSend hsound hrequest hjob hword
    · exact hsame
  · rename_i message offset hjob
    obtain ⟨_, hrequest, hstands⟩ := Sound.exists_request hsound hjob
    cases hstands
    split
    · rename_i hlt
      rw [SoundAfter, Option.toList_none, List.append_nil]
      exact Sound.write hsound hrequest hjob hlt
    · rename_i hge
      rw [SoundAfter, Option.toList_some, published_gaveOn hrequest, claimed_gaveOn]
      exact Sound.publish hsound hrequest hjob (Nat.le_of_not_lt hge)
  · rename_i room hjob
    obtain ⟨_, hrequest, hstands⟩ := Sound.exists_request hsound hjob
    cases hstands
    split
    · rename_i hword
      rw [SoundAfter, Option.toList_some, published_took, claimed_took hrequest]
      exact Sound.claimReceive hsound hrequest hjob hword
    · exact hsame
  · rename_i room taken hjob
    obtain ⟨_, hrequest, hstands⟩ := Sound.exists_request hsound hjob
    cases hstands
    split
    · rename_i hlt
      rw [SoundAfter, Option.toList_none, List.append_nil]
      exact Sound.read hsound hrequest hjob hlt
    · rename_i hge
      rw [SoundAfter, Option.toList_some, published_gaveBack hrequest, claimed_gaveOn]
      exact Sound.giveBack hsound hrequest hjob (Nat.le_of_not_lt hge)
  · exact hsame
  · exact hsame
  · exact hsame

/-- No schedule does. -/
theorem SoundAfter.run (hsound : SoundAfter capacity requests h moves) (schedule : List Nat) :
    SoundAfter capacity requests (h.run schedule).1 (moves ++ (h.run schedule).2) := by
  induction schedule generalizing h moves with
  | nil => rwa [Handover.run, List.append_nil]
  | cons job rest ih =>
    have hrest := ih (hsound.step job)
    rwa [List.append_assoc] at hrest

/-- At the start every job waits, and the slot is empty. -/
theorem soundAfter_start (capacity : Nat) (requests : List HandoverRequest) :
    SoundAfter capacity requests (start capacity (requests.map HandoverRequest.job)) [] := by
  refine ⟨rfl, Bytes.length_zeros capacity, List.length_map _, ?_, ?_, rfl, ?_, .nil, .nil⟩
  · intro i request j hrequest hj
    rw [start, List.getElem?_map, hrequest] at hj
    obtain rfl := Option.some.inj hj
    cases request with
    | send message => exact .sendWaiting List.not_mem_nil List.not_mem_nil
    | receive room => exact .receiveWaiting List.not_mem_nil List.not_mem_nil
  · rintro i _ ⟨j, hj, hholds⟩ _
    rw [start, List.getElem?_map] at hj
    obtain ⟨request, -, rfl⟩ := Option.map_eq_some_iff.mp hj
    cases request <;> cases hholds
  · intro hword
    cases hword

/-- What was published is a message that was to be sent. -/
theorem exists_send {i : Nat} (hmem : i ∈ published requests moves) :
    ∃ message, requests[i]? = some (.send message) := by
  obtain ⟨move, -, hmove⟩ := List.mem_filterMap.mp hmem
  unfold published? at hmove
  split at hmove
  · cases hmove
  split at hmove
  · rename_i hrequest
    obtain rfl := Option.some.inj hmove
    exact ⟨_, hrequest⟩
  · cases hmove

/-- Only receives claim messages. -/
theorem exists_receive {i : Nat} (hmem : i ∈ claimed requests moves) :
    ∃ room, requests[i]? = some (.receive room) := by
  obtain ⟨move, -, hmove⟩ := List.mem_filterMap.mp hmem
  unfold claimed? at hmove
  split at hmove
  · cases hmove
  split at hmove
  · rename_i hrequest
    obtain rfl := Option.some.inj hmove
    exact ⟨_, hrequest⟩
  · cases hmove

/-- Every request has its job. -/
theorem SoundAfter.exists_job (hsound : SoundAfter capacity requests h moves) {i : Nat}
    {request : HandoverRequest} (hrequest : requests[i]? = some request) :
    ∃ j, h.jobs[i]? = some j := by
  have hlt := (List.getElem?_eq_some_iff.mp hrequest).1
  rw [← hsound.length_jobs] at hlt
  exact ⟨_, List.getElem?_eq_getElem hlt⟩

/-- The sends that were published are those that are done. -/
theorem SoundAfter.published_iff (hsound : SoundAfter capacity requests h moves) (i : Nat) :
    i ∈ published requests moves ↔ ∃ message, h.jobs[i]? = some (.sent message) := by
  constructor
  · intro hmem
    obtain ⟨message, hsend⟩ := exists_send hmem
    obtain ⟨j, hj⟩ := hsound.exists_job hsend
    have hstands := hsound.stands i _ _ hsend hj
    cases hstands with
    | sent => exact ⟨_, hj⟩
    | sendWaiting hnot | sendCopying hnot => exact absurd hmem hnot
  · rintro ⟨message, hj⟩
    obtain ⟨request, -, hstands⟩ := hsound.exists_request hj
    cases hstands with
    | sent hmem => exact hmem

/-- The receives that claimed a message are copying it or have it. -/
theorem SoundAfter.claimed_iff (hsound : SoundAfter capacity requests h moves) (i : Nat) :
    i ∈ claimed requests moves ↔
      (∃ room taken, h.jobs[i]? = some (.receiveCopying room taken)) ∨
        ∃ bytes, h.jobs[i]? = some (.received bytes) := by
  constructor
  · intro hmem
    obtain ⟨room, hreceive⟩ := exists_receive hmem
    obtain ⟨j, hj⟩ := hsound.exists_job hreceive
    have hstands := hsound.stands i _ _ hreceive hj
    cases hstands with
    | receiveCopying => exact .inl ⟨_, _, hj⟩
    | received => exact .inr ⟨_, hj⟩
    | receiveWaiting _ hnot => exact absurd hmem hnot
  · rintro (⟨room, taken, hj⟩ | ⟨bytes, hj⟩)
    · obtain ⟨request, -, hstands⟩ := hsound.exists_request hj
      cases hstands with
      | receiveCopying _ hgets => exact hgets.mem
    · obtain ⟨request, -, hstands⟩ := hsound.exists_request hj
      cases hstands with
      | received _ hgets => exact hgets.mem

/-- A receive that is done got the message whose turn it was. -/
theorem SoundAfter.received (hsound : SoundAfter capacity requests h moves) {k i : Nat}
    {bytes : Bytes} (hclaimed : (claimed requests moves)[k]? = some i)
    (hrequest : requests[i]? = some (.receive room)) (hj : h.jobs[i]? = some (.received bytes)) :
    ∃ (j : Nat) (message : Bytes), (published requests moves)[k]? = some j ∧
      requests[j]? = some (.send message) ∧
      bytes = (Mailbox.payload capacity message).take (min room capacity) := by
  cases hsound.stands i _ _ hrequest hj with
  | @received _ _ message _ hgets hbytes =>
    obtain ⟨k', j, hclaimed', hpublished, hsent⟩ := hgets
    have hlt := (List.getElem?_eq_some_iff.mp hclaimed).1
    obtain rfl := (List.getElem?_inj hlt hsound.receives_nodup).mp (hclaimed.trans hclaimed'.symm)
    exact ⟨j, message, hpublished, hsent, hbytes⟩

/-- What the invariant says of the calls. -/
theorem SoundAfter.orderly (hsound : SoundAfter capacity requests h moves) :
    Orderly capacity requests h moves where
  exclusive := hsound.exclusive
  full_iff := by
    have hcount := hsound.count
    constructor
    · intro hword
      rw [if_pos hword] at hcount
      omega
    · intro hlt
      by_contra hword
      rw [if_neg hword] at hcount
      omega
  backlog := by
    have hcount := hsound.count
    split at hcount
    · exact .inr hcount
    · exact .inl hcount
  published_once := hsound.sends_nodup
  claimed_once := hsound.receives_nodup
  published_iff := hsound.published_iff
  claimed_iff := hsound.claimed_iff
  received _ _ _ _ := hsound.received

/-- Exactly once, untorn and in order. However the steps of any number of sends and receives are
interleaved, and wherever the schedule breaks off, one job at most touches the slot, and the receive
that claimed it as the `k`-th one gets the message that was published as the `k`-th one: cut to the
capacity, filled up with zeros, and as far as there is room. -/
theorem messages_delivered (capacity : Nat) (requests : List HandoverRequest)
    (schedule : List Nat) :
    Orderly capacity requests
      ((start capacity (requests.map HandoverRequest.job)).run schedule).1
      ((start capacity (requests.map HandoverRequest.job)).run schedule).2 :=
  ((soundAfter_start capacity requests).run schedule).orderly

/-- Two senders and a receiver with little room: the second sender comes first. -/
example : ((start 2 ([.send [1, 2, 3], .send [4], .receive 1].map HandoverRequest.job)).run
    [1, 0, 1, 2, 1, 1, 0, 2, 2, 0, 2, 0]).1.jobs =
      [.sendCopying [1, 2, 3] 0, .sent [4], .received [4]] := by
  decide

end Handover

end Enclaves

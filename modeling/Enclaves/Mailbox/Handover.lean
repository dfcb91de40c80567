import Enclaves.Mailbox
/-!
# The handover through a slot

What senders and receivers of one mailbox do in parallel, cut into the smallest steps that another
one may come between: taking the slot, which succeeds or fails, the transfer of one byte, and giving
the slot on. A state word in front of the payload decides who takes it: a sender turns `empty` into
`writing`, a receiver turns `full` into `reading`, and whoever has taken the slot gives it on with
the word that the other kind waits for, so only one of them touches the payload at a time.

Each send and each receive is a job. A schedule names the job that takes the next step, again and
again in any order, so the schedules are all the interleavings there are; a job that a schedule
leaves behind is one that has not finished. An attempt that fails changes nothing. What goes on is
recorded as a list of moves, the order in which the slot was taken and given on.
-/

namespace Enclaves

/-- The state word of a slot. -/
inductive SlotWord where
  | empty
  | writing
  | full
  | reading
  deriving DecidableEq, Repr

/-- A send or a receive, and how far it has come. -/
inductive HandoverJob where
  | sendWaiting (message : Bytes)
  | sendCopying (message : Bytes) (offset : Nat)
  | sent (message : Bytes)
  | receiveWaiting (room : Nat)
  | receiveCopying (room : Nat) (taken : Bytes)
  | received (bytes : Bytes)
  deriving DecidableEq, Repr

/-- What a job did to the slot as a whole. -/
inductive HandoverMove where
  | took (job : Nat)
  | gaveOn (job : Nat)
  deriving DecidableEq, Repr

/-- A slot and the jobs that share it. -/
structure Handover where
  capacity : Nat
  word : SlotWord
  payload : Bytes
  jobs : List HandoverJob
  deriving DecidableEq, Repr

namespace Handover

/-- A new slot with jobs that have not begun. Its payload has never been written to. -/
def start (capacity : Nat) (jobs : List HandoverJob) : Handover :=
  ⟨capacity, .empty, Bytes.zeros capacity, jobs⟩

/-- Replace a job. -/
def advance (h : Handover) (job : Nat) (next : HandoverJob) : Handover :=
  { h with jobs := h.jobs.set job next }

/-- One step of a job, and what it did to the slot. A sender writes its message byte by byte and
then zeros up to the capacity; a receiver takes as many bytes as it has room for. -/
def step (h : Handover) (job : Nat) : Handover × Option HandoverMove :=
  match h.jobs[job]? with
  | some (.sendWaiting message) =>
    if h.word = .empty then
      ({ h.advance job (.sendCopying message 0) with word := .writing }, some (.took job))
    else (h, none)
  | some (.sendCopying message offset) =>
    if offset < h.capacity then
      ({ h.advance job (.sendCopying message (offset + 1)) with
        payload := h.payload.set offset (message.getD offset 0) }, none)
    else ({ h.advance job (.sent message) with word := .full }, some (.gaveOn job))
  | some (.receiveWaiting room) =>
    if h.word = .full then
      ({ h.advance job (.receiveCopying room []) with word := .reading }, some (.took job))
    else (h, none)
  | some (.receiveCopying room taken) =>
    if taken.length < min room h.capacity then
      (h.advance job (.receiveCopying room (taken ++ [h.payload.getD taken.length 0])), none)
    else ({ h.advance job (.received taken) with word := .empty }, some (.gaveOn job))
  | some (.sent _) | some (.received _) | none => (h, none)

/-- The steps of a schedule, and the moves that came of them. -/
def run (h : Handover) : (schedule : List Nat) → Handover × List HandoverMove
  | [] => (h, [])
  | job :: rest =>
    let (h, move) := h.step job
    let (h, moves) := h.run rest
    (h, move.toList ++ moves)

/-! ## A sender and a receiver -/

/-- The jobs of one sender and one receiver that pass messages over: a send and a receive of the
whole slot for each. -/
def transferJobs (capacity : Nat) : List Bytes → List HandoverJob
  | [] => []
  | message :: rest =>
    .sendWaiting message :: .receiveWaiting capacity :: transferJobs capacity rest

/-- Sender and receiver take turns, long enough for each message to arrive before the next. -/
def transferSchedule (capacity messages : Nat) : List Nat :=
  (List.range messages).flatMap fun k =>
    (List.replicate (2 * (capacity + 2)) [2 * k, 2 * k + 1]).flatten

/-- Pass messages from a sender to a receiver. -/
def transfer (capacity : Nat) (messages : List Bytes) : Handover :=
  ((start capacity (transferJobs capacity messages)).run
    (transferSchedule capacity messages.length)).1

/-- What the receives of a slot have brought, in the order of the jobs. -/
def receipts (h : Handover) : List Bytes :=
  h.jobs.filterMap fun
    | .received bytes => some bytes
    | _ => none

end Handover

end Enclaves

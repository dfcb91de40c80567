import Enclaves.Bytes
/-!
# Mailboxes

A mailbox is one slot of fixed capacity on a connector region. A message is cut or zero filled to
the capacity when it is sent, and stays until it is received; a sender finds the slot full until
then, a receiver finds it empty before. Neither can do anything about that but wait, so both
operations answer nothing in that case.

This is the mailbox as one call after another sees it. `Enclaves.Mailbox.Handover` has the steps
that senders and receivers take in parallel.
-/

namespace Enclaves

/-- A mailbox and the message that waits in it, if one does. -/
structure Mailbox where
  capacity : Nat
  waiting : Option Bytes
  deriving DecidableEq

/-- Bytes kept for the state word in front of the slot. -/
def mailboxHeader : Nat := 8

/-- What a sender is told: the bytes that went in, and whether some did not. -/
structure Sent where
  copied : Nat
  truncated : Bool
  deriving DecidableEq, Repr

/-- What a sender is told about some bytes sent to a slot of some capacity. -/
def Sent.ofLength (capacity length : Nat) : Sent := ⟨min length capacity, capacity < length⟩

namespace Mailbox

def empty (capacity : Nat) : Mailbox := ⟨capacity, none⟩

def isFull (m : Mailbox) : Bool := m.waiting.isSome

/-- Bytes as they lie in a slot: cut or zero filled to its capacity. -/
def payload (capacity : Nat) (message : Bytes) : Bytes :=
  Bytes.padTo capacity (message.take capacity)

/-- A payload fills the mailbox, whatever the length of the message. -/
theorem length_payload (capacity : Nat) (message : Bytes) :
    (payload capacity message).length = capacity := by
  simp only [payload, Bytes.length_padTo, List.length_take]
  omega

/-- Put a message in, unless one is waiting. -/
def send? (m : Mailbox) (message : Bytes) : Option (Sent × Mailbox) :=
  match m.waiting with
  | some _ => none
  | none =>
    some (Sent.ofLength m.capacity message.length,
      { m with waiting := some (payload m.capacity message) })

/-- Take the waiting message out and keep its first `room` bytes. -/
def receive? (m : Mailbox) (room : Nat) : Option (Bytes × Mailbox) :=
  match m.waiting with
  | none => none
  | some message => some (message.take room, { m with waiting := none })

/-- A message that was sent is what is received, and the slot is as before. -/
theorem receive?_of_send? {m m' : Mailbox} {message : Bytes} {sent : Sent} (room : Nat)
    (h : m.send? message = some (sent, m')) :
    m'.receive? room = some ((payload m.capacity message).take room, m) := by
  obtain ⟨capacity, waiting⟩ := m
  cases waiting with
  | some _ => simp [send?] at h
  | none =>
    simp only [send?, Option.some.injEq, Prod.mk.injEq] at h
    obtain ⟨-, rfl⟩ := h
    simp [receive?]

/-- A mailbox as shown by name, for a slot and for either end of it. -/
def describe (m : Mailbox) : String :=
  s!"SharedBuffer \x7b capacity: {m.capacity}, full: {m.isFull} \x7d"

def describeSender (m : Mailbox) : String :=
  s!"MailboxSender \x7b buffer: {m.describe} \x7d"

def describeReceiver (m : Mailbox) : String :=
  s!"MailboxReceiver \x7b buffer: {m.describe} \x7d"

end Mailbox

end Enclaves

import Enclaves.Digest
/-!
# Histories

A history is a digest that starts as an enclave's measurement and absorbs every connection event:
the new history is the hash of the old one, the peer's measurement and the event's tag. The tags
have different lengths, and both kinds of preimage are longer than 128 bytes and shorter than 139,
so neither can be taken for the other, nor for the preimage of a measurement of whole pages.
-/

namespace Enclaves

/-- What happened between two enclaves. -/
inductive Event where
  | connect
  | disconnect
  deriving DecidableEq, Repr

namespace Event

def names : List (String × Event) := [("Connect", .connect), ("Disconnect", .disconnect)]

def name : Event → String
  | .connect => "Connect"
  | .disconnect => "Disconnect"

/-- The text that ends a history's preimage. -/
def tag : Event → Bytes
  | .connect => [0x43, 0x4f, 0x4e, 0x4e, 0x45, 0x43, 0x54]
  | .disconnect => [0x44, 0x49, 0x53, 0x43, 0x4f, 0x4e, 0x4e, 0x45, 0x43, 0x54]

/-- The byte for an event in a wire form. -/
def code : Event → UInt8
  | .connect => 1
  | .disconnect => 2

def ofCode? (code : UInt8) : Option Event :=
  if code = 1 then some .connect else if code = 2 then some .disconnect else none

/-- An event is read from its own code only. -/
theorem ofCode?_eq_some_iff {c : UInt8} {e : Event} : ofCode? c = some e ↔ c = e.code := by
  cases e <;> simp only [ofCode?, code] <;> split <;> simp_all

end Event

/-- What a step of a history hashes. -/
def historyPreimage (history peer : Digest) (event : Event) : Bytes :=
  history.bytes ++ peer.bytes ++ event.tag

/-- A history after an event with a peer. -/
def extendHistory (history peer : Digest) (event : Event) : Digest :=
  .ofPreimage (historyPreimage history peer event)

/-- A history after a sequence of events. -/
def replayHistory (start : Digest) (events : List (Event × Digest)) : Digest :=
  events.foldl (fun history (event, peer) => extendHistory history peer event) start

/-- Replaying in two parts is replaying at once. -/
theorem replayHistory_append (start : Digest) (first rest : List (Event × Digest)) :
    replayHistory start (first ++ rest) = replayHistory (replayHistory start first) rest := by
  simp [replayHistory]

end Enclaves

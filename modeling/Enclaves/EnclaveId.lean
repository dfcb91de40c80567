import Enclaves.Bytes
/-!
# Enclave handles and states

A handle names a slot of the monitor's table and the generation of its occupant, so that a handle
kept after its enclave is gone does not name the next one in the slot. Both parts are 32-bit words,
and a generation is never zero.
-/

namespace Enclaves

/-- A handle: a slot and the generation of its occupant. -/
structure EnclaveId where
  index : UInt32
  generation : UInt32
  deriving DecidableEq, Repr

namespace EnclaveId

/-- A handle as shown in messages. -/
def describe (id : EnclaveId) : String := s!"eid:{id.index}.{id.generation}"

/-- The generation of a slot's first occupant. -/
def firstGeneration : UInt32 := 1

/-- The generation after another one; it starts over at the first when the word is full. -/
def nextGeneration (generation : UInt32) : UInt32 :=
  if generation + 1 = 0 then firstGeneration else generation + 1

end EnclaveId

/-- How far an enclave has come. No record is ever `destroyed`: that is what a handle says whose
enclave is gone. -/
inductive EnclaveState where
  | allocated
  | finalized
  | running
  | suspended
  | destroyed
  deriving DecidableEq, Repr

namespace EnclaveState

def names : List (String × EnclaveState) :=
  [("Allocated", .allocated), ("Finalized", .finalized), ("Running", .running),
    ("Suspended", .suspended), ("Destroyed", .destroyed)]

def name : EnclaveState → String
  | .allocated => "Allocated"
  | .finalized => "Finalized"
  | .running => "Running"
  | .suspended => "Suspended"
  | .destroyed => "Destroyed"

/-- The states in which an enclave may be connected. -/
def isConnectable : EnclaveState → Bool
  | .finalized | .running => true
  | _ => false

/-- The states in which an enclave has a measurement. -/
def isMeasured : EnclaveState → Bool
  | .finalized | .running | .suspended => true
  | _ => false

end EnclaveState

end Enclaves

import Enclaves.EnclaveId
import Enclaves.Layout
import Enclaves.Platform
import Enclaves.Reference
/-!
# Why a monitor call is refused

The causes, one constructor for each kind, and their wording in `MonitorError.message`. What an
enclave's state rules out is a cause of its own, `Refusal`, since most of it shares one kind.
-/

namespace Enclaves

/-- What cannot be done with an enclave in its present state. -/
inductive Refusal where
  | setReference
  | load
  | finalize
  | run
  | resume
  | connectToItself
  | connect
  | disconnect
  | noConnector
  | noReference
  | alreadyConnected
  | notConnected
  | notMeasured
  | readMeasurement
  | readHistory
  | noUntrusted
  | noMailbox
  | noPeerMailbox
  | attest
  deriving DecidableEq, Repr

/-- The words after "cannot". -/
def Refusal.words : Refusal → String
  | .setReference => "set image reference"
  | .load => "load an image"
  | .finalize => "finalize"
  | .run => "run"
  | .resume => "resume"
  | .connectToItself => "connect to itself"
  | .connect => "connect"
  | .disconnect => "disconnect"
  | .noConnector => "connect without a connector region"
  | .noReference => "connect without an image reference"
  | .alreadyConnected => "connect twice to the same peer"
  | .notConnected => "disconnect from an enclave it is not connected to"
  | .notMeasured => "connect before finalize"
  | .readMeasurement => "read the measurement"
  | .readHistory => "read the hash history"
  | .noUntrusted => "access an untrusted region it does not have"
  | .noMailbox => "open a mailbox without a connector region"
  | .noPeerMailbox => "open a mailbox to an enclave it is not connected to"
  | .attest => "attest"

/-- What ran out. -/
inductive Shortage where
  | table (enclaves : Nat)
  | pages (wanted : Nat) (kind : RegionKind) (inUse : Nat)
  | region (fault : RegionFault)
  deriving DecidableEq, Repr

def Shortage.message : Shortage → String
  | .table enclaves => s!"enclave table full ({enclaves} enclaves)"
  | .pages wanted kind inUse =>
    s!"no {wanted} contiguous pages left for {kind.name} region ({inUse} in use)"
  | .region fault => fault.message

/-- What is wrong with an image or its place. -/
inductive Misplacement where
  | emptySegment
  | layout (fault : LayoutFault)
  deriving DecidableEq, Repr

def Misplacement.message : Misplacement → String
  | .emptySegment => "loader, runtime and application must all be non-empty"
  | .layout fault => fault.message

/-- What is wrong with an argument, whatever the enclave. -/
inductive BadArgument where
  | noPages
  | reference (fault : ReferenceFault)
  | imageTooLarge (needed available : Nat)
  | dataTooLong (bytes limit : Nat)
  | sharedSlot (a b : EnclaveId)
  deriving DecidableEq, Repr

def BadArgument.message : BadArgument → String
  | .noPages => "min_pages must be non-zero"
  | .reference fault => fault.message
  | .imageTooLarge needed available =>
    s!"image needs {needed} pages, exclusive region has {available}"
  | .dataTooLong bytes limit => s!"attestation data is {bytes} bytes, limit is {limit}"
  | .sharedSlot a b => s!"{a.describe} and {b.describe} share a slot"

/-- Why a call is refused. -/
inductive MonitorError where
  | invalidHandle (id : EnclaveId)
  | invalidState (id : EnclaveId) (state : EnclaveState) (refusal : Refusal)
  | resourceExhausted (shortage : Shortage)
  | layoutInvalid (misplacement : Misplacement)
  | lowLevelCall (id : EnclaveId) (fault : PlatformFault)
  | logFull (id : EnclaveId) (capacity : Nat)
  | invalidArgument (argument : BadArgument)
  deriving DecidableEq, Repr

def MonitorError.message : MonitorError → String
  | .invalidHandle id => "Invalid enclave handle: " ++ id.describe
  | .invalidState id state refusal =>
    s!"Enclave {id.describe} is {state.name}, cannot {refusal.words}"
  | .resourceExhausted shortage => "Resources exhausted: " ++ shortage.message
  | .layoutInvalid misplacement => "Invalid layout: " ++ misplacement.message
  | .lowLevelCall id fault =>
    s!"Low-level call failed for enclave {id.describe}: {fault.message}"
  | .logFull id capacity => s!"Connection log of enclave {id.describe} is full ({capacity} entries)"
  | .invalidArgument argument => "Invalid argument: " ++ argument.message

end Enclaves

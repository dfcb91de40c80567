import Enclaves.EnclaveId
import Enclaves.Region
/-!
# The simulated platform

The monitor decides whether a transition is legal; the platform performs it. This one is simulated:
what the next entries into an enclave will do is scripted, and failures can be injected into every
call. It keeps a record of the entries made and of the regions that are mapped.

What belongs to an enclave is a function of its handle, so that two platforms with the same content
are equal whatever the order in which it came about.
-/

namespace Enclaves

/-- How an enclave is entered: for the first time, or after it yielded. -/
inductive Entry where
  | run
  | resume
  deriving DecidableEq, Repr

def Entry.name : Entry → String
  | .run => "Run"
  | .resume => "Resume"

/-- Why control came back: the enclave is done, or it waits for the host. -/
inductive DomainExit where
  | exited (value : Nat)
  | yielded (value : Nat)
  deriving DecidableEq, Repr

def DomainExit.value : DomainExit → Nat
  | .exited value => value
  | .yielded value => value

/-- Why a call failed. -/
inductive PlatformFault where
  | enter (reason : String)
  | map (into : EnclaveId)
  deriving DecidableEq, Repr

def PlatformFault.message : PlatformFault → String
  | .enter reason => "platform call `enter` failed: " ++ reason
  | .map into => "platform call `map_shared` failed: cannot map into " ++ into.describe

structure Platform where
  /-- What the next entries will do, the next one first. -/
  script : EnclaveId → List (Except PlatformFault DomainExit)
  /-- The enclaves that no region can be mapped into. -/
  refusesMaps : EnclaveId → Bool
  /-- Whether releasing memory is reported as failed. It happens all the same. -/
  failsReleases : Bool
  /-- The regions mapped into each enclave, the oldest first. -/
  mappings : EnclaveId → List Region
  /-- The entries made so far. -/
  entries : List (EnclaveId × Entry)

namespace Platform

def initial : Platform := ⟨fun _ => [], fun _ => false, false, fun _ => [], []⟩

/-- A function with one value replaced. -/
def set {α : Type} (f : EnclaveId → α) (id : EnclaveId) (a : α) : EnclaveId → α :=
  fun other => if other = id then a else f other

/-- Add to the script of an enclave. -/
def scriptEntry (p : Platform) (id : EnclaveId) (result : Except PlatformFault DomainExit) :
    Platform :=
  { p with script := set p.script id (p.script id ++ [result]) }

def refuseMaps (p : Platform) (id : EnclaveId) (refuse : Bool) : Platform :=
  { p with refusesMaps := set p.refusesMaps id refuse }

def failReleases (p : Platform) (fail : Bool) : Platform := { p with failsReleases := fail }

/-- Enter an enclave; one without a script exits with zero. -/
def enter (p : Platform) (id : EnclaveId) (entry : Entry) :
    Except PlatformFault DomainExit × Platform :=
  let p := { p with entries := p.entries ++ [(id, entry)] }
  match p.script id with
  | [] => (.ok (.exited 0), p)
  | next :: rest => (next, { p with script := set p.script id rest })

/-- Map a region into an enclave. -/
def map (p : Platform) (into : EnclaveId) (region : Region) :
    Except PlatformFault Unit × Platform :=
  if p.refusesMaps into then (.error (.map into), p)
  else (.ok (), { p with mappings := set p.mappings into (p.mappings into ++ [region]) })

/-- Take every mapping of a region out of an enclave. -/
def unmap (p : Platform) (from_ : EnclaveId) (region : Region) : Platform :=
  { p with mappings := set p.mappings from_ ((p.mappings from_).filter (· ≠ region)) }

/-- Reclaim what belongs to an enclave that is gone. -/
def release (p : Platform) (id : EnclaveId) : Platform :=
  { p with mappings := set p.mappings id [], script := set p.script id [] }

end Platform

end Enclaves

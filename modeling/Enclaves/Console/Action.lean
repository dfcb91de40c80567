import Enclaves.Console.Arguments
import Enclaves.Console.Host
import Enclaves.Document.Config
import Enclaves.Document.Report
import Enclaves.Monitor.Call
import Enclaves.Report.Wire
/-!
# Actions

What commands have in common: they run on a host, print as they go, and stop at the first error. A
later error takes nothing back that was printed or written before it.
-/

namespace Enclaves.Console

/-- Why a command failed. -/
inductive ActionError where
  | file (fault : FileFault)
  | config (error : ConfigError)
  | monitor (error : MonitorError)
  | wire (fault : WireFault)
  | publicKey (fault : PublicKeyFault)
  | digest (fault : DigestFault)
  | nonce (fault : Hex.Fault)
  | imageTooLarge (bytes region : Nat)
  | untrusted
  deriving DecidableEq, Repr

def ActionError.message : ActionError → String
  | .file fault => fault.message
  | .config error => error.message
  | .monitor error => error.message
  | .wire fault => fault.message
  | .publicKey fault => fault.message
  | .digest fault => fault.message
  | .nonce fault => fault.message
  | .imageTooLarge bytes region => s!"image is {bytes} bytes, platform region is {region}"
  | .untrusted => "report did not verify"

/-- Something done on a host that may fail. -/
abbrev Action (m : Type → Type) [Host m] (α : Type) := ExceptT ActionError m α

variable {m : Type → Type} [Host m] {α ε : Type}

/-- Print a line. -/
def line (text : String) : Action m Unit := (Host.print (text ++ "\n") : m Unit)

/-- A line across. -/
def rule : String := String.ofList (List.replicate 60 '-')

/-- A result, with its error among those of actions. -/
def check (wrap : ε → ActionError) (result : Except ε α) : Action m α :=
  .mk (pure (result.mapError wrap))

/-- Something a host does with files. -/
def onFile (action : m (Except FileFault α)) : Action m α := do
  check ActionError.file (← action)

/-- The contents of a file. -/
def readFile (path : String) : Action m Bytes := onFile (Host.readFile path : m _)

def writeFile (path : String) (bytes : Bytes) : Action m Unit :=
  onFile (Host.writeFile path bytes : m _)

/-- The configuration to use: the default unless a file is named. -/
def configuration (path : Option String) : Action m Config :=
  match path with
  | none => pure {}
  | some path => do check ActionError.config (Config.ofFile (← (Host.readFile path : m _)))

end Enclaves.Console
